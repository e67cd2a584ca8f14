import SciCalc.Proofs.Formula.Nesting
import SciCalc.Proofs.Formula.Scanning
import SciCalc.Proofs.Formula.Tree

/-! # Tokens of a text

Of the tokens read so far only the last one matters for what follows, and only in two ways:
whether a minus is a sign, and whether a multiplication is understood. The tokens of a formula
are known ones, and no place is left where a multiplication would still be understood.
-/

namespace SciCalc.Token

theorem placeAfter_append (previous : Option Token) (token : Token) (first second : List Token) :
    placeAfter previous token (first ++ second) = placeAfter previous token first ++ second := by
  unfold placeAfter
  split <;> rfl

theorem placeAfter_of_not_impliesTimes {previous : Option Token} {token : Token}
    (htimes : impliesTimes previous token = false) (rest : List Token) :
    placeAfter previous token rest = token :: rest := by
  simp [placeAfter, htimes]

@[simp] theorem impliesTimes_none (token : Token) : impliesTimes none token = false := by
  cases token <;> rfl

@[simp] theorem impliesTimes_closing (previous : Option Token) :
    impliesTimes previous (paren false) = false := by
  cases previous with
  | none => rfl
  | some last => cases last with
    | paren isOpen => cases isOpen <;> rfl
    | number value text | operator symbol precedence | function name => rfl

@[simp] theorem impliesTimes_operator (previous : Option Token) (symbol : String)
    (precedence : Int) : impliesTimes previous (operator symbol precedence) = false := by
  cases previous with
  | none => rfl
  | some last => cases last with
    | paren isOpen => cases isOpen <;> rfl
    | number value text | operator symbol precedence | function name => rfl

@[simp] theorem impliesTimes_after_operator (symbol : String) (precedence : Int) (token : Token) :
    impliesTimes (some (operator symbol precedence)) token = false := by
  cases token <;> rfl

@[simp] theorem impliesTimes_after_function (name : String) (token : Token) :
    impliesTimes (some (function name)) token = false := by
  cases token <;> rfl

@[simp] theorem impliesTimes_after_opening (token : Token) :
    impliesTimes (some (paren true)) token = false := by
  cases token <;> rfl

/-! ## The token before -/

/-- The token before decides only whether a minus is a sign and where a multiplication is
understood. -/
theorem ofLexemes_congr {previous other : Option Token}
    (hsign : signMayFollow previous = signMayFollow other)
    (htimes : ∀ token, impliesTimes previous token = impliesTimes other token)
    (lexemes : List Lexeme) : ofLexemes previous lexemes = ofLexemes other lexemes := by
  have hplace : ∀ token, placeAfter previous token = placeAfter other token := by
    intro token
    funext rest
    simp only [placeAfter, htimes]
  fun_cases ofLexemes previous lexemes with
  | case1 => rfl
  | case2 _ text rest hmay => rw [ofLexemes.eq_2, ← hsign, if_pos hmay]; simp only [hplace]
  | case3 _ text rest hmay => rw [ofLexemes.eq_2, ← hsign, if_neg hmay]
  | case4 _ text rest => simp only [ofLexemes, hplace]
  | case5 _ symbol rest hnext => rw [ofLexemes.eq_4 _ _ _ hnext]
  | case6 _ isOpen rest => simp only [ofLexemes, hplace]
  | case7 _ letters rest => simp only [ofLexemes, hplace]
  | case8 => rfl

/-- The start of a text is like the place behind an opening parenthesis. -/
theorem ofLexemes_opening (lexemes : List Lexeme) :
    ofLexemes (some (paren true)) lexemes = ofLexemes none lexemes := by
  apply ofLexemes_congr
  · rfl
  · simp

/-- Behind an operand every operator sign is an operator. -/
theorem ofLexemes_operator {previous : Option Token} (hsign : signMayFollow previous = false)
    (symbol : Char) (lexemes : List Lexeme) :
    ofLexemes previous (.operator symbol :: lexemes) =
      (ofSign symbol :: ·) <$> ofLexemes (some (ofSign symbol)) lexemes := by
  by_cases hnext : ∃ text rest, lexemes = .numeral text :: rest ∧ symbol = '-'
  · obtain ⟨text, rest, rfl, rfl⟩ := hnext
    rw [ofLexemes.eq_2, hsign, if_neg Bool.false_ne_true]
  · rw [ofLexemes.eq_4]
    exact fun text rest hlexemes hsymbol => hnext ⟨text, rest, hlexemes, hsymbol⟩

theorem ofLexemes_sign {previous : Option Token} (hsign : signMayFollow previous = false)
    (sign : Formula.OperatorSign) (lexemes : List Lexeme) :
    ofLexemes previous (.operator sign.char :: lexemes) =
      (sign.token :: ·) <$> ofLexemes (some sign.token) lexemes :=
  ofLexemes_operator hsign sign.char lexemes

theorem ofLexemes_word (previous : Option Token) (function : UnaryFunction)
    (lexemes : List Lexeme) :
    ofLexemes previous (.word function.name.toList :: lexemes) =
      placeAfter previous (.function function.name) <$>
        ofLexemes (some (.function function.name)) lexemes := by
  simp [ofLexemes, ofWord]

/-- What stands before a closing parenthesis becomes the same tokens as without it. -/
theorem ofLexemes_append_closing (previous : Option Token) (first second : List Lexeme) :
    ofLexemes previous (first ++ .paren false :: second) =
      ofLexemes previous first >>= fun tokens =>
        (tokens ++ paren false :: ·) <$> ofLexemes (some (paren false)) second := by
  -- A token in front is put in front of both sides.
  have hcons : ∀ (call : Except Fault (List Token)) (change : List Token → List Token),
      (∀ tokens rest, change (tokens ++ rest) = change tokens ++ rest) →
      change <$> (call >>= fun tokens =>
          (tokens ++ paren false :: ·) <$> ofLexemes (some (paren false)) second) =
        (change <$> call) >>= fun tokens =>
          (tokens ++ paren false :: ·) <$> ofLexemes (some (paren false)) second := by
    intro call change hchange
    cases call with
    | error fault => rfl
    | ok tokens => simp only [bind_ok, Except.map_ok, Functor.map_map, hchange]
  induction previous, first using ofLexemes.induct with
  | case1 previous =>
      have hplace : placeAfter previous (paren false) = (paren false :: ·) := by
        funext rest
        exact placeAfter_of_not_impliesTimes (impliesTimes_closing previous) rest
      simp [ofLexemes, hplace]
  | case2 previous text rest hmay ih =>
      simp only [List.cons_append, ofLexemes, hmay, if_true]
      cases ofNumeral (String.ofList ('-' :: text)) with
      | error fault => rfl
      | ok token =>
          simp only [bind_ok, ih]
          exact hcons _ _ (placeAfter_append previous token)
  | case3 previous text rest hmay ih =>
      rw [List.cons_append] at ih
      simp only [List.cons_append, ofLexemes.eq_2, hmay, Bool.false_eq_true, if_false, ih]
      exact hcons _ _ (fun _ _ => rfl)
  | case4 previous text rest ih =>
      simp only [List.cons_append, ofLexemes]
      cases ofNumeral (String.ofList text) with
      | error fault => rfl
      | ok token =>
          simp only [bind_ok, ih]
          exact hcons _ _ (placeAfter_append previous token)
  | case5 previous symbol rest hnext ih =>
      -- A parenthesis is no numeral, so the operator does not become a sign.
      have hnext' : ∀ text tail, rest ++ Lexeme.paren false :: second = .numeral text :: tail →
          symbol = '-' → False := by
        intro text tail heq
        cases rest with
        | nil => simp at heq
        | cons head rest =>
            simp only [List.cons_append, List.cons.injEq] at heq
            exact hnext text rest (by rw [heq.1])
      rw [List.cons_append, ofLexemes.eq_4 _ _ _ hnext', ofLexemes.eq_4 _ _ _ hnext, ih]
      exact hcons _ _ (fun _ _ => rfl)
  | case6 previous isOpen rest ih =>
      simp only [List.cons_append, ofLexemes, ih]
      exact hcons _ _ (placeAfter_append previous (paren isOpen))
  | case7 previous letters rest ih =>
      simp only [List.cons_append, ofLexemes]
      cases ofWord (String.ofList letters) with
      | error fault => rfl
      | ok token =>
          simp only [bind_ok, ih]
          exact hcons _ _ (placeAfter_append previous token)
  | case8 previous c rest => rfl

/-- A text in parentheses becomes its tokens in parentheses. -/
theorem ofLexemes_scan_enclose {cs : List Char} {tokens : List Token}
    (htokens : ofLexemes none (Lexeme.scan cs) = .ok tokens) (previous : Option Token)
    (rest : List Char) :
    ofLexemes previous (Lexeme.scan (Parentheses.enclose cs ++ rest)) =
      (fun tail => placeAfter previous (paren true) (tokens ++ paren false :: tail)) <$>
        ofLexemes (some (paren false)) (Lexeme.scan rest) := by
  have hscan : Lexeme.scan (Parentheses.enclose cs ++ rest) =
      .paren true :: (Lexeme.scan cs ++ .paren false :: Lexeme.scan rest) := by
    simp only [Parentheses.enclose, List.cons_append, List.append_assoc, List.nil_append,
      Lexeme.scan_opening, Lexeme.scan_append_break Lexeme.isBreak_closing, Lexeme.scan_closing]
  rw [hscan, ofLexemes.eq_5, ofLexemes_append_closing, ofLexemes_opening, htokens, bind_ok,
    Functor.map_map]

/-! ## The tokens of a formula -/

/-- A text that is not blank becomes the tokens of its pieces, once its parentheses are in order. -/
theorem tokenize_of_not_blank {formula : String}
    (hnotBlank : ∃ c ∈ formula.toList, Text.isBlank c = false) :
    tokenize formula = Parentheses.validate formula >>= fun _ =>
      ofLexemes none (Lexeme.scan formula.toList) := by
  have hblank : Text.isAllBlank formula = false := by simpa [Text.isAllBlank] using hnotBlank
  rw [tokenize, hblank, if_neg Bool.false_ne_true]

theorem tokenize_eq_ok_iff {formula : String} {tokens : List Token} :
    tokenize formula = .ok tokens ↔ Text.isAllBlank formula = false ∧
      Parentheses.validate formula = .ok () ∧
      ofLexemes none (Lexeme.scan formula.toList) = .ok tokens := by
  unfold tokenize
  split
  next hblank => simp [hblank]
  next hnotBlank =>
    rw [bind_eq_ok_iff]
    constructor
    · rintro ⟨_, hvalid, hlexemes⟩
      exact ⟨by simpa using hnotBlank, hvalid, hlexemes⟩
    · rintro ⟨-, hvalid, hlexemes⟩
      exact ⟨(), hvalid, hlexemes⟩

/-- Whether the token is a number. -/
def isNumber : Token → Bool
  | number _ _ => true
  | _ => false

/-- Whether the token is an operator. -/
def isOperator : Token → Bool
  | operator _ _ => true
  | _ => false

/-- Whether the token has a meaning: its operator sign or its function is one that there is. -/
def IsKnown : Token → Prop
  | operator symbol precedence =>
    ∃ sign : Formula.OperatorSign, sign.token = operator symbol precedence
  | function name => ∃ meant : UnaryFunction, meant.name = name
  | _ => True

/-- No multiplication is understood any more between neighbours, the given token before the first
one included. -/
def Spaced : Option Token → List Token → Prop
  | _, [] => True
  | previous, token :: rest => impliesTimes previous token = false ∧ Spaced (some token) rest

/-- The tokens that a piece can become: numbers with the text that they are read from, operator
signs, functions, and parentheses. -/
inductive Arises : Token → Prop where
  | number {text : String} {value : Double} (hvalue : Double.ofText? text = some value) :
      Arises (number value (some text))
  | operator (sign : Formula.OperatorSign) : Arises sign.token
  | function (meant : UnaryFunction) : Arises (function meant.name)
  | paren (isOpen : Bool) : Arises (paren isOpen)

theorem Arises.isKnown {token : Token} (harises : token.Arises) : token.IsKnown := by
  cases harises with
  | number _ | paren _ => trivial
  | operator sign => exact ⟨sign, rfl⟩
  | function meant => exact ⟨meant, rfl⟩

theorem spaced_placeAfter {previous : Option Token} {token : Token} {rest : List Token}
    (hrest : Spaced (some token) rest) : Spaced previous (placeAfter previous token rest) := by
  unfold placeAfter
  split
  · exact ⟨impliesTimes_operator _ _ _, impliesTimes_after_operator _ _ _, hrest⟩
  next htimes => exact ⟨by simpa using htimes, hrest⟩

theorem arises_placeAfter {previous : Option Token} {token : Token} {rest : List Token}
    (htoken : token.Arises) (hrest : ∀ other ∈ rest, other.Arises) :
    ∀ other ∈ placeAfter previous token rest, other.Arises := by
  have htail : ∀ other ∈ token :: rest, other.Arises := List.forall_mem_cons.mpr ⟨htoken, hrest⟩
  unfold placeAfter
  split
  · exact List.forall_mem_cons.mpr ⟨.operator .times, htail⟩
  · exact htail

/-- A numeral becomes the number that it is read as, with its text. -/
theorem exists_of_ofNumeral {text : String} {token : Token} (htoken : ofNumeral text = .ok token) :
    ∃ value, Double.ofText? text = some value ∧ token = number value (some text) := by
  unfold ofNumeral at htoken
  split at htoken
  · simp at htoken
  next value hvalue =>
    split at htoken
    · simp at htoken
    · exact ⟨value, hvalue, (Except.ok.inj htoken).symm⟩

theorem arises_of_ofNumeral {text : String} {token : Token} (htoken : ofNumeral text = .ok token) :
    token.Arises := by
  obtain ⟨value, hvalue, rfl⟩ := exists_of_ofNumeral htoken
  exact .number hvalue

theorem arises_of_ofWord {name : String} {token : Token} (htoken : ofWord name = .ok token) :
    token.Arises := by
  unfold ofWord at htoken
  split at htoken
  next hname =>
    obtain rfl := Except.ok.inj htoken
    obtain ⟨meant, hmeant⟩ := Option.isSome_iff_exists.mp hname
    obtain rfl : meant.name = name := by simpa using List.find?_some hmeant
    exact .function meant
  · simp at htoken

theorem arises_ofSign {symbol : Char} (hsymbol : symbol ∈ Lexeme.operatorSigns) :
    (ofSign symbol).Arises := by
  obtain ⟨sign, rfl⟩ := Formula.OperatorSign.exists_char_eq hsymbol
  exact .operator sign

/-- Tokens of pieces, with no multiplication left to be understood. -/
def Placed (previous : Option Token) (tokens : List Token) : Prop :=
  (∀ token ∈ tokens, token.Arises) ∧ Spaced previous tokens

theorem placed_of_placeAfter {previous : Option Token} {token : Token} {tokens : List Token}
    {call : Except Fault (List Token)} (htoken : token.Arises)
    (hrest : ∀ rest, call = .ok rest → Placed (some token) rest)
    (htokens : placeAfter previous token <$> call = .ok tokens) : Placed previous tokens := by
  obtain ⟨rest, hcall, rfl⟩ := map_eq_ok_iff.mp htokens
  obtain ⟨harises, hspaced⟩ := hrest rest hcall
  exact ⟨arises_placeAfter htoken harises, spaced_placeAfter hspaced⟩

theorem placed_of_operator {previous : Option Token} {symbol : Char} {tokens : List Token}
    {call : Except Fault (List Token)} (hsymbol : symbol ∈ Lexeme.operatorSigns)
    (hrest : ∀ rest, call = .ok rest → Placed (some (ofSign symbol)) rest)
    (htokens : (ofSign symbol :: ·) <$> call = .ok tokens) : Placed previous tokens := by
  obtain ⟨rest, hcall, rfl⟩ := map_eq_ok_iff.mp htokens
  obtain ⟨harises, hspaced⟩ := hrest rest hcall
  exact ⟨List.forall_mem_cons.mpr ⟨arises_ofSign hsymbol, harises⟩,
    impliesTimes_operator _ _ _, hspaced⟩

/-- The tokens of pieces are placed if their operators are operator signs. -/
theorem placed_of_ofLexemes {previous : Option Token} {lexemes : List Lexeme}
    {tokens : List Token}
    (hsigns : ∀ symbol, .operator symbol ∈ lexemes → symbol ∈ Lexeme.operatorSigns)
    (htokens : ofLexemes previous lexemes = .ok tokens) : Placed previous tokens := by
  have htail : ∀ {head : Lexeme} {rest : List Lexeme},
      (∀ symbol, .operator symbol ∈ head :: rest → symbol ∈ Lexeme.operatorSigns) →
      ∀ symbol, .operator symbol ∈ rest → symbol ∈ Lexeme.operatorSigns :=
    fun hsigns symbol hmem => hsigns symbol (List.mem_cons_of_mem _ hmem)
  induction previous, lexemes using ofLexemes.induct generalizing tokens with
  | case1 previous =>
      obtain rfl : [] = tokens := by simpa [ofLexemes] using htokens
      exact ⟨by simp, trivial⟩
  | case2 previous text rest hmay ih =>
      rw [ofLexemes.eq_2, if_pos hmay] at htokens
      obtain ⟨token, htoken, hrest⟩ := bind_eq_ok_iff.mp htokens
      exact placed_of_placeAfter (arises_of_ofNumeral htoken)
        (fun _ hcall => ih token (htail (htail hsigns)) hcall) hrest
  | case3 previous text rest hmay ih =>
      rw [ofLexemes.eq_2, if_neg hmay] at htokens
      exact placed_of_operator (hsigns '-' (by simp))
        (fun _ hcall => ih (htail hsigns) hcall) htokens
  | case4 previous text rest ih =>
      rw [ofLexemes.eq_3] at htokens
      obtain ⟨token, htoken, hrest⟩ := bind_eq_ok_iff.mp htokens
      exact placed_of_placeAfter (arises_of_ofNumeral htoken)
        (fun _ hcall => ih token (htail hsigns) hcall) hrest
  | case5 previous symbol rest hnext ih =>
      rw [ofLexemes.eq_4 _ _ _ hnext] at htokens
      exact placed_of_operator (hsigns symbol (by simp))
        (fun _ hcall => ih (htail hsigns) hcall) htokens
  | case6 previous isOpen rest ih =>
      rw [ofLexemes.eq_5] at htokens
      exact placed_of_placeAfter (.paren isOpen) (fun _ hcall => ih (htail hsigns) hcall) htokens
  | case7 previous letters rest ih =>
      simp only [ofLexemes] at htokens
      obtain ⟨token, htoken, hrest⟩ := bind_eq_ok_iff.mp htokens
      exact placed_of_placeAfter (arises_of_ofWord htoken)
        (fun _ hcall => ih token (htail hsigns) hcall) hrest
  | case8 previous c rest => simp [ofLexemes, strayError] at htokens

theorem placed_of_tokenize {formula : String} {tokens : List Token}
    (htokens : tokenize formula = .ok tokens) : Placed none tokens := by
  obtain ⟨-, -, hlexemes⟩ := tokenize_eq_ok_iff.mp htokens
  exact placed_of_ofLexemes (fun _ => Lexeme.mem_operatorSigns_of_mem_scan) hlexemes

/-- Known tokens, with no multiplication left to be understood. -/
def Settled (previous : Option Token) (tokens : List Token) : Prop :=
  (∀ token ∈ tokens, token.IsKnown) ∧ Spaced previous tokens

/-- The tokens of a formula are settled. -/
theorem settled_of_tokenize {formula : String} {tokens : List Token}
    (htokens : tokenize formula = .ok tokens) : Settled none tokens := by
  obtain ⟨harises, hspaced⟩ := placed_of_tokenize htokens
  exact ⟨fun token hmem => (harises token hmem).isKnown, hspaced⟩

end SciCalc.Token
