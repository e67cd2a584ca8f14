import SciCalc.Proofs.Decimal.Spelled

/-! # Runs of digits

A run of digits stands for a number. The number determines the run if the length is given, and it
determines the run without the length if no zeros stand in front of it.
-/

namespace SciCalc

namespace Numeral

/-- Digits without zeros in front of them; a zero that stands alone stays. -/
def Unpadded (digits : List Char) : Prop := digits = ['0'] ∨ digits.head? ≠ some '0'

instance (digits : List Char) : Decidable (Unpadded digits) := inferInstanceAs (Decidable (_ ∨ _))

theorem digitsValue_append (front back : List Char) :
    digitsValue (front ++ back) = digitsValue front * 10 ^ back.length + digitsValue back := by
  rw [digitsValue, Nat.ofDigitChars_append, Nat.ofDigitChars_eq_ofDigitChars_zero, Nat.mul_comm]
  rfl

theorem digitsValue_singleton (c : Char) : digitsValue [c] = c.toNat - '0'.toNat := by
  rw [digitsValue, Nat.ofDigitChars_cons, Nat.ofDigitChars_nil, Nat.mul_zero, Nat.zero_add]

theorem digitsValue_cons (first : Char) (rest : List Char) :
    digitsValue (first :: rest) = digitsValue [first] * 10 ^ rest.length + digitsValue rest :=
  digitsValue_append [first] rest

theorem digitsValue_digit_lt {c : Char} (hdigit : c.isDigit = true) : digitsValue [c] < 10 := by
  obtain ⟨n, hn, rfl⟩ := exists_digitChar_of_isDigit hdigit
  rw [digitsValue_singleton, Nat.toNat_digitChar_of_lt_ten hn]
  have hzero : '0'.toNat = 48 := rfl
  omega

theorem digit_eq_of_value_eq {c d : Char} (hc : c.isDigit = true) (hd : d.isDigit = true)
    (hvalue : digitsValue [c] = digitsValue [d]) : c = d := by
  obtain ⟨m, hm, rfl⟩ := exists_digitChar_of_isDigit hc
  obtain ⟨n, hn, rfl⟩ := exists_digitChar_of_isDigit hd
  rw [digitsValue_singleton, digitsValue_singleton, Nat.toNat_digitChar_of_lt_ten hm,
    Nat.toNat_digitChar_of_lt_ten hn] at hvalue
  have hzero : '0'.toNat = 48 := rfl
  rw [show m = n by omega]

theorem digitsValue_digit_pos {c : Char} (hdigit : c.isDigit = true) (hne : c ≠ '0') :
    0 < digitsValue [c] := by
  refine Nat.pos_of_ne_zero fun hzero => hne ?_
  exact digit_eq_of_value_eq hdigit (by decide) (hzero.trans rfl)

theorem digitsValue_lt {digits : List Char} (hdigits : ∀ c ∈ digits, c.isDigit = true) :
    digitsValue digits < 10 ^ digits.length := by
  induction digits with
  | nil => exact Nat.one_pos
  | cons first rest ih =>
      have hfirst := digitsValue_digit_lt (hdigits first List.mem_cons_self)
      have hrest := ih fun c hmem => hdigits c (List.mem_cons_of_mem first hmem)
      rw [digitsValue_cons, List.length_cons, Nat.pow_succ']
      calc digitsValue [first] * 10 ^ rest.length + digitsValue rest
          < digitsValue [first] * 10 ^ rest.length + 10 ^ rest.length := by omega
        _ = (digitsValue [first] + 1) * 10 ^ rest.length := by ring
        _ ≤ 10 * 10 ^ rest.length := Nat.mul_le_mul_right _ hfirst

/-- What stands before and behind a point is worth what the whole run says. -/
theorem parts_of_digitsValue_eq {front back front' back' : List Char}
    (hback : ∀ c ∈ back, c.isDigit = true) (hback' : ∀ c ∈ back', c.isDigit = true)
    (hlength : back.length = back'.length)
    (hvalue : digitsValue (front ++ back) = digitsValue (front' ++ back')) :
    digitsValue front = digitsValue front' ∧ digitsValue back = digitsValue back' := by
  have hless := digitsValue_lt hback
  have hless' := digitsValue_lt hback'
  rw [digitsValue_append, digitsValue_append, hlength] at hvalue
  rw [hlength] at hless
  have hquotient := congrArg (· / 10 ^ back'.length) hvalue
  have hpow : 0 < 10 ^ back'.length := by positivity
  simp only [Nat.mul_comm _ (10 ^ back'.length), Nat.mul_add_div hpow, Nat.div_eq_of_lt hless,
    Nat.div_eq_of_lt hless', Nat.add_zero] at hquotient
  rw [hquotient] at hvalue
  exact ⟨hquotient, Nat.add_left_cancel hvalue⟩

/-- Runs of the same length are told apart by the numbers that they stand for. -/
theorem eq_of_digitsValue_eq {xs ys : List Char} (hxs : ∀ c ∈ xs, c.isDigit = true)
    (hys : ∀ c ∈ ys, c.isDigit = true) (hlength : xs.length = ys.length)
    (hvalue : digitsValue xs = digitsValue ys) : xs = ys := by
  induction xs generalizing ys with
  | nil => exact (List.length_eq_zero_iff.mp hlength.symm).symm
  | cons x xs ih =>
      obtain ⟨y, ys, rfl⟩ := List.exists_cons_of_length_eq_add_one hlength.symm
      obtain ⟨hx, hxs⟩ := List.forall_mem_cons.mp hxs
      obtain ⟨hy, hys⟩ := List.forall_mem_cons.mp hys
      have hrest : xs.length = ys.length := Nat.succ.inj hlength
      obtain ⟨hfirst, hvalue⟩ := @parts_of_digitsValue_eq [x] xs [y] ys hxs hys hrest hvalue
      rw [digit_eq_of_value_eq hx hy hfirst, ih hxs hys hrest hvalue]

theorem le_digitsValue {first : Char} (hdigit : first.isDigit = true) (hne : first ≠ '0')
    (rest : List Char) : 10 ^ rest.length ≤ digitsValue (first :: rest) := by
  rw [digitsValue_cons]
  exact (Nat.le_mul_of_pos_left _ (digitsValue_digit_pos hdigit hne)).trans (Nat.le_add_right _ _)

/-- A run that does not end in a zero stands for no multiple of ten. -/
theorem digitsValue_mod_ten {digits : List Char} (hne : digits ≠ [])
    (hdigits : ∀ c ∈ digits, c.isDigit = true) (hlast : digits.getLast? ≠ some '0') :
    digitsValue digits % 10 ≠ 0 := by
  obtain ⟨front, last, rfl⟩ := List.eq_nil_or_concat digits |>.resolve_left hne
  have hdigit := hdigits last (by simp)
  have hpos := digitsValue_digit_pos hdigit (by simpa using hlast)
  have hless := digitsValue_digit_lt hdigit
  rw [List.concat_eq_append, digitsValue_append, List.length_singleton, pow_one]
  omega

namespace Unpadded

variable {xs ys : List Char}

/-- A run without zeros in front is as long as its number is large. -/
theorem length_le (hunpadded : Unpadded xs) (hxs : ∀ c ∈ xs, c.isDigit = true)
    (hys : ∀ c ∈ ys, c.isDigit = true) (hne : ys ≠ []) (hvalue : digitsValue xs = digitsValue ys) :
    xs.length ≤ ys.length := by
  have hpositive := List.length_pos_iff.mpr hne
  rcases hunpadded with rfl | hhead
  · exact hpositive
  · cases xs with
    | nil => exact Nat.zero_le _
    | cons first rest =>
        have hlower := le_digitsValue (hxs first List.mem_cons_self) (by simpa using hhead) rest
        rw [hvalue] at hlower
        exact (Nat.pow_lt_pow_iff_right (by decide)).mp (hlower.trans_lt (digitsValue_lt hys))

/-- The number determines a run without zeros in front. -/
theorem eq_of_digitsValue_eq (hunpadded : Unpadded xs) (hunpadded' : Unpadded ys)
    (hxs : ∀ c ∈ xs, c.isDigit = true) (hys : ∀ c ∈ ys, c.isDigit = true) (hne : xs ≠ [])
    (hne' : ys ≠ []) (hvalue : digitsValue xs = digitsValue ys) : xs = ys :=
  Numeral.eq_of_digitsValue_eq hxs hys
    (le_antisymm (hunpadded.length_le hxs hys hne' hvalue)
      (hunpadded'.length_le hys hxs hne hvalue.symm)) hvalue

end Unpadded

/-- The digits of a number other than zero do not begin with a zero. -/
theorem head?_toDigits {n : ℕ} (hn : n ≠ 0) : (Nat.toDigits 10 n).head? ≠ some '0' := by
  induction n using Nat.strongRecOn with
  | ind n ih =>
      rcases Nat.lt_or_ge n 10 with hless | hmore
      · rw [Nat.toDigits_of_lt_base hless]
        have hdigits : ∀ m < 10, m ≠ 0 → [m.digitChar].head? ≠ some '0' := by decide
        exact hdigits n hless hn
      · have hhead := ih (n / 10) (by omega) (by omega)
        rw [Nat.toDigits_of_base_le (by decide) hmore, List.head?_append]
        cases hfront : (Nat.toDigits 10 (n / 10)).head? with
        | none => exact absurd (List.head?_eq_none_iff.mp hfront) Nat.toDigits_ne_nil
        | some first => rwa [hfront] at hhead

end Numeral

end SciCalc
