import SciCalc.Display.Basic
import SciCalc.Precise.Display
import SciCalc.Proofs.Decimal.Printed
import SciCalc.Proofs.Outcome

/-! # Texts of numbers are unbroken

However a number is written, its text has no blank character: it consists of digits and the marks
around them, or is one of a few words. The clean-ups of the display only take characters away.
-/

namespace SciCalc

namespace Text

/-- No character is blank. -/
def IsUnbroken (cs : List Char) : Prop := ∀ c ∈ cs, isBlank c = false

instance (cs : List Char) : Decidable (IsUnbroken cs) := List.decidableBAll _ cs

variable {cs ds : List Char} {c : Char}

@[simp] theorem isUnbroken_nil : IsUnbroken [] := List.forall_mem_nil _

@[simp] theorem isUnbroken_cons : IsUnbroken (c :: cs) ↔ isBlank c = false ∧ IsUnbroken cs :=
  List.forall_mem_cons

@[simp] theorem isUnbroken_append : IsUnbroken (cs ++ ds) ↔ IsUnbroken cs ∧ IsUnbroken ds :=
  List.forall_mem_append

theorem IsUnbroken.of_sublist (hcs : IsUnbroken cs) (hsublist : ds.Sublist cs) : IsUnbroken ds :=
  fun c hmem => hcs c (hsublist.subset hmem)

theorem isUnbroken_of_isDigit (hdigits : ∀ c ∈ cs, c.isDigit = true) : IsUnbroken cs :=
  fun c hmem => isBlank_of_numeric (mem_numericChars_of_isDigit (hdigits c hmem))

@[simp] theorem isUnbroken_toDigits (n : Nat) : IsUnbroken (Nat.toDigits 10 n) :=
  isUnbroken_of_isDigit fun _ => Nat.isDigit_of_mem_toDigits (by decide) (by decide)

@[simp] theorem isUnbroken_zeros (count : Nat) : IsUnbroken (List.replicate count '0') :=
  isUnbroken_of_isDigit fun _ => Decimal.isDigit_of_mem_zeros

theorem dropTrailing_sublist {α : Type} (drops : α → Bool) (xs : List α) :
    (dropTrailing drops xs).Sublist xs := by
  rw [← List.reverse_sublist, dropTrailing, List.reverse_reverse]
  exact List.dropWhile_sublist drops

namespace IsUnbroken

variable (hcs : IsUnbroken cs)

include hcs

theorem take (count : Nat) : IsUnbroken (cs.take count) := hcs.of_sublist (List.take_sublist count cs)

theorem drop (count : Nat) : IsUnbroken (cs.drop count) := hcs.of_sublist (List.drop_sublist count cs)

theorem takeWhile (p : Char → Bool) : IsUnbroken (cs.takeWhile p) :=
  hcs.of_sublist (List.takeWhile_sublist p)

theorem dropWhile (p : Char → Bool) : IsUnbroken (cs.dropWhile p) :=
  hcs.of_sublist (List.dropWhile_sublist p)

theorem dropTrailing (p : Char → Bool) : IsUnbroken (Text.dropTrailing p cs) :=
  hcs.of_sublist (dropTrailing_sublist p cs)

end IsUnbroken

end Text

open Text

/-! ## Decimals and doubles -/

theorem isUnbroken_toString (n : Int) : IsUnbroken (toString n).toList := by
  cases n with
  | ofNat n => simp [Int.toString_eq_repr, Int.repr]
  | negSucc n => simp [Int.toString_eq_repr, Int.repr, isBlank]

namespace Decimal

variable (d : Decimal)

theorem isUnbroken_digitChars : IsUnbroken d.digitChars := isUnbroken_toDigits d.digits

theorem isUnbroken_signChars : IsUnbroken d.signChars := by
  rw [signChars]
  split <;> decide

theorem isUnbroken_plainChars : IsUnbroken d.plainChars := by
  have hdigits := d.isUnbroken_digitChars
  have hsign := d.isUnbroken_signChars
  simp only [plainChars]
  split_ifs <;> simp [hdigits, hsign, hdigits.take, hdigits.drop, isBlank]

theorem isUnbroken_mantissaChars {digits : List Char} (hdigits : IsUnbroken digits) :
    IsUnbroken (mantissaChars digits) := by
  rcases digits with _ | ⟨first, _ | ⟨second, rest⟩⟩ <;> simp_all [mantissaChars, isBlank]

theorem isUnbroken_exponentChars (width : Nat) (exponent : Int) :
    IsUnbroken (exponentChars width exponent) := by
  simp only [exponentChars]
  split_ifs <;> simp [isBlank]

theorem isUnbroken_scientificChars : IsUnbroken d.scientificChars := by
  simp [scientificChars, isUnbroken_signChars, isUnbroken_exponentChars,
    isUnbroken_mantissaChars d.isUnbroken_digitChars]

end Decimal

theorem Double.isUnbroken_toText (x : Double) : IsUnbroken x.toText.toList := by
  cases x with
  | nan => decide
  | inf negative => cases negative <;> decide
  | finite negative mantissa exponent canonical =>
      simp only [toText, pointedChars, String.toList_ofList]
      split_ifs <;> simp [Decimal.isUnbroken_plainChars, Decimal.isUnbroken_scientificChars, isBlank]

/-! ## The display -/

namespace Display

theorem stripMantissaZeros_sublist (cs : List Char) : (stripMantissaZeros cs).Sublist cs := by
  unfold stripMantissaZeros splitExponent
  dsimp only
  split
  · have hsplit := (dropTrailing_sublist (· == '0') (cs.takeWhile (· != 'e'))).append
      (List.Sublist.refl (cs.dropWhile (· != 'e')))
    rwa [List.takeWhile_append_dropWhile] at hsplit
  · exact List.Sublist.refl cs

theorem dropDanglingPoint_sublist (cs : List Char) : (dropDanglingPoint cs).Sublist cs := by
  unfold dropDanglingPoint splitExponent
  dsimp only
  split
  · have hsplit := (List.dropLast_sublist (cs.takeWhile (· != 'e'))).append
      (List.Sublist.refl (cs.dropWhile (· != 'e')))
    rwa [List.takeWhile_append_dropWhile] at hsplit
  · exact List.Sublist.refl cs

theorem dropLeadingZeros_sublist (digits : List Char) :
    (dropLeadingZeros digits).Sublist digits := by
  fun_induction dropLeadingZeros digits with
  | case1 next rest ih => exact ih.trans (List.sublist_cons_self _ _)
  | case2 digits => exact List.Sublist.refl digits

theorem stripExponentPadding_sublist (cs : List Char) : (stripExponentPadding cs).Sublist cs := by
  unfold stripExponentPadding
  split
  next mantissa mark sign digits hsplit =>
    obtain ⟨hmantissa, hexponent⟩ := Prod.mk.inj hsplit
    have hkept := (List.Sublist.refl mantissa).append
      (((dropLeadingZeros_sublist digits).cons_cons sign).cons_cons mark)
    have hwhole : mantissa ++ mark :: sign :: digits = cs := by
      rw [← hexponent, ← hmantissa, List.takeWhile_append_dropWhile]
    exact hwhole ▸ hkept
  next => exact List.Sublist.refl cs

/-- The clean-ups only take characters away. -/
theorem cleanScientific_sublist (cs : List Char) : (cleanScientific cs).Sublist cs :=
  (stripExponentPadding_sublist _).trans
    ((dropDanglingPoint_sublist _).trans (stripMantissaZeros_sublist cs))

theorem isUnbroken_paddedScientific (places : Nat) (x : Double) :
    IsUnbroken (paddedScientific places x) := by
  simp only [paddedScientific]
  split_ifs <;> simp [Decimal.isUnbroken_signChars, Decimal.isUnbroken_exponentChars,
    Decimal.isUnbroken_mantissaChars, Decimal.isUnbroken_scientificChars]

theorem isUnbroken_scientific (x : Double) : IsUnbroken (scientific x).toList := by
  unfold scientific
  split
  · rw [String.toList_ofList]
    exact (isUnbroken_paddedScientific _ x).of_sublist (cleanScientific_sublist _)
  · exact x.isUnbroken_toText

theorem isUnbroken_plainText (number : Number) : IsUnbroken (plainText number).toList := by
  cases number with
  | int n => exact isUnbroken_toString n
  | float x =>
      simp only [plainText]
      split_ifs
      · simp [Decimal.isUnbroken_plainChars]
      · exact x.isUnbroken_toText

theorem isUnbroken_cutFraction {text : String} (htext : IsUnbroken text.toList) :
    IsUnbroken (cutFraction text).toList := by
  have hwhole := htext.takeWhile (· != '.')
  have hfraction : IsUnbroken (text.toList.dropWhile (· != '.')).tail :=
    (htext.dropWhile _).of_sublist (List.tail_sublist _)
  have hkept : ∀ room, IsUnbroken ((dropTrailing (· == '0')
      (text.toList.dropWhile (· != '.')).tail).take room) :=
    fun room => (hfraction.dropTrailing _).take room
  unfold cutFraction
  dsimp only
  split_ifs with hpoint hshort hnone hnone
  · simpa using hwhole
  · simp [hwhole, (hkept _).dropTrailing, isBlank]
  · simpa using hwhole
  · simp [hwhole, hfraction.dropTrailing, isBlank]
  · exact htext

/-- The text of a number on display has no blank character. -/
theorem isUnbroken_format {number : Number} {text : String} (htext : format number = .ok text) :
    IsUnbroken text.toList := by
  unfold format at htext
  split at htext
  next => cases htext
  next x hdouble =>
    split_ifs at htext with hnan hinfinite hnegative hzero hscientific
    · obtain rfl := Except.ok.inj htext
      decide
    · obtain rfl := Except.ok.inj htext
      decide
    · obtain rfl := Except.ok.inj htext
      decide
    · obtain rfl := Except.ok.inj htext
      decide
    · obtain rfl := Except.ok.inj htext
      exact isUnbroken_scientific x
    · obtain ⟨rounded, -, rfl⟩ := map_eq_ok_iff.mp htext
      exact isUnbroken_cutFraction (isUnbroken_plainText rounded)

end Display

/-! ## Precise results -/

namespace BigFloat

theorem isUnbroken_stripFraction {cs : List Char} (hcs : IsUnbroken cs) :
    IsUnbroken (stripFraction cs) := by
  unfold stripFraction
  dsimp only
  split_ifs <;> simp [hcs.dropTrailing, isBlank]

theorem isUnbroken_exponentChars (exponent : Int) : IsUnbroken (exponentChars exponent) := by
  unfold exponentChars
  split_ifs <;> simp [isBlank]

theorem isUnbroken_layout (range : FixedRange) {digits : List Char} (hdigits : IsUnbroken digits)
    (exponent : Int) : IsUnbroken (layout range digits exponent) := by
  have hpointed : ∀ {padded : List Char} (split : Nat), IsUnbroken padded →
      IsUnbroken (stripFraction (padded.take split ++ '.' :: padded.drop split)) := by
    intro padded split hpadded
    refine isUnbroken_stripFraction ?_
    simp [hpadded.take, hpadded.drop, isBlank]
  unfold layout
  dsimp only
  split
  · exact hpointed _ (by simp [hdigits])
  · refine isUnbroken_append.mpr ⟨hpointed 1 hdigits, ?_⟩
    split
    · exact isUnbroken_nil
    · exact isUnbroken_exponentChars exponent

theorem isUnbroken_layoutNoDigits (digits : List Char) (exponent : Int) :
    IsUnbroken (layoutNoDigits digits exponent) :=
  isUnbroken_append.mpr ⟨by decide, isUnbroken_exponentChars _⟩

theorem isUnbroken_significantText (count : Nat) (range : FixedRange) (mantissa exponent : Int) :
    IsUnbroken (significantText count range mantissa exponent).toList := by
  have hrounded : ∀ digits : List Char, IsUnbroken
      ((Nat.toDigits 10 (roundDigits count digits)).take count) :=
    fun digits => (isUnbroken_toDigits _).take count
  unfold significantText
  dsimp only
  rw [String.toList_ofList]
  split_ifs <;> simp [isUnbroken_layoutNoDigits, isUnbroken_layout, hrounded, isBlank]

end BigFloat

/-- The text of a precise result has no blank character. -/
theorem Precise.isUnbroken_format (x : BigFloat) (digits : Nat) :
    IsUnbroken (format x digits).toList := by
  cases x with
  | nan => exact (by decide : IsUnbroken "Error".toList)
  | inf negative =>
      cases negative
      · exact (by decide : IsUnbroken "Infinity".toList)
      · exact (by decide : IsUnbroken "-Infinity".toList)
  | finite mantissa exponent =>
      unfold format
      dsimp only
      split_ifs
      · decide
      · exact isUnbroken_toString _
      all_goals exact BigFloat.isUnbroken_significantText _ _ _ _

end SciCalc
