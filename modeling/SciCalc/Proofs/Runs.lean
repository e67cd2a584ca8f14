/-! # Runs at the start of a list

The longest run of elements that satisfy a predicate ends at the first element that does not,
whatever stands behind it.
-/

namespace SciCalc

variable {α : Type} {p : α → Bool} {stop : α}

theorem takeWhile_append_cons (hstop : p stop = false) (first second : List α) :
    (first ++ stop :: second).takeWhile p = first.takeWhile p := by
  induction first with
  | nil => simp [hstop]
  | cons head tail ih => cases hhead : p head <;> simp [hhead, ih]

theorem dropWhile_append_cons (hstop : p stop = false) (first second : List α) :
    (first ++ stop :: second).dropWhile p = first.dropWhile p ++ stop :: second := by
  induction first with
  | nil => simp [hstop]
  | cons head tail ih => cases hhead : p head <;> simp [hhead, ih]

/-- What stands behind an element that ends the run does not matter. -/
theorem takeWhile_append_of_mem (hstop : p stop = false) {xs : List α} (hmem : stop ∈ xs)
    (ys : List α) : (xs ++ ys).takeWhile p = xs.takeWhile p := by
  obtain ⟨first, second, rfl⟩ := List.append_of_mem hmem
  rw [List.append_assoc, List.cons_append, takeWhile_append_cons hstop,
    takeWhile_append_cons hstop]

section Head

variable {xs : List α} (hhead : ∀ x ∈ xs.head?, p x = false)

include hhead

theorem takeWhile_of_head : xs.takeWhile p = [] := by
  cases xs with
  | nil => rfl
  | cons head tail => simp [hhead head rfl]

theorem dropWhile_of_head : xs.dropWhile p = xs := by
  cases xs with
  | nil => rfl
  | cons head tail => simp [hhead head rfl]

end Head

end SciCalc
