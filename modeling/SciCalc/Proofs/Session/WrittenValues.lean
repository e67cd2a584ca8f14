import SciCalc.Session.State

/-! # Values that have a text

Where a text is needed, a value of another kind is written as one. An integer of too many digits
cannot be written: a call that needs its text fails, and a warning about it is left out. Every other
value has a text.
-/

namespace SciCalc

namespace Datum

/-- The value is no integer of too many digits. -/
def HasText : Datum → Prop
  | number (.int n) => n.natAbs < tenPow Numeral.greatestDigits
  | _ => True

/-- What is written of a value. -/
def written (value : Datum) : String := value.toText.toOption.getD ""

variable {value : Datum}

theorem exists_describe (htext : value.HasText) : ∃ text, value.describe = .ok text := by
  match value with
  | number (.int n) =>
      have hwritable : Numeral.isWritable n = true := Numeral.isWritable_iff.mpr htext
      rw [describe, Number.toText, hwritable]
      exact ⟨toString n, rfl⟩
  | nothing | truth true | truth false | number (.float _) | text _ | emptyList => exact ⟨_, rfl⟩

theorem describe_of_not_hasText (htext : ¬value.HasText) : value.describe = .error .malformed := by
  match value with
  | number (.int n) =>
      have hwritable : ¬Numeral.isWritable n = true := mt Numeral.isWritable_iff.mp htext
      rw [describe, Number.toText, if_neg hwritable]
  | nothing | truth _ | number (.float _) | text _ | emptyList => exact absurd trivial htext

theorem toText_of_hasText (htext : value.HasText) : value.toText = .ok value.written := by
  have hwritten : ∃ text, value.toText = .ok text := by
    cases value with
    | text value => exact ⟨value, rfl⟩
    | nothing | truth _ | number _ | emptyList => exact exists_describe htext
  obtain ⟨text, hwritten⟩ := hwritten
  rw [written, hwritten]
  rfl

theorem toText_of_not_hasText (htext : ¬value.HasText) : value.toText = .error .malformed := by
  cases value with
  | text value => exact absurd trivial htext
  | nothing | truth _ | number _ | emptyList => exact describe_of_not_hasText htext

end Datum

namespace Record

variable {component : Component} {value : Datum} {write : String → Record}
  (hwrite : ∀ text, (write text).source = component.name)

include hwrite

/-- The record about a value bears the name of the part that writes it. -/
theorem source_of_mem_about {record : Record} (hrecord : record ∈ about value write) :
    record.source = component.name := by
  obtain ⟨text, -, rfl⟩ := List.mem_map.mp hrecord
  exact hwrite text

theorem exists_mem_about (htext : value.HasText) :
    ∃ record ∈ about value write, record.source = component.name := by
  obtain ⟨text, hdescribe⟩ := Datum.exists_describe htext
  rw [about, hdescribe]
  exact ⟨_, List.mem_singleton_self _, hwrite text⟩

end Record

namespace State

variable (state : State) {value : Datum} (write : String → State)

theorem writeText_of_hasText (htext : value.HasText) :
    state.writeText value write = .silent (write value.written) := by
  rw [writeText, Datum.toText_of_hasText htext]

theorem writeText_of_not_hasText (htext : ¬value.HasText) :
    state.writeText value write = .failed .malformed state := by
  rw [writeText, Datum.toText_of_not_hasText htext]

end State

end SciCalc
