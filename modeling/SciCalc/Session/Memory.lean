import SciCalc.Session.State
import SciCalc.Double.Arithmetic

/-! # The memory register

The register holds one finite double, zero at the start. It takes numbers that are finite as
doubles; anything else is refused, and so is a sum beyond the range.
-/

namespace SciCalc

structure Memory where
  value : Double
  deriving DecidableEq

namespace Memory

def empty : Memory := ⟨Double.zero false⟩

def store (memory : Memory) (value : Datum) : Outcome Memory :=
  match State.resultOf? value with
  | some x => .silent ⟨x⟩
  | none => .failed (.calculation (.ofKind .invalidValue)) memory

def add (memory : Memory) (value : Datum) : Outcome Memory :=
  match State.resultOf? value with
  | none => .failed (.calculation (.ofKind .invalidValue)) memory
  | some x =>
    let total := memory.value.add x
    if total.isFinite then .silent ⟨total⟩
    else ⟨.error (.calculation (.ofKind .overflow)), memory,
      Record.about value fun text =>
        .warning .memory ("Desbordamiento al sumar " ++ text ++ " a la memoria")⟩

/-- Whether the register holds anything but zero. -/
def hasValue (memory : Memory) : Bool := !memory.value.isZero

inductive Command where
  | store (value : Datum)
  | add (value : Datum)
  | clear
  | recall
  | hasValue

def apply (memory : Memory) : Command → Outcome Memory
  | .store value => memory.store value
  | .add value => memory.add value
  | .clear => .silent empty
  | .recall => .answer (.float memory.value) memory
  | .hasValue => .answer (.truth memory.hasValue) memory

end Memory

end SciCalc
