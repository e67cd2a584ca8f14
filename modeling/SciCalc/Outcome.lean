import SciCalc.Datum
import SciCalc.Failure
import SciCalc.Journal.Record

/-! # Outcomes of actions

Everything that can be done to a part of the calculator has an outcome: an answer or a failure,
the part as it is afterwards, and the records that were written on the way.
-/

namespace SciCalc

/-- What an action answers, what it leaves behind, and what it reports. -/
structure Outcome (σ : Type) where
  reply : Except Fault Datum
  state : σ
  records : List Record

def Outcome.silent {σ : Type} (state : σ) : Outcome σ := ⟨.ok .nothing, state, []⟩

def Outcome.answer {σ : Type} (reply : Datum) (state : σ) : Outcome σ := ⟨.ok reply, state, []⟩

/-- An action that fails and leaves the given state behind. -/
def Outcome.failed {σ : Type} (fault : Fault) (state : σ) : Outcome σ := ⟨.error fault, state, []⟩

/-- The record about a value, made from its text. None is written about a value that has no text. -/
def Record.about (value : Datum) (record : String → Record) : List Record :=
  value.describe.toOption.toList.map record

end SciCalc
