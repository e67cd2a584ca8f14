import SciCalc.Session.Basic

/-! # Pressing keys in turn

Pressing a key takes a session to the next one whether the key is refused or not. What every key
keeps, a whole sequence of keys keeps, and what every key does then holds all along.
-/

namespace SciCalc.Session

/-- Whether the session answers the key, and neither refuses it nor fails. -/
def accepts (session : Session) (key : Key) : Bool := (session.press key).reply.isOk

/-- The session after the keys have been pressed in turn. -/
def after : Session → List Key → Session
  | session, [] => session
  | session, key :: rest => (session.press key).state.after rest

/-- The outcomes of the keys that are pressed in turn. -/
def outcomes : Session → List Key → List (Outcome Session)
  | _, [] => []
  | session, key :: rest => session.press key :: (session.press key).state.outcomes rest

/-- The keys that are pressed in turn, each with its outcome. -/
def history (session : Session) (keys : List Key) : List (Key × Outcome Session) :=
  keys.zip (session.outcomes keys)

theorem history_cons (session : Session) (key : Key) (rest : List Key) :
    session.history (key :: rest) =
      (key, session.press key) :: (session.press key).state.history rest := rfl

/-- An invariant that every key keeps holds at the end, and what a key does under the invariant is
done at every step. -/
theorem after_of_invariant {Invariant : Session → Prop} {Does : Outcome Session → Prop}
    (hpress : ∀ session key, Invariant session →
      Invariant (session.press key).state ∧ Does (session.press key))
    {session : Session} (hsession : Invariant session) (keys : List Key) :
    Invariant (session.after keys) ∧ ∀ outcome ∈ session.outcomes keys, Does outcome := by
  induction keys generalizing session with
  | nil => exact ⟨hsession, List.forall_mem_nil _⟩
  | cons key rest ih =>
      obtain ⟨hnext, hdoes⟩ := hpress session key hsession
      obtain ⟨hend, hall⟩ := ih hnext
      exact ⟨hend, List.forall_mem_cons.mpr ⟨hdoes, hall⟩⟩

/-- A key that changes nothing changes nothing however often it is pressed. -/
theorem after_replicate_of_fixed {session : Session} {key : Key}
    (hfixed : (session.press key).state = session) (count : Nat) :
    session.after (List.replicate count key) = session ∧
      ∀ outcome ∈ session.outcomes (List.replicate count key), outcome = session.press key := by
  induction count with
  | zero => exact ⟨rfl, List.forall_mem_nil _⟩
  | succ count ih =>
      obtain ⟨hend, hall⟩ := ih
      rw [List.replicate_succ, after, outcomes, hfixed]
      exact ⟨hend, List.forall_mem_cons.mpr ⟨rfl, hall⟩⟩

end SciCalc.Session
