import Mathlib.Logic.Function.Iterate
import Mathlib.Logic.Relation

/-! Machines that are fed input in pieces: a call runs a loop until the input is used up or the
machine stops, and what a call leaves is put in front of the next piece. -/
namespace Glopen.Feeding

/-- Where a machine stops, and one pass of its loop over nonempty input: the next state, the
events, and the input that is left. -/
structure Machine (σ β ε : Type) where
  stops : σ → Bool
  step : σ → List β → σ × List ε × List β

variable {σ β ε : Type}

namespace Machine

/-- The loop is left. -/
def Returns (m : Machine σ β ε) (s : σ) (data : List β) : Prop := data = [] ∨ m.stops s = true

instance (m : Machine σ β ε) [DecidableEq β] (s : σ) (data : List β) :
    Decidable (m.Returns s data) := inferInstanceAs (Decidable (_ ∨ _))

/-- A call, with a bound on the number of passes. -/
def call [DecidableEq β] (m : Machine σ β ε) : Nat → σ → List β → Option (σ × List ε × List β)
  | 0, s, data => if m.Returns s data then some (s, [], data) else none
  | passes + 1, s, data =>
    if m.Returns s data then some (s, [], data)
    else
      let (s, events, data) := m.step s data
      (call m passes s data).map fun (s, later, data) => (s, events ++ later, data)

/-- Calls with one piece of input each. -/
def feed [DecidableEq β] (m : Machine σ β ε) (passes : Nat) :
    σ → List β → List (List β) → Option (σ × List ε × List β)
  | s, data, [] => some (s, [], data)
  | s, data, piece :: pieces => do
    let (s, events, data) ← m.call passes s (data ++ piece)
    let (s, later, data) ← feed m passes s data pieces
    some (s, events ++ later, data)

end Machine

/-- A machine at work: the input of the running call, and the pieces to come. -/
structure Session (σ β ε : Type) where
  state : σ
  data : List β
  pieces : List (List β)
  events : List ε

/-- One pass of the loop, or the next call. -/
inductive Next (m : Machine σ β ε) (Good : σ → List β → Prop) : Session σ β ε → Session σ β ε → Prop
  | pass {s s' : σ} {data left : List β} {pieces : List (List β)} {events new : List ε} :
    ¬ m.Returns s data → Good s data → m.step s data = (s', new, left) →
    Next m Good ⟨s, data, pieces, events⟩ ⟨s', left, pieces, events ++ new⟩
  | call {s : σ} {data piece : List β} {pieces : List (List β)} {events : List ε} : m.Returns s data →
    Next m Good ⟨s, data, piece :: pieces, events⟩ ⟨s, data ++ piece, pieces, events⟩

/-- A run whose passes are all good. -/
abbrev Run (m : Machine σ β ε) (Good : σ → List β → Prop) :=
  Relation.ReflTransGen (Next m Good)

variable {m : Machine σ β ε} {Good : σ → List β → Prop}

/-- The invariant rule: what each good pass preserves holds after every good run. -/
theorem run_invariant {Inv : σ → List ε → Prop}
    (pass : ∀ {s s' data left events new}, Inv s events → ¬ m.Returns s data → Good s data →
      m.step s data = (s', new, left) → Inv s' (events ++ new))
    {start finish : Session σ β ε} (run : Run m Good start finish)
    (initial : Inv start.state start.events) : Inv finish.state finish.events := by
  induction run with
  | refl => exact initial
  | tail _ last ih =>
    cases last with
    | pass working good step => exact pass ih working good step
    | call _ => exact ih

/-- A machine that stops does nothing any more, whatever it is fed. -/
theorem run_stopped {start finish : Session σ β ε} (run : Run m Good start finish)
    (stopped : m.stops start.state = true) : finish.state = start.state ∧ finish.events = start.events ∧
      ∃ arrived, finish.data = start.data ++ arrived := by
  induction run with
  | refl => exact ⟨rfl, rfl, [], (List.append_nil _).symm⟩
  | tail _ last ih =>
    obtain ⟨state, events, arrived, data⟩ := ih
    cases last with
    | @pass s _ _ _ _ _ _ working good step =>
      have same : s = start.state := state
      rw [← same] at stopped
      exact absurd (Or.inr stopped) working
    | @call s left piece pieces log _ =>
      refine ⟨state, events, arrived ++ piece, ?_⟩
      rw [← List.append_assoc, ← data]

/-- What happens next in a session, if anything does. -/
def Machine.advance [DecidableEq β] (m : Machine σ β ε) (session : Session σ β ε) : Session σ β ε :=
  if m.Returns session.state session.data then
    match session.pieces with
    | [] => session
    | piece :: pieces => { session with data := session.data ++ piece, pieces := pieces }
  else
    let (state, new, data) := m.step session.state session.data
    ⟨state, data, session.pieces, session.events ++ new⟩

theorem advance_run [DecidableEq β] {session : Session σ β ε}
    (good : Good session.state session.data) : Run m Good session (m.advance session) := by
  obtain ⟨state, data, pieces, events⟩ := session
  unfold Machine.advance
  by_cases returns : m.Returns state data
  · rw [if_pos returns]
    cases pieces with
    | nil => exact .refl
    | cons piece pieces => exact .single (.call returns)
  · rw [if_neg returns]
    exact .single (.pass returns good rfl)

theorem iterate_run [DecidableEq β] {session : Session σ β ε} {count : Nat}
    (good : ∀ i < count, Good (m.advance^[i] session).state (m.advance^[i] session).data) :
    Run m Good session (m.advance^[count] session) := by
  induction count with
  | zero => exact .refl
  | succ count ih =>
    rw [Function.iterate_succ_apply']
    have earlier := ih fun i below => good i (Nat.lt_succ_of_lt below)
    exact earlier.trans (advance_run (good count (Nat.lt_succ_self count)))

end Glopen.Feeding
