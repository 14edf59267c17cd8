import Glopen.Lib.Splitting

/-! The passes of a loop, and where in its input the machine was in a state of a given kind. -/
namespace Glopen.Feeding

open List
variable {σ β ε : Type}

/-- How much input was left at each pass of a call that began in a `head` state. -/
def Machine.heads [DecidableEq β] (m : Machine σ β ε) (head : σ → Bool) : Nat → σ → List β → List Nat
  | 0, _, _ => []
  | passes + 1, s, data =>
    if m.Returns s data then []
    else
      let (s', _, left) := m.step s data
      (if head s then [data.length] else []) ++ heads m head passes s' left

/-- Passes of a loop, with their events and their heads. -/
inductive Passes (m : Machine σ β ε) (head : σ → Bool) :
    σ → List β → σ → List ε → List Nat → List β → Prop
  | refl {s : σ} {data : List β} : Passes m head s data s [] [] data
  | pass {s s' s'' : σ} {data left rest : List β} {new later : List ε} {heads : List Nat} :
    ¬ m.Returns s data → m.step s data = (s', new, left) →
    Passes m head s' left s'' later heads rest →
    Passes m head s data s'' (new ++ later) ((if head s then [data.length] else []) ++ heads) rest

variable {m : Machine σ β ε} {head : σ → Bool} {s s' s'' : σ} {data left rest : List β}
  {events later : List ε} {heads heads' : List Nat}

/-- One pass whose state is not a head. -/
theorem Passes.one (plain : head s = false) (working : ¬ m.Returns s data)
    (step : m.step s data = (s', events, left)) : Passes m head s data s' events [] left := by
  have passes : Passes m head s data s' (events ++ []) _ left := .pass working step .refl
  rw [plain, append_nil] at passes
  exact passes

theorem Passes.trans (first : Passes m head s data s' events heads left)
    (second : Passes m head s' left s'' later heads' rest) :
    Passes m head s data s'' (events ++ later) (heads ++ heads') rest := by
  induction first with
  | refl => exact second
  | pass working step _ ih =>
    rw [append_assoc, append_assoc]
    exact .pass working step (ih second)

theorem Passes.run (passes : Passes m head s data s' events heads left) (pieces : List (List β)) (log : List ε) :
    Run m (fun _ _ => True) ⟨s, data, pieces, log⟩ ⟨s', left, pieces, log ++ events⟩ := by
  induction passes generalizing log with
  | refl =>
    rw [append_nil]
  | pass working step _ ih =>
    rw [← append_assoc]
    exact .head (.pass working trivial step) (ih _)

theorem Passes.allGood {Good : σ → List β → Prop} {pieces : List (List β)} {log : List ε}
    (passes : Passes m head s data s' events heads left) (good : AllGood m Good ⟨s, data, pieces, log⟩) :
    AllGood m Good ⟨s', left, pieces, log ++ events⟩ :=
  fun session later => good session ((passes.run pieces log).trans later)

/-- A loop has only one way to go on. -/
theorem Passes.goOn (first : Passes m head s data s' events heads left)
    (whole : Passes m head s data s'' later heads' rest) (returns : m.Returns s'' rest) :
    ∃ more heads'', Passes m head s' left s'' more heads'' rest ∧ later = events ++ more ∧
      heads' = heads ++ heads'' := by
  induction first generalizing later heads' with
  | refl => exact ⟨later, heads', whole, rfl, rfl⟩
  | pass working step _ ih =>
    cases whole with
    | refl => exact absurd returns working
    | pass _ step' others =>
      cases step.symm.trans step'
      obtain ⟨more, heads'', passes, same, same'⟩ := ih others
      exact ⟨more, heads'', passes, by rw [same, append_assoc], by rw [same', append_assoc]⟩

/-- A pass that changes nothing is made forever. -/
theorem Passes.stuck (working : ¬ m.Returns s data) (step : m.step s data = (s, [], data))
    (passes : Passes m head s data s' events heads left) : ¬ m.Returns s' left := by
  induction passes with
  | refl => exact working
  | pass _ step' _ ih =>
    cases step.symm.trans step'
    exact ih working step

section Calls

variable [DecidableEq β]

theorem Passes.call (passes : Passes m head s data s' events heads left) (returns : m.Returns s' left) :
    ∃ count, m.call count s data = some (s', events, left) ∧ m.heads head count s data = heads := by
  induction passes with
  | refl => exact ⟨0, if_pos returns, rfl⟩
  | pass working step _ ih =>
    obtain ⟨count, called, found⟩ := ih returns
    refine ⟨count + 1, ?_, ?_⟩
    · rw [Machine.call, if_neg working, step]
      simp only [called, Option.map_some]
    · rw [Machine.heads, if_neg working, step, ← found]

theorem call_passes {count : Nat} (called : m.call count s data = some (s', events, left)) :
    Passes m head s data s' events (m.heads head count s data) left ∧ m.Returns s' left := by
  induction count generalizing s data events with
  | zero =>
    rw [Machine.call] at called
    split at called
    · rename_i returns
      cases called
      exact ⟨.refl, returns⟩
    · cases called
  | succ count ih =>
    rw [Machine.call] at called
    rw [Machine.heads]
    split at called
    · rename_i returns
      cases called
      rw [if_pos returns]
      exact ⟨.refl, returns⟩
    · rename_i working
      rw [if_neg working]
      obtain ⟨s1, new, left1, step⟩ : ∃ s1 new left1, m.step s data = (s1, new, left1) :=
        ⟨_, _, _, rfl⟩
      rw [step] at called ⊢
      obtain ⟨⟨s2, later, left2⟩, called', same⟩ := Option.map_eq_some_iff.mp called
      cases same
      obtain ⟨passes, returns⟩ := ih called'
      exact ⟨.pass working step passes, returns⟩

end Calls

end Glopen.Feeding
