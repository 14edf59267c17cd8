import Mathlib.Algebra.Group.Nat.Defs
import Mathlib.Data.List.Basic
import Mathlib.Logic.Relation

/-! Induction rules for loops that run a fallible step over a list, where the invariant may speak
about the part of the list that has already been processed, and rules for loops that may not end. -/
namespace Glopen.Run

open List
variable {S A : Type} {s s' : S} {E T : Type} {x : Except E S} {f : S → Except E T}

theorem foldlM_option_invariant {step : S → A → Option S} (Inv : List A → S → Prop)
    (preserves : ∀ done s a s', Inv done s → step s a = some s' → Inv (done ++ [a]) s')
    (rest done : List A) (holds : Inv done s) (ran : rest.foldlM step s = some s') : Inv (done ++ rest) s' := by
  induction rest generalizing done s with
  | nil =>
    cases ran
    rwa [append_nil]
  | cons a rest ih =>
    simp only [foldlM_cons, Option.bind_eq_bind, Option.bind_eq_some_iff] at ran
    obtain ⟨next, first, tail⟩ := ran
    have := ih (done ++ [a]) (preserves done s a next holds first) tail
    rwa [append_assoc, singleton_append] at this

theorem except_bind_ok {r : T} (ran : x >>= f = .ok r) : ∃ a, x = .ok a ∧ f a = .ok r := by
  cases x with
  | error e => cases ran
  | ok a => exact ⟨a, rfl, ran⟩

theorem except_bind_error {e : E}
    (ran : x >>= f = .error e) : x = .error e ∨ ∃ a, x = .ok a ∧ f a = .error e := by
  cases x with
  | error other =>
    cases ran
    exact .inl rfl
  | ok a => exact .inr ⟨a, rfl, ran⟩

theorem foldlM_except_invariant {step : S → A → Except E S} (Inv : List A → S → Prop)
    (preserves : ∀ done s a s', Inv done s → step s a = .ok s' → Inv (done ++ [a]) s')
    (rest done : List A) (holds : Inv done s) (ran : rest.foldlM step s = .ok s') : Inv (done ++ rest) s' := by
  induction rest generalizing done s with
  | nil =>
    cases ran
    rwa [append_nil]
  | cons a rest ih =>
    rw [foldlM_cons] at ran
    obtain ⟨next, first, tail⟩ := except_bind_ok ran
    have := ih (done ++ [a]) (preserves done s a next holds first) tail
    rwa [append_assoc, singleton_append] at this

section Loop

variable {R : Type} (step : S → S ⊕ R)

/-- A loop of which a pass goes on with a state or ends with a result, in `fuel` passes at most. -/
def loop : Nat → S → Option R
  | 0, _ => none
  | fuel + 1, s =>
    match step s with
    | .inl s => loop fuel s
    | .inr r => some r

def Ends (s : S) (r : R) : Prop := ∃ fuel, loop step fuel s = some r

variable {step}

theorem ends_done {r : R} (done : step s = .inr r) : Ends step s r :=
  ⟨1, by rw [loop, done]⟩

theorem ends_step (pass : step s = .inl s') (r : R) : Ends step s r ↔ Ends step s' r := by
  constructor
  · rintro ⟨fuel, ran⟩
    cases fuel with
    | zero => cases ran
    | succ fuel =>
      rw [loop, pass] at ran
      exact ⟨fuel, ran⟩
  · rintro ⟨fuel, ran⟩
    exact ⟨fuel + 1, by rw [loop, pass]; exact ran⟩

/-- `s` comes to `s'` in some number of passes. -/
abbrev Passes (step : S → S ⊕ R) : S → S → Prop :=
  Relation.ReflTransGen fun s s' => step s = .inl s'

theorem Passes.ends (passes : Passes step s s') (r : R) : Ends step s r ↔ Ends step s' r := by
  induction passes with
  | refl => exact Iff.rfl
  | tail _ pass ih => exact ih.trans (ends_step pass r)

theorem loop_mono {fuel : Nat} {r : R} (ran : loop step fuel s = some r) {more : Nat}
    (enough : fuel ≤ more) : loop step more s = some r := by
  induction fuel generalizing s more with
  | zero => cases ran
  | succ fuel ih =>
    cases more with
    | zero => exact absurd enough (Nat.not_succ_le_zero fuel)
    | succ more =>
      rw [loop] at ran ⊢
      cases pass : step s with
      | inl next =>
        rw [pass] at ran
        exact ih ran (Nat.le_of_succ_le_succ enough)
      | inr result =>
        rw [pass] at ran
        exact ran

/-- A computation that has the result whenever it gets enough fuel. -/
def Settles (f : Nat → Option R) (r : R) : Prop := ∃ enough, ∀ fuel, enough ≤ fuel → f fuel = some r

theorem Ends.settles {r : R} (ends : Ends step s r) : Settles (fun fuel => loop step fuel s) r := by
  obtain ⟨enough, ran⟩ := ends
  exact ⟨enough, fun _ more => loop_mono ran more⟩

theorem settles_pure (r : R) : Settles (fun _ => some r) r := ⟨0, fun _ _ => rfl⟩

variable {t : T}

theorem Settles.bind {f : Nat → Option S} {g : Nat → S → Option T}
    (first : Settles f s) (second : Settles (fun fuel => g fuel s) t) :
    Settles (fun fuel => (f fuel).bind (g fuel)) t := by
  obtain ⟨enough, ran⟩ := first
  obtain ⟨enough', ran'⟩ := second
  refine ⟨max enough enough', fun fuel more => ?_⟩
  have here : (f fuel).bind (g fuel) = g fuel s := by
    rw [ran fuel (Nat.le_trans (Nat.le_max_left _ _) more)]
    rfl
  exact here.trans (ran' fuel (Nat.le_trans (Nat.le_max_right _ _) more))

theorem Settles.map {f : Nat → Option S} (first : Settles f s) {g : S → T}
    (result : g s = t) : Settles (fun fuel => (f fuel).map g) t := by
  obtain ⟨enough, ran⟩ := first
  refine ⟨enough, fun fuel more => ?_⟩
  simp only [ran fuel more, Option.map_some, result]

/-- A loop that cannot leave a set of states which all go on does not end. -/
theorem never_ends {P : S → Prop} (closed : ∀ s, P s → ∃ s', step s = .inl s' ∧ P s')
    (inside : P s) (r : R) : ¬ Ends step s r := by
  rintro ⟨fuel, ran⟩
  induction fuel generalizing s with
  | zero => cases ran
  | succ fuel ih =>
    obtain ⟨next, pass, still⟩ := closed s inside
    rw [loop, pass] at ran
    exact ih still ran

end Loop

end Glopen.Run
