import Mathlib.Data.List.Basic
import Mathlib.Data.List.Induction

/-! Doubly linked lists with links given by functions. The ends are linked to themselves. -/
namespace Glopen.Linked

open List
variable {K : Type}

structure Links (K : Type) where
  prev : K → K
  next : K → K

/-- Each element is linked to the one before it and the one behind it. -/
def Chain (links : Links K) (as : List K) : Prop :=
  ∀ xs b ys, as = xs ++ b :: ys → links.prev b = xs.getLastD b ∧ links.next b = ys.headD b

theorem Chain.nil (links : Links K) : Chain links [] :=
  fun xs b ys split => absurd split.symm (by simp)

theorem Chain.congr {links links' : Links K} {as : List K} (chain : Chain links as)
    (same : ∀ b ∈ as, links'.prev b = links.prev b ∧ links'.next b = links.next b) : Chain links' as := by
  intro xs b ys split
  have inside : b ∈ as := by simp [split]
  rw [(same b inside).1, (same b inside).2]
  exact chain xs b ys split

theorem Chain.head {links : Links K} {a : K} {as : List K} (chain : Chain links (a :: as)) :
    links.prev a = a ∧ links.next a = as.headD a := chain [] a as rfl

theorem getLastD_mem {as : List K} (nonempty : as ≠ []) (d : K) : as.getLastD d ∈ as := by
  rw [List.getLastD_eq_getLast?, List.getLast?_eq_some_getLast nonempty]
  exact getLast_mem nonempty

theorem headD_mem {as : List K} (nonempty : as ≠ []) (d : K) : as.headD d ∈ as := by
  cases as with
  | nil => exact absurd rfl nonempty
  | cons a as => exact mem_cons_self ..

theorem getLastD_append_cons (as : List K) (b : K) (bs : List K) (d : K) :
    (as ++ b :: bs).getLastD d = bs.getLastD b := by
  induction as generalizing d with
  | nil => rw [nil_append, getLastD_cons]
  | cons a as ih => rw [cons_append, getLastD_cons, ih]

theorem getLastD_append_of (as : List K) {bs : List K} (nonempty : bs ≠ []) (d d' : K) :
    (as ++ bs).getLastD d = bs.getLastD d' := by
  cases bs with
  | nil => exact absurd rfl nonempty
  | cons b bs => rw [getLastD_append_cons, getLastD_cons]

/-- The links behind an element give what follows it. -/
theorem Chain.rest {links : Links K} {b : K} {ys : List K} : ∀ {xs xs' ys' : List K},
    Chain links (xs ++ b :: ys) → Chain links (xs' ++ b :: ys') → (b :: ys).Nodup →
      (b :: ys').Nodup → ys = ys' := by
  induction ys generalizing b with
  | nil =>
    intro xs xs' ys' chain chain' _ nodup'
    cases ys' with
    | nil => rfl
    | cons y' ys' =>
      have ends : links.next b = b := (chain xs b [] rfl).2
      have goes : links.next b = y' := (chain' xs' b (y' :: ys') rfl).2
      exact absurd (mem_cons.mpr (Or.inl (ends.symm.trans goes))) (nodup_cons.mp nodup').1
  | cons y ys ih =>
    intro xs xs' ys' chain chain' nodup nodup'
    have goes : links.next b = y := (chain xs b (y :: ys) rfl).2
    cases ys' with
    | nil =>
      have ends : links.next b = b := (chain' xs' b [] rfl).2
      exact absurd (mem_cons.mpr (Or.inl (ends.symm.trans goes))) (nodup_cons.mp nodup).1
    | cons y' ys' =>
      have goes' : links.next b = y' := (chain' xs' b (y' :: ys') rfl).2
      obtain rfl : y = y' := goes.symm.trans goes'
      have again : Chain links ((xs ++ [b]) ++ y :: ys) := by simpa using chain
      have again' : Chain links ((xs' ++ [b]) ++ y :: ys') := by simpa using chain'
      rw [ih again again' (nodup_cons.mp nodup).2 (nodup_cons.mp nodup').2]

/-- A head leads to one list only. -/
theorem Chain.unique {links : Links K} {a : K} {as as' : List K} (chain : Chain links (a :: as))
    (chain' : Chain links (a :: as')) (nodup : (a :: as).Nodup) (nodup' : (a :: as').Nodup) : as = as' :=
  @Chain.rest K links a as [] [] as' chain chain' nodup nodup'

section Nodup

variable {links : Links K} {as : List K} (chain : Chain links as) (nodup : as.Nodup)
include chain nodup

/-- Only the head is linked back to itself. -/
theorem Chain.prev_self {b : K} (inside : b ∈ as) (self : links.prev b = b) (d : K) : as.headD d = b := by
  obtain ⟨xs, ys, split⟩ := append_of_mem inside
  rw [(chain xs b ys split).1] at self
  cases xs with
  | nil => rw [split, nil_append, headD_cons]
  | cons x xs =>
    rw [split, nodup_append] at nodup
    have before := getLastD_mem (cons_ne_nil x xs) b
    rw [self] at before
    exact absurd rfl (nodup.2.2 b before b (mem_cons_self ..))

theorem Chain.next_self {b : K} (inside : b ∈ as) (self : links.next b = b) (d : K) : as.getLastD d = b := by
  obtain ⟨xs, ys, split⟩ := append_of_mem inside
  rw [(chain xs b ys split).2] at self
  cases ys with
  | nil => rw [split, getLastD_concat]
  | cons y ys =>
    rw [split, nodup_append, nodup_cons] at nodup
    have behind := headD_mem (cons_ne_nil y ys) b
    rw [self] at behind
    exact absurd behind nodup.2.1.1

end Nodup

/-- A new element in front. -/
theorem Chain.cons [DecidableEq K] {links links' : Links K} {a : K} {as : List K} (chain : Chain links as)
    (itself : links'.prev a = a ∧ links'.next a = as.headD a)
    (prev : ∀ b ∈ as, links'.prev b = if as.head? = some b then a else links.prev b)
    (next : ∀ b ∈ as, links'.next b = links.next b) (nodup : as.Nodup) : Chain links' (a :: as) := by
  intro xs b ys split
  cases xs with
  | nil =>
    rw [nil_append, List.cons.injEq] at split
    rw [← split.1, ← split.2]
    exact itself
  | cons x xs =>
    rw [cons_append, List.cons.injEq] at split
    have inside : b ∈ as := by simp [split.2]
    have old := chain xs b ys split.2
    rw [prev b inside, next b inside, old.1, old.2, getLastD_cons, ← split.1]
    cases xs with
    | nil =>
      rw [nil_append] at split
      rw [split.2, List.head?_cons, if_pos rfl]
      exact ⟨rfl, rfl⟩
    | cons x' xs =>
      have other : as.head? ≠ some b := by
        rw [split.2, cons_append, List.head?_cons, ne_eq, Option.some.injEq]
        rintro rfl
        rw [split.2, cons_append, nodup_cons] at nodup
        exact nodup.1 (by simp)
      rw [if_neg other, getLastD_cons, getLastD_cons]
      exact ⟨rfl, rfl⟩

section Without

variable [DecidableEq K] {links links' : Links K} {r : K} {xs ys : List K}

/-- The links without one element: its neighbours are linked to each other, or to themselves. -/
structure Bridged (links links' : Links K) (r : K) : Prop where
  prev : ∀ b, b ≠ r → links'.prev b =
    if b = links.next r then if links.prev r = r then b else links.prev r else links.prev b
  next : ∀ b, b ≠ r → links'.next b =
    if b = links.prev r then if links.next r = r then b else links.next r else links.next b

theorem Chain.without (chain : Chain links (xs ++ r :: ys)) (nodup : (xs ++ r :: ys).Nodup)
    (bridged : Bridged links links' r) : Chain links' (xs ++ ys) := by
  obtain ⟨prev_r, next_r⟩ := chain xs r ys rfl
  rw [nodup_append, nodup_cons] at nodup
  obtain ⟨nodup_xs, ⟨r_ys, nodup_ys⟩, apart⟩ := nodup
  have r_xs : r ∉ xs := fun inside => apart r inside r (mem_cons_self ..) rfl
  have last : xs = [] ∧ links.prev r = r ∨ xs ≠ [] ∧ links.prev r ≠ r ∧ links.prev r ∈ xs ∧
      ∀ d, xs.getLastD d = links.prev r := by
    cases xs with
    | nil => exact Or.inl ⟨rfl, prev_r⟩
    | cons x xs =>
      have inside := getLastD_mem (cons_ne_nil x xs) r
      rw [← prev_r] at inside
      refine Or.inr ⟨cons_ne_nil x xs, fun same => r_xs (same ▸ inside), inside, fun d => ?_⟩
      rw [prev_r, getLastD_cons, getLastD_cons]
  have first : ys = [] ∧ links.next r = r ∨ ys ≠ [] ∧ links.next r ≠ r ∧ links.next r ∈ ys ∧
      ∀ d, ys.headD d = links.next r := by
    cases ys with
    | nil => exact Or.inl ⟨rfl, next_r⟩
    | cons y ys =>
      rw [headD_cons] at next_r
      refine Or.inr ⟨cons_ne_nil y ys, fun same => r_ys ?_, ?_, fun d => next_r.symm⟩
      · rw [← same, next_r]
        exact mem_cons_self ..
      · rw [next_r]
        exact mem_cons_self ..
  -- an element behind the one that is gone
  have behind : ∀ ws b vs, ys = ws ++ b :: vs →
      links'.prev b = (xs ++ ws).getLastD b ∧ links'.next b = vs.headD b := by
    intro ws b vs ys_is
    have inside : b ∈ ys := by simp [ys_is]
    have not_r : b ≠ r := fun same => r_ys (same ▸ inside)
    obtain ⟨old_prev, old_next⟩ := chain (xs ++ r :: ws) b vs (by simp [ys_is])
    rw [bridged.prev b not_r, bridged.next b not_r, old_next]
    have not_prev : b ≠ links.prev r := by
      rcases last with ⟨-, self⟩ | ⟨-, -, before, -⟩
      · rw [self]
        exact not_r
      · exact fun same => apart b (same ▸ before) b (mem_cons_of_mem r inside) rfl
    rw [if_neg not_prev]
    refine ⟨?_, rfl⟩
    cases ws with
    | nil =>
      rw [nil_append] at ys_is
      rw [if_pos (by rw [next_r, ys_is, headD_cons]), append_nil]
      rcases last with ⟨none_before, self⟩ | ⟨-, other, -, its⟩
      · rw [if_pos self, none_before, getLastD_nil]
      · rw [if_neg other, its]
    | cons w ws =>
      have not_next : b ≠ links.next r := by
        rw [next_r, ys_is, cons_append, headD_cons]
        rintro rfl
        rw [ys_is, cons_append, nodup_cons] at nodup_ys
        exact nodup_ys.1 (by simp)
      rw [if_neg not_next, old_prev, getLastD_append_cons, getLastD_append_of xs (cons_ne_nil w ws) b r]
  intro us b vs split
  rcases append_eq_append_iff.mp split with ⟨ws, us_is, ys_is⟩ | ⟨ws, xs_is, vs_is⟩
  · rw [us_is]
    exact behind ws b vs ys_is
  · cases ws with
    | nil =>
      rw [append_nil] at xs_is
      have its := behind [] b vs vs_is.symm
      rw [append_nil, xs_is] at its
      exact its
    | cons w ws =>
      rw [cons_append, List.cons.injEq] at vs_is
      obtain ⟨rfl, rfl⟩ := vs_is
      have inside : b ∈ xs := by simp [xs_is]
      have not_r : b ≠ r := fun same => r_xs (same ▸ inside)
      obtain ⟨old_prev, old_next⟩ := chain us b (ws ++ r :: ys) (by simp [xs_is])
      have not_next : b ≠ links.next r := by
        rcases first with ⟨-, self⟩ | ⟨-, -, after, -⟩
        · rw [self]
          exact not_r
        · exact fun same => apart b inside b (mem_cons_of_mem r (same ▸ after)) rfl
      rw [bridged.prev b not_r, bridged.next b not_r, if_neg not_next, old_prev]
      refine ⟨rfl, ?_⟩
      cases ws with
      | nil =>
        rw [if_pos (by rw [prev_r, xs_is, getLastD_concat]), nil_append]
        rcases first with ⟨none_after, self⟩ | ⟨-, other, -, its⟩
        · rw [if_pos self, none_after, headD_nil]
        · rw [if_neg other, its]
      | cons w ws =>
        have not_prev : b ≠ links.prev r := by
          have its : links.prev r = (w :: ws).getLastD b := by
            rw [prev_r, xs_is, getLastD_append_cons]
          rw [its]
          intro same
          rw [xs_is, nodup_append, nodup_cons] at nodup_xs
          have member := getLastD_mem (cons_ne_nil w ws) b
          rw [← same] at member
          exact nodup_xs.2.1.1 member
        rw [if_neg not_prev, old_next, cons_append, cons_append, headD_cons, headD_cons]

end Without

section Walk

variable {links : Links K}

/-- What a walk along `next` has visited, the latest element first, when each element is linked
back to the one it was reached from. -/
inductive Walked (links : Links K) (head : K) : List K → Prop where
  | start : links.prev head = head → Walked links head [head]
  | step {a : K} {as : List K} : Walked links head (a :: as) → links.next a ≠ a →
      links.prev (links.next a) = a → Walked links head (links.next a :: a :: as)

theorem Walked.prev_head {head a : K} {as : List K} (walked : Walked links head (a :: as)) :
    links.prev a ∈ a :: as := by
  cases walked with
  | start itself => simp [itself]
  | step _ _ back => simp [back]

/-- The links back lead to what was visited before. -/
theorem Walked.prev_mem {head a b : K} {as : List K} (walked : Walked links head (a :: as))
    (before : b ∈ as) : links.prev b ∈ as := by
  induction as generalizing a with
  | nil => cases before
  | cons c cs ih =>
    cases walked with
    | step earlier _ _ =>
      rcases mem_cons.mp before with rfl | deeper
      · exact earlier.prev_head
      · exact mem_cons_of_mem c (ih earlier deeper)

/-- Nothing is visited twice: a second visit would be linked back to two elements. -/
theorem Walked.nodup {head : K} {as : List K} (walked : Walked links head as) : as.Nodup := by
  induction walked with
  | start _ => exact nodup_cons.mpr ⟨not_mem_nil, nodup_nil⟩
  | step earlier moves back ih =>
    refine nodup_cons.mpr ⟨fun again => ?_, ih⟩
    rcases mem_cons.mp again with same | before
    · exact moves same
    · have visited := earlier.prev_mem before
      rw [back] at visited
      exact (nodup_cons.mp ih).1 visited

/-- Two elements behind the head that cannot be told apart by their links are not both visited. -/
theorem Walked.nodup_map {L : Type} (f : K → L)
    (alike : ∀ a b, f a = f b → links.prev a = links.prev b) {head : K} {as : List K}
    (walked : Walked links head as) : (as.dropLast.map f).Nodup := by
  induction walked with
  | start _ => exact nodup_nil
  | @step a as earlier moves back ih =>
    rw [dropLast_cons_cons, map_cons]
    refine nodup_cons.mpr ⟨fun again => ?_, ih⟩
    obtain ⟨c, inside, same⟩ := List.mem_map.mp again
    have its := alike c (links.next a) same
    rw [back] at its
    have distinct := nodup_cons.mp earlier.nodup
    cases as with
    | nil => cases inside
    | cons d ds =>
      rw [dropLast_cons_cons] at inside
      rcases mem_cons.mp inside with rfl | deeper
      · -- only the head is linked back to itself
        cases earlier with
        | step _ other back' => exact other (its.symm.trans back')
      · have visited := earlier.prev_mem (dropLast_subset _ deeper)
        rw [its] at visited
        exact distinct.1 visited

theorem getLastD_reverse (as : List K) (d : K) : as.reverse.getLastD d = as.headD d := by
  rw [List.getLastD_eq_getLast?, List.getLast?_reverse, List.headD_eq_head?_getD]

theorem Chain.reverse {as : List K} (chain : Chain links as) : Chain ⟨links.next, links.prev⟩ as.reverse := by
  intro xs b ys split
  rw [reverse_eq_iff, reverse_append, reverse_cons, append_assoc] at split
  obtain ⟨prev, next⟩ := chain ys.reverse b xs.reverse split
  rw [getLastD_reverse] at prev
  exact ⟨by rw [← reverse_reverse xs, getLastD_reverse]; exact next, prev⟩

/-- A walk that has come to its end has visited a list. -/
theorem Walked.chain {head a : K} {as : List K} (walked : Walked links head (a :: as))
    (ends : links.next a = a) : Chain links (a :: as).reverse := by
  have inner : ∀ {as : List K}, Walked links head as → ∀ ys b xs, as = ys ++ b :: xs →
      links.prev b = xs.headD b ∧ ∀ c ∈ ys.getLast?, links.next b = c := by
    intro as walked
    induction walked with
    | start itself =>
      intro ys b xs split
      cases ys with
      | nil =>
        rw [nil_append, List.cons.injEq] at split
        obtain ⟨rfl, rfl⟩ := split
        exact ⟨itself, fun c none => by simp at none⟩
      | cons y ys => simp at split
    | @step a as earlier moves back ih =>
      intro ys b xs split
      cases ys with
      | nil =>
        rw [nil_append, List.cons.injEq] at split
        obtain ⟨rfl, rfl⟩ := split
        exact ⟨back, fun c none => by simp at none⟩
      | cons y ys =>
        rw [cons_append, List.cons.injEq] at split
        obtain ⟨rfl, rest⟩ := split
        obtain ⟨prev, next⟩ := ih ys b xs rest
        refine ⟨prev, fun c last => ?_⟩
        cases ys with
        | nil =>
          rw [nil_append, List.cons.injEq] at rest
          simp only [List.getLast?_singleton, Option.mem_some_iff] at last
          rw [← rest.1, last]
        | cons z zs =>
          rw [List.getLast?_cons_cons] at last
          exact next c last
  intro xs b ys split
  have reversed : a :: as = ys.reverse ++ b :: xs.reverse := by
    rw [← reverse_reverse (a :: as), split]
    simp
  obtain ⟨prev, next⟩ := inner walked ys.reverse b xs.reverse reversed
  refine ⟨?_, ?_⟩
  · rw [prev, ← getLastD_reverse, reverse_reverse]
  · cases ys with
    | nil =>
      rw [reverse_nil, nil_append, List.cons.injEq] at reversed
      rw [← reversed.1, ends]
      rfl
    | cons y ys => exact next y (by simp)

/-- A walk along a list visits it. -/
theorem Chain.walked {h : K} {as : List K} (chain : Chain links (h :: as))
    (nodup : (h :: as).Nodup) : Walked links h (h :: as).reverse := by
  have front : ∀ bs, bs <+: as → Walked links h (h :: bs).reverse := by
    intro bs
    induction bs using List.reverseRecOn with
    | nil => exact fun _ => .start chain.head.1
    | append_singleton bs b ih =>
      rintro ⟨rest, split⟩
      have walked := ih ⟨b :: rest, by rw [← split, append_assoc, singleton_append]⟩
      obtain ⟨c, cs, backwards⟩ : ∃ c cs, (h :: bs).reverse = c :: cs :=
        exists_cons_of_ne_nil (by simp)
      have forwards : h :: bs = cs.reverse ++ [c] := by
        rw [← reverse_reverse (h :: bs), backwards, reverse_cons]
      have all : h :: as = cs.reverse ++ c :: b :: rest := by
        rw [← split, append_assoc, ← cons_append, forwards, append_assoc]
        rfl
      have next : links.next c = b := (chain cs.reverse c (b :: rest) all).2
      have prev : links.prev b = c := by
        have its := (chain (cs.reverse ++ [c]) b rest (by rw [all, append_assoc]; rfl)).1
        rwa [getLastD_concat] at its
      have other : b ≠ c := by
        rintro rfl
        rw [all, nodup_append, nodup_cons] at nodup
        exact nodup.2.1.1 (mem_cons_self ..)
      rw [backwards] at walked
      have step := walked.step (next.symm ▸ other) (next.symm ▸ prev)
      rw [next] at step
      rw [← cons_append, reverse_append, backwards]
      exact step
  exact front as (prefix_refl as)

end Walk

end Glopen.Linked
