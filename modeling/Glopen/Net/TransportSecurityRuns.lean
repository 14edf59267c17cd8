import Glopen.Net.TransportSecurityState

/-! What `net/base/transport_security_state.cc` answers for a host, and what it deletes. -/
namespace Glopen.Net

open List

namespace TransportSecurityState

section Lookup

variable (sha256 : Name → Digest) (now : Int) (state : TransportSecurityState)

def unexpired (domain : Name) : Option DomainState :=
  (state.enabledHosts (sha256 domain)).filter fun entry => decide (now ≤ entry.expiry)

def answers : Bool → List Name → Bool
  | _, [] => false
  | first, domain :: rest =>
    match unexpired sha256 now state domain with
    | none => answers false rest
    | some entry => first || entry.includeSubdomains

variable {sha256 now state}
variable {domain : Name} {entry : DomainState}

theorem unexpired_some (its : state.enabledHosts (sha256 domain) = some entry) :
    unexpired sha256 now state domain = if now > entry.expiry then none else some entry := by
  rw [unexpired, its, Option.filter_some]
  by_cases expired : now > entry.expiry
  · rw [if_neg (by simpa using expired), if_pos expired]
  · rw [if_pos (by simpa using expired), if_neg expired]

theorem unexpired_erased
    (its : state.enabledHosts (sha256 domain) = some entry) (expired : now > entry.expiry) (x : Name) :
    unexpired sha256 now (state.eraseIf fun x _ => x = sha256 domain) x = unexpired sha256 now state x := by
  by_cases here : sha256 x = sha256 domain
  · have none_here : unexpired sha256 now state x = none :=
      (unexpired_some (here ▸ its)).trans (if_pos expired)
    rw [none_here, unexpired, eraseIf]
    simp [here]
  · rw [unexpired, unexpired, eraseIf]
    simp [here]

theorem lookup_answers (first : Bool) (names : List Name) : (lookup sha256 now first names state).2 =
      (names.findSome? (unexpired sha256 now state), answers sha256 now state first names) := by
  induction names generalizing first state with
  | nil => rfl
  | cons domain rest later =>
    rw [lookup, answers, List.findSome?_cons]
    cases its : state.enabledHosts (sha256 domain) with
    | none =>
      have none_here : unexpired sha256 now state domain = none := by
        rw [unexpired, its]
        rfl
      rw [none_here]
      exact later false
    | some entry =>
      by_cases expired : now > entry.expiry
      · have none_here : unexpired sha256 now state domain = none :=
          (unexpired_some its).trans (if_pos expired)
        have same : unexpired sha256 now (state.eraseIf fun x _ => x = sha256 domain) =
            unexpired sha256 now state := funext (unexpired_erased its expired)
        have same_answers : ∀ first names, answers sha256 now
            (state.eraseIf fun x _ => x = sha256 domain) first names =
            answers sha256 now state first names := by
          intro first names
          induction names generalizing first with
          | nil => rfl
          | cons name names ih => rw [answers, answers, same, ih]
        simp only [if_pos expired]
        rw [none_here, later false, same, same_answers]
      · have found : unexpired sha256 now state domain = some entry :=
          (unexpired_some its).trans (if_neg expired)
        simp only [if_neg expired]
        rw [found]

theorem answers_at {before after : List Name} {near : Name}
    (none_before : ∀ domain ∈ before, unexpired sha256 now state domain = none)
    (found : unexpired sha256 now state near = some entry) :
    answers sha256 now state false (before ++ near :: after) = entry.includeSubdomains := by
  induction before with
  | nil =>
    rw [nil_append, answers, found]
    rfl
  | cons domain before rest =>
    rw [cons_append, answers, none_before domain (mem_cons_self ..)]
    exact rest fun other there => none_before other (mem_cons_of_mem _ there)

theorem answers_found (names : List Name) (answer : answers sha256 now state false names = true) :
    ∃ entry, names.findSome? (unexpired sha256 now state) = some entry ∧ entry.includeSubdomains = true := by
  induction names with
  | nil => cases answer
  | cons domain rest later =>
    rw [answers] at answer
    rw [List.findSome?_cons]
    cases found : unexpired sha256 now state domain with
    | none =>
      rw [found] at answer
      exact later answer
    | some entry =>
      rw [found] at answer
      exact ⟨entry, rfl, answer⟩

end Lookup

section Inheritance

variable (sha256 : Name → Digest) (now : Int) (state : TransportSecurityState)

def Live (labels : List Name) (entry : DomainState) : Prop :=
  unexpired sha256 now state (wire (labels.map lowered)) = some entry

def Inherits (labels : List Name) : Prop :=
  (∃ entry, Live sha256 now state labels entry) ∨
    ∃ above ∈ (ancestry labels).tail, ∃ entry, Live sha256 now state above entry ∧
      entry.includeSubdomains = true

/-- The host has no entry, and the nearest domain above it that has one does not include subdomains,
while one further away does. -/
def Shadowed (labels : List Name) : Prop :=
  ∃ before near after entry, ancestry labels = before ++ near :: after ∧ before ≠ [] ∧
    (∀ domain ∈ before, ∀ entry, ¬ Live sha256 now state domain entry) ∧
    Live sha256 now state near entry ∧ entry.includeSubdomains = false ∧
    ∃ far ∈ after, ∃ entry', Live sha256 now state far entry' ∧ entry'.includeSubdomains = true

variable {sha256 now state}

theorem ancestry_map (labels : List Name) :
    ancestry (labels.map lowered) = (ancestry labels).map (List.map lowered) := by
  induction labels with
  | nil => rfl
  | cons label labels rest => rw [map_cons, ancestry, ancestry, rest, map_cons, map_cons]

theorem not_live {domain : List Name} : (∀ entry, ¬ Live sha256 now state domain entry) ↔
    unexpired sha256 now state (wire (domain.map lowered)) = none :=
  Option.eq_none_iff_forall_ne_some.symm

theorem above_inherits_iff {above : List (List Name)} :
    (answers sha256 now state false (above.map fun labels => wire (labels.map lowered)) = true ↔
      ∃ domain ∈ above, ∃ entry, Live sha256 now state domain entry ∧ entry.includeSubdomains = true) ↔
    ¬ ∃ before near after entry, above = before ++ near :: after ∧
      (∀ domain ∈ before, ∀ entry, ¬ Live sha256 now state domain entry) ∧
      Live sha256 now state near entry ∧ entry.includeSubdomains = false ∧
      ∃ far ∈ after, ∃ entry', Live sha256 now state far entry' ∧ entry'.includeSubdomains = true := by
  have at_near : ∀ before near after entry, above = before ++ near :: after →
      (∀ domain ∈ before, ∀ entry, ¬ Live sha256 now state domain entry) →
      Live sha256 now state near entry →
      answers sha256 now state false (above.map fun labels => wire (labels.map lowered)) =
        entry.includeSubdomains := by
    intro before near after entry split none_before live
    rw [split, map_append, map_cons]
    refine answers_at (fun name there => ?_) live
    obtain ⟨domain, inside, rfl⟩ := List.mem_map.mp there
    exact not_live.mp (none_before domain inside)
  constructor
  · rintro inherits ⟨before, near, after, entry, split, none_before, live, excludes, far, there, its⟩
    have inside : far ∈ above := by
      rw [split]
      exact mem_append_right _ (mem_cons_of_mem _ there)
    have answer := inherits.mpr ⟨far, inside, its⟩
    rw [at_near before near after entry split none_before live, excludes] at answer
    cases answer
  · intro unshadowed
    constructor
    · intro answer
      obtain ⟨entry, found, includes⟩ := answers_found _ answer
      obtain ⟨name, there, its⟩ := List.exists_of_findSome?_eq_some found
      obtain ⟨domain, inside, rfl⟩ := List.mem_map.mp there
      exact ⟨domain, inside, entry, its, includes⟩
    · rintro ⟨far, there, entry', live, includes⟩
      have some_live : above.findSome? (fun labels => unexpired sha256 now state
          (wire (labels.map lowered))) ≠ none := by
        intro none_live
        have nothing := List.findSome?_eq_none_iff.mp none_live far there
        rw [show unexpired sha256 now state _ = some entry' from live] at nothing
        cases nothing
      obtain ⟨entry, found⟩ := Option.ne_none_iff_exists'.mp some_live
      obtain ⟨before, near, after, split, its, none_before⟩ := List.findSome?_eq_some_iff.mp found
      have none_before : ∀ domain ∈ before, ∀ entry, ¬ Live sha256 now state domain entry :=
        fun domain inside => not_live.mpr (none_before domain inside)
      rw [at_near before near after entry split none_before its]
      by_contra excludes
      rw [Bool.not_eq_true] at excludes
      refine unshadowed ⟨before, near, after, entry, split, none_before, its, excludes, far, ?_, entry',
        live, includes⟩
      rw [split] at there
      rcases mem_append.mp there with earlier | later
      · exact absurd live (none_before far earlier entry')
      · rcases mem_cons.mp later with rfl | behind
        · rw [show unexpired sha256 now state _ = some entry' from live] at its
          cases its
          rw [excludes] at includes
          cases includes
        · exact behind

theorem enabled_iff_inherits {host : Name} (valid : ValidHost host)
    (not_preloaded : isPreloadedSTS (canonicaliseHost host) = none) :
    ((isEnabledForHost sha256 now host state).2.2 = true ↔ Inherits sha256 now state (hostLabels host)) ↔
      ¬ Shadowed sha256 now state (hostLabels host) := by
  obtain ⟨label, above, its⟩ := List.exists_cons_of_ne_nil valid.some_label
  have some_name : canonicaliseHost host ≠ [] := by
    rw [canonical_name valid, its]
    exact List.cons_ne_nil _ _
  have answer : (isEnabledForHost sha256 now host state).2.2 = answers sha256 now state true
      ((ancestry (label :: above)).map fun labels => wire (labels.map lowered)) := by
    rw [isEnabledForHost]
    simp only [if_neg some_name, not_preloaded]
    rw [canonical_domains valid, lookup_answers, ancestry_map, List.map_map, its]
    rfl
  rw [answer, its, Inherits, Shadowed, ancestry, List.map_cons, answers, List.tail_cons]
  cases own : unexpired sha256 now state (wire ((label :: above).map lowered)) with
  | some entry =>
    have live : Live sha256 now state (label :: above) entry := own
    refine ⟨fun _ => ?_, fun _ => ⟨fun _ => Or.inl ⟨entry, live⟩, fun _ => rfl⟩⟩
    rintro ⟨before, near, after, entry', split, some_before, none_before, -⟩
    obtain ⟨first, rest, rfl⟩ := List.exists_cons_of_ne_nil some_before
    rw [List.cons_append, List.cons.injEq] at split
    exact none_before first (List.mem_cons_self ..) entry (split.1 ▸ live)
  | none =>
    have none_here := not_live.mpr own
    simp only
    rw [or_iff_right fun own_live => none_here _ own_live.choose_spec, above_inherits_iff]
    refine not_congr ⟨?_, ?_⟩
    · rintro ⟨before, near, after, entry, split, none_before, rest⟩
      refine ⟨(label :: above) :: before, near, after, entry, by rw [split]; rfl, List.cons_ne_nil _ _,
        fun domain there => ?_, rest⟩
      rcases List.mem_cons.mp there with rfl | inside
      · exact none_here
      · exact none_before domain inside
    · rintro ⟨before, near, after, entry, split, some_before, none_before, rest⟩
      obtain ⟨first, before, rfl⟩ := List.exists_cons_of_ne_nil some_before
      rw [List.cons_append, List.cons.injEq] at split
      exact ⟨before, near, after, entry, split.2, fun domain there =>
        none_before domain (List.mem_cons_of_mem _ there), rest⟩

/-- The host `c.b.a`. -/
def cHost : Name := [99, 46, 98, 46, 97]

theorem cHost_valid : ValidHost cHost := by
  have labels : hostLabels cHost = [[99], [98], [97]] := by decide
  refine ⟨by rw [labels]; decide, fun label there => ?_, by decide⟩
  rw [labels] at there
  simp only [mem_cons, not_mem_nil, or_false] at there
  rcases there with rfl | rfl | rfl <;> exact ⟨by decide, by decide, by decide, by decide, by decide⟩

/-- `a` includes subdomains, and `b.a` does not. -/
def nested : TransportSecurityState :=
  (new.insert 0 (wire [[97]]) ⟨.strict, 0, 100, true⟩).insert 0 (wire [[98], [97]])
    ⟨.strict, 0, 100, false⟩

theorem enabled_iff_inherits_nested :
    ((isEnabledForHost id 0 cHost nested).2.2 = true ↔ Inherits id 0 nested (hostLabels cHost)) ↔
      ¬ Shadowed id 0 nested (hostLabels cHost) :=
  enabled_iff_inherits cHost_valid (by decide)

theorem nearest_hides : (isEnabledForHost id 0 cHost nested).2.2 = false ∧
    Inherits id 0 nested (hostLabels cHost) := by
  refine ⟨by decide, Or.inr ⟨[[97]], by decide, ⟨.strict, 0, 100, true⟩, ?_, rfl⟩⟩
  rw [Live]
  decide

end Inheritance

end TransportSecurityState

end Glopen.Net
