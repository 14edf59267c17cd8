import Glopen.Net.TransportSecurityRuns

/-! When the entries of `net/base/transport_security_state.cc` were created, over whole runs. -/
namespace Glopen.Net

open Option

namespace TransportSecurityState

def Dated (state : TransportSecurityState) : Prop :=
  ∀ host, state.firstEnabled host = (state.enabledHosts host).map (·.created)

variable {sha256 : Name → Digest} {entry : DomainState}

section Steps

variable {now : Int} {state : TransportSecurityState}

theorem Dated.eraseIf (dated : state.Dated) (gone : Digest → DomainState → Bool) :
    (state.eraseIf gone).Dated := by
  intro host
  have its := dated host
  rw [TransportSecurityState.eraseIf]
  simp only
  cases found : state.enabledHosts host with
  | none =>
    rw [found] at its
    simpa using its
  | some entry =>
    rw [found] at its
    cases erased : gone host entry with
    | true =>
      rw [any_some, filter_some, erased]
      rfl
    | false =>
      rw [any_some, filter_some, erased]
      exact its

variable {host : Digest}

theorem Dated.insert (dated : state.Dated)
    (date : entry.created = ((state.enabledHosts host).map (·.created)).getD now) :
    (state.insert now host entry).Dated := by
  intro x
  rw [TransportSecurityState.insert]
  simp only
  by_cases here : x = host
  · subst here
    rw [if_pos rfl, map_some, date]
    cases found : state.enabledHosts x with
    | none => rw [if_pos ⟨rfl, rfl⟩, map_none, getD_none]
    | some old =>
      have present : ¬ (x = x ∧ some old = none) := fun both => by cases both.2
      rw [if_neg present, dated x, found]
      rfl
  · rw [if_neg fun both => here both.1, if_neg here]
    exact dated x

theorem Dated.lookup (dated : state.Dated) (first : Bool) (names : List Name) :
    (lookup sha256 now first names state).1.Dated := by
  induction names generalizing first state with
  | nil => exact dated
  | cons domain rest later =>
    rw [TransportSecurityState.lookup]
    cases its : state.enabledHosts (sha256 domain) with
    | none => exact later dated false
    | some entry =>
      by_cases expired : now > entry.expiry
      · simp only [if_pos expired]
        exact later (dated.eraseIf _) false
      · simp only [if_neg expired]
        exact dated

theorem lookup_absent (first : Bool) (names : List Name) (absent : state.enabledHosts host = none) :
    (lookup sha256 now first names state).1.enabledHosts host = none := by
  induction names generalizing first state with
  | nil => exact absent
  | cons domain rest later =>
    rw [lookup]
    cases its : state.enabledHosts (sha256 domain) with
    | none => exact later false absent
    | some entry =>
      by_cases expired : now > entry.expiry
      · simp only [if_pos expired]
        refine later false ?_
        rw [eraseIf]
        simp only
        rw [absent]
        rfl
      · simp only [if_neg expired]
        exact absent

theorem lookup_own (domain : Name) (rest : List Name) :
    (∃ entry, unexpired sha256 now state domain = some entry ∧
      lookup sha256 now true (domain :: rest) state = (state, some entry, true) ∧
      state.enabledHosts (sha256 domain) = some entry) ∨
    (unexpired sha256 now state domain = none ∧
      (lookup sha256 now true (domain :: rest) state).1.enabledHosts (sha256 domain) = none) := by
  rw [lookup]
  cases its : state.enabledHosts (sha256 domain) with
  | none =>
    refine Or.inr ⟨?_, lookup_absent false rest its⟩
    rw [unexpired, its]
    rfl
  | some entry =>
    by_cases expired : now > entry.expiry
    · refine Or.inr ⟨(unexpired_some its).trans (if_pos expired), ?_⟩
      simp only [if_pos expired]
      refine lookup_absent false rest ?_
      rw [eraseIf]
      simp
    · refine Or.inl ⟨entry, (unexpired_some its).trans (if_neg expired), ?_, rfl⟩
      simp only [if_neg expired]
      rfl

end Steps

theorem dnsDomainFrom_nonzero (rest label name : Name) {out : Name}
    (ran : dnsDomainFrom rest label name = some out) : ∀ byte ∈ out, byte ≠ 0 := by
  induction rest generalizing label name with
  | nil =>
    rw [dnsDomainFrom] at ran
    obtain ⟨name', -, ran⟩ := bind_eq_some_iff.mp ran
    split at ran
    · cases ran
    · cases ran
      intro byte there
      simpa using List.mem_takeWhile_imp there
  | cons ch rest later =>
    rw [dnsDomainFrom] at ran
    split at ran
    · obtain ⟨name', -, ran⟩ := bind_eq_some_iff.mp ran
      exact later [] name' ran
    · split at ran
      · cases ran
      · exact later _ name ran

theorem domains_canonical {host : Name} (some_name : canonicaliseHost host ≠ []) :
    ∃ above, domains (canonicaliseHost host) = canonicaliseHost host :: above := by
  have starts : ∃ length rest, canonicaliseHost host = length :: rest ∧ length ≠ 0 := by
    rw [canonicaliseHost] at some_name ⊢
    cases dotted : dnsDomainFromDot host with
    | none =>
      rw [dotted] at some_name
      exact absurd rfl some_name
    | some name =>
      rw [dotted] at some_name
      simp only at some_name ⊢
      cases name with
      | nil => exact absurd rfl some_name
      | cons length rest =>
        have nonzero : length ≠ 0 := dnsDomainFrom_nonzero _ _ _ dotted length (List.mem_cons_self ..)
        rw [List.length_cons, canonicaliseLabels, if_neg nonzero] at some_name ⊢
        simp only at some_name ⊢
        split at some_name
        · exact absurd rfl some_name
        · rename_i valid
          rw [if_neg valid]
          split at some_name
          · exact absurd rfl some_name
          · rename_i plain
            rw [if_neg plain]
            cases more : canonicaliseLabels rest.length (rest.drop length.toNat) with
            | none =>
              rw [more] at some_name
              exact absurd rfl some_name
            | some names => exact ⟨length, _, rfl, nonzero⟩
  obtain ⟨length, rest, its, nonzero⟩ := starts
  rw [its, domains, List.length_cons, domainsFrom, if_neg nonzero]
  exact ⟨_, rfl⟩

section Runs

structure Clocked where
  state : TransportSecurityState
  clock : Int

inductive HostEvent where
  | enableHost (host : Name) (entry : DomainState)
  | isEnabledForHost (host : Name)
  | deleteSince (time : Int)
  | tick (later : Nat)

/-- `state.created` is the current time. -/
def HostEvent.run (sha256 : Name → Digest) (moment : Clocked) : HostEvent → Clocked
  | enableHost host entry =>
    { moment with state := moment.state.enableHost sha256 moment.clock host { entry with created := moment.clock } }
  | isEnabledForHost host =>
    { moment with state := (moment.state.isEnabledForHost sha256 moment.clock host).1 }
  | deleteSince time => { moment with state := moment.state.deleteSince time }
  | tick later => { moment with clock := moment.clock + later }

def OwnDate (sha256 : Name → Digest) (moment : Clocked) : HostEvent → Prop
  | .enableHost host _ => ∀ own above entry, domains (canonicaliseHost host) = own :: above →
      unexpired sha256 moment.clock moment.state own = none →
      above.findSome? (unexpired sha256 moment.clock moment.state) = some entry →
      entry.includeSubdomains = true → entry.created = moment.clock
  | _ => True

inductive HostRun (sha256 : Name → Digest) (meets : Clocked → HostEvent → Prop) : Clocked → Prop where
  | new (clock : Int) : HostRun sha256 meets ⟨.new, clock⟩
  | event {moment : Clocked} {event : HostEvent} (run : HostRun sha256 meets moment)
      (met : meets moment event) : HostRun sha256 meets (event.run sha256 moment)

variable {meets : Clocked → HostEvent → Prop}
variable {moment : Clocked}

theorem Dated.enableHost (dated : moment.state.Dated) {host : Name}
    (own_date : OwnDate sha256 moment (.enableHost host entry)) :
    (moment.state.enableHost sha256 moment.clock host { entry with created := moment.clock }).Dated := by
  rw [TransportSecurityState.enableHost]
  simp only
  split
  · exact dated
  · rename_i some_name
    split
    · exact dated
    · rename_i not_preloaded
      rw [not_isSome_iff_eq_none] at not_preloaded
      obtain ⟨above, names⟩ := domains_canonical some_name
      rw [isEnabledForHost]
      simp only [if_neg some_name, not_preloaded, names]
      have found := @lookup_answers sha256 moment.clock moment.state true (canonicaliseHost host :: above)
      have dated' := @Dated.lookup sha256 moment.clock moment.state dated true (canonicaliseHost host :: above)
      have own := @lookup_own sha256 moment.clock moment.state (canonicaliseHost host) above
      generalize TransportSecurityState.lookup sha256 moment.clock true (canonicaliseHost host :: above) moment.state =
        result at found dated' own ⊢
      obtain ⟨state, existing, enabled⟩ := result
      rcases own with ⟨own, -, same, present⟩ | ⟨none_live, absent⟩
      · cases same
        refine dated.insert ?_
        rw [present]
        rfl
      · refine dated'.insert ?_
        cases found
        rw [absent, map_none, getD_none, answers, none_live, List.findSome?_cons, none_live]
        simp only
        split
        · rename_i answer
          obtain ⟨entry', found, includes⟩ := answers_found _ answer
          rw [found, map_some, getD_some]
          exact own_date _ above entry' names none_live found includes
        · rfl

/-- What is deleted is what came to the map at that time or later. -/
theorem deleted_by_first_enabled (run : HostRun sha256 (OwnDate sha256) moment) (time : Int)
    (host : Digest) : (moment.state.deleteSince time).enabledHosts host =
      if ∃ first, moment.state.firstEnabled host = some first ∧ time ≤ first then none
      else moment.state.enabledHosts host := by
  have dated : moment.state.Dated := by
    induction run with
    | new clock => exact fun _ => rfl
    | event run met before =>
      rename_i moment event
      cases event with
      | enableHost host entry => exact before.enableHost met
      | isEnabledForHost host =>
        rw [HostEvent.run, isEnabledForHost]
        simp only
        split
        · exact before
        · split
          · exact before
          · exact before.lookup true _
      | deleteSince time => exact before.eraseIf _
      | tick later => exact before
  rw [deleteSince, eraseIf, dated host]
  simp only
  cases moment.state.enabledHosts host with
  | none => simp
  | some entry => by_cases later : time ≤ entry.created <;> simp [later]

/-- A host is enabled ten ticks after `a`. -/
def enabledLater (host : Name) : Clocked :=
  [HostEvent.enableHost [97] ⟨.strict, 0, 100, true⟩, .tick 10,
    .enableHost host ⟨.strict, 0, 100, true⟩].foldl (HostEvent.run id) ⟨.new, 0⟩

theorem enabledLater_run (host : Name) (first : meets ⟨.new, 0⟩ (.enableHost [97] ⟨.strict, 0, 100, true⟩))
    (later : ∀ moment, meets moment (.tick 10))
    (last : meets ([HostEvent.enableHost [97] ⟨.strict, 0, 100, true⟩, .tick 10].foldl
      (HostEvent.run id) ⟨.new, 0⟩) (.enableHost host ⟨.strict, 0, 100, true⟩)) :
    HostRun id meets (enabledLater host) := by
  have one := @HostRun.event id _ _ _ (.new 0) first
  have two := HostRun.event one (later _)
  have three := HostRun.event two last
  exact three

theorem deleted_by_first_enabled_two :
    ((enabledLater [98]).state.deleteSince 5).enabledHosts (wire [[98]]) = none ∧
      ((enabledLater [98]).state.deleteSince 5).enabledHosts (wire [[97]]) = some ⟨.strict, 0, 100, true⟩ := by
  have run : HostRun id (OwnDate id) (enabledLater [98]) := by
    refine enabledLater_run [98] ?_ (fun _ => trivial) ?_
    · intro own above entry names none_live found
      cases names
      cases found
    · intro own above entry names none_live found
      cases names
      cases found
  constructor
  · exact (deleted_by_first_enabled run 5 _).trans (if_pos ⟨10, by decide, by decide⟩)
  · refine (deleted_by_first_enabled run 5 _).trans (if_neg ?_)
    rintro ⟨first, its, later⟩
    rw [show (enabledLater [98]).state.firstEnabled (wire [[97]]) = some 0 by decide] at its
    cases its
    exact absurd later (by decide)

/-- The host `b.a` gets the time of `a`, and stays. -/
theorem inherited_date_stays : HostRun id (fun _ _ => True) (enabledLater [98, 46, 97]) ∧
    (enabledLater [98, 46, 97]).state.firstEnabled (wire [[98], [97]]) = some 10 ∧
    ((enabledLater [98, 46, 97]).state.deleteSince 5).enabledHosts (wire [[98], [97]]) ≠ none :=
  ⟨enabledLater_run _ trivial (fun _ => trivial) trivial, by decide, by decide⟩

end Runs

end TransportSecurityState

end Glopen.Net
