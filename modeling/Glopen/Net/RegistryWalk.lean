import Glopen.Net.RegistryDomain

/-! The walk over the candidates of a host, against the longest match of its labels. -/
namespace Glopen.Net

open List Option

theorem joined_one (label : Name) : joined [label] = label := by
  simp [joined, List.intercalate]

theorem joined_more (label next : Name) (rest : List Name) :
    joined (label :: next :: rest) = label ++ dot :: joined (next :: rest) := by
  simp [joined, List.intercalate]

theorem findDot_there {front label : Name} (plain : dot ∉ label) (behind : Name) :
    findDot (front ++ (label ++ dot :: behind)) front.length = some (front.length + label.length) := by
  have none_in : label.findIdx? (· == dot) = none := by
    rw [List.findIdx?_eq_none_iff]
    intro c there
    exact beq_false_of_ne fun same => plain (same ▸ there)
  rw [findDot, drop_left, List.findIdx?_append, none_in, List.findIdx?_cons, if_pos (beq_self_eq_true dot)]
  simp [Nat.add_comm]

theorem findDot_none {front label : Name} (plain : dot ∉ label) :
    findDot (front ++ label) front.length = none := by
  have none_in : label.findIdx? (· == dot) = none := by
    rw [List.findIdx?_eq_none_iff]
    intro c there
    exact beq_false_of_ne fun same => plain (same ▸ there)
  rw [findDot, drop_left, none_in]
  rfl

theorem lowerByte_lower (c : UInt8) : lowerByte (lowerByte c) = lowerByte c := by
  rw [lowerByte, lowerByte]
  by_cases upper : 65 ≤ c ∧ c ≤ 90
  · rw [if_pos upper, if_neg]
    rw [UInt8.le_iff_toNat_le, UInt8.le_iff_toNat_le] at upper ⊢
    rw [UInt8.toNat_add]
    have sixty : (65 : UInt8).toNat = 65 := rfl
    have ninety : (90 : UInt8).toNat = 90 := rfl
    have step : (32 : UInt8).toNat = 32 := rfl
    omega
  · rw [if_neg upper, if_neg upper]

theorem strncasecmp_lowered (name : Name) : strncasecmp name (lowered name) name.length = 0 := by
  induction name with
  | nil => rfl
  | cons c rest ih =>
    have head : lowerByte ((c :: rest).headD 0) = lowerByte ((lowered (c :: rest)).headD 0) :=
      (lowerByte_lower c).symm
    have tail : (lowered (c :: rest)).tail = lowered rest := rfl
    rw [length_cons, strncasecmp, if_neg (not_not_intro head), tail, tail_cons, ih, ite_self]

def frontOf (labels : List Name) : Name := labels.flatMap fun label => label ++ [dot]

theorem frontOf_snoc (labels : List Name) (label : Name) :
    frontOf (labels ++ [label]) = frontOf labels ++ (label ++ [dot]) := by
  simp [frontOf]

theorem frontOf_eq_zero {labels : List Name} : (frontOf labels).length = 0 ↔ labels = [] := by
  cases labels with
  | nil => simp [frontOf]
  | cons label rest => simp [frontOf]

def prevOf (front : List Name) : Option Nat :=
  if front = [] then none else some (frontOf front.dropLast).length

theorem prevOf_snoc (front : List Name) (label : Name) :
    prevOf (front ++ [label]) = some (frontOf front).length := by
  simp [prevOf]

def due (rules : RuleSet) (trailing : Name) (allowUnknown : Bool) (front suffix : List Name) : Decision :=
  match longestMatch rules suffix with
  | some (before, rule) =>
    ⟨lengthFrom (front ++ suffix) trailing (registryStart (front.length + before) rule.type),
      some (joined (suffix.drop before), rule)⟩
  | none =>
    ⟨if allowUnknown then lengthFrom (front ++ suffix) trailing ((front ++ suffix).length - 1) else 0,
      none⟩

section Walk

variable {rules : RuleSet} {front : List Name} {label : Name} {rest : List Name} {trailing : Name}

theorem joined_shorter (label next : Name) (rest : List Name) :
    (joined (next :: rest)).length < (joined (label :: next :: rest)).length := by
  rw [joined_more, length_append, length_cons]
  omega

theorem longestMatch_candidate {labels : List Name} {before : Nat} {rule : DomainRule}
    (found : longestMatch rules labels = some (before, rule)) :
    (joined (labels.drop before)).length ≤ (joined labels).length := by
  induction labels generalizing before with
  | nil => cases found
  | cons label rest ih =>
    rw [longestMatch] at found
    split at found
    · cases found
      exact Nat.le_refl _
    · rw [map_eq_some_iff] at found
      obtain ⟨⟨b, r⟩, deeper, same⟩ := found
      cases same
      have shorter := ih deeper
      cases rest with
      | nil => cases deeper
      | cons next rest => exact Nat.le_trans shorter (Nat.le_of_lt (joined_shorter label next rest))

theorem due_none (unnamed : rules.type (lowered (joined (label :: rest))) = none) (allowUnknown : Bool) :
    due rules trailing allowUnknown front (label :: rest) =
      due rules trailing allowUnknown (front ++ [label]) rest := by
  rw [due, due, longestMatch, unnamed, append_assoc, singleton_append]
  dsimp only
  cases longestMatch rules rest with
  | none => rfl
  | some found =>
    obtain ⟨before, rule⟩ := found
    have shift : front.length + (before + 1) = (front ++ [label]).length + before := by
      rw [length_append, length_singleton]
      omega
    rw [map_some]
    dsimp only
    rw [shift, drop_succ_cons]

theorem due_named {type : RuleType}
    (named : rules.type (lowered (joined (label :: rest))) = some type) (allowUnknown : Bool) :
    due rules trailing allowUnknown front (label :: rest) =
      ⟨lengthFrom (front ++ label :: rest) trailing (registryStart front.length type),
        some (joined (label :: rest), ⟨lowered (joined (label :: rest)), type⟩)⟩ := by
  rw [due, longestMatch, named]
  rfl

theorem nextDot_last (plain : dot ∉ label) (text : trailing = [] ∨ trailing = [dot]) :
    findDot (frontOf front ++ joined [label] ++ trailing) (frontOf front).length =
      if trailing = [] then none else some ((frontOf front).length + label.length) := by
  rw [joined_one]
  rcases text with rfl | rfl
  · rw [append_nil, if_pos rfl]
    exact findDot_none plain
  · rw [if_neg (cons_ne_nil _ _), append_assoc]
    exact findDot_there plain []

theorem nextDot_more (plain : dot ∉ label) (next : Name) (rest : List Name) :
    findDot (frontOf front ++ joined (label :: next :: rest) ++ trailing) (frontOf front).length =
      some ((frontOf front).length + label.length) := by
  rw [joined_more, append_assoc, append_assoc]
  exact findDot_there plain _

theorem lengthFrom_front (before : front ≠ []) : lengthFrom (front ++ label :: rest) trailing front.length =
      (joined (label :: rest)).length + trailing.length := by
  have some_front : front.length ≠ 0 := fun none => before (length_eq_zero_iff.mp none)
  rw [lengthFrom, if_neg, drop_left]
  rw [length_append, length_cons]
  omega

theorem matchedLength_wildcard (host : Name) (checkBegin prev currStart : Nat) (nextDot : Option Nat) :
    matchedLength host checkBegin (some prev) currStart nextDot .wildcard =
      if prev = checkBegin then 0 else host.length - prev := rfl

theorem matchedLength_exception (host : Name) (checkBegin currStart d : Nat) (prevStart : Option Nat) :
    matchedLength host checkBegin prevStart currStart none .exception = 0 ∧
      matchedLength host checkBegin prevStart currStart (some d) .exception = host.length - d - 1 := by
  cases prevStart <;> exact ⟨rfl, rfl⟩

theorem matchedLength_eq (plain : dot ∉ label) (text : trailing = [] ∨ trailing = [dot]) (type : RuleType) :
    matchedLength (frontOf front ++ joined (label :: rest) ++ trailing) 0 (prevOf front)
        (frontOf front).length
        (findDot (frontOf front ++ joined (label :: rest) ++ trailing) (frontOf front).length) type =
      lengthFrom (front ++ label :: rest) trailing (registryStart front.length type) := by
  have whole : (frontOf front ++ joined (label :: rest) ++ trailing).length - (frontOf front).length =
      (joined (label :: rest)).length + trailing.length := by
    rw [length_append, length_append]
    omega
  have here : (if (frontOf front).length = 0 then 0 else
      (frontOf front ++ joined (label :: rest) ++ trailing).length - (frontOf front).length) =
        lengthFrom (front ++ label :: rest) trailing front.length := by
    by_cases first : front = []
    · rw [first]
      rfl
    · rw [if_neg (mt frontOf_eq_zero.mp first), whole, lengthFrom_front first]
  cases type with
  | normal => exact here
  | wildcard =>
    rcases eq_nil_or_concat front with rfl | ⟨front, last, rfl⟩
    · exact here
    · rw [concat_eq_append, prevOf_snoc, append_assoc front, singleton_append, registryStart]
      have start : (front ++ [last]).length - 1 = front.length := by
        rw [length_append, length_singleton]
        omega
      have text_is : frontOf (front ++ [last]) ++ joined (label :: rest) =
          frontOf front ++ joined (last :: label :: rest) := by
        rw [frontOf_snoc, joined_more, append_assoc, append_assoc]
        rfl
      rw [start, text_is, matchedLength_wildcard]
      by_cases first : front = []
      · rw [first]
        rfl
      · rw [if_neg (mt frontOf_eq_zero.mp first), lengthFrom_front first, length_append, length_append]
        omega
  | exception =>
    cases rest with
    | nil =>
      have past : lengthFrom (front ++ [label]) trailing (front.length + 1) = 0 := by
        rw [lengthFrom, if_pos]
        right
        exact Nat.le_of_eq (length_append ..)
      rw [nextDot_last plain text, registryStart, past, joined_one]
      rcases text with rfl | rfl
      · exact (matchedLength_exception _ _ _ 0 _).1
      · rw [if_neg (cons_ne_nil _ _), (matchedLength_exception ..).2, length_append,
          length_append, length_singleton]
        omega
    | cons next rest =>
      have split : front ++ label :: next :: rest = (front ++ [label]) ++ next :: rest := by
        rw [append_assoc, singleton_append]
      have start : registryStart front.length .exception = (front ++ [label]).length := by
        rw [length_append, length_singleton]
        rfl
      have some_front : front ++ [label] ≠ [] :=
        append_ne_nil_of_right_ne_nil _ (cons_ne_nil _ _)
      rw [nextDot_more plain, split, start, lengthFrom_front some_front, (matchedLength_exception ..).2,
        joined_more, length_append, length_append, length_append, length_cons]
      omega

def accepted (find : FindDomain) (candidate : Name) : Option DomainRule :=
  (find candidate).filter fun rule => strncasecmp candidate rule.name candidate.length = 0

theorem accepted_named {finder : Finder rules} {candidate : Name} {type : RuleType}
    (named : rules.type (lowered candidate) = some type) :
    accepted finder.find candidate = some ⟨lowered candidate, type⟩ ↔ Judged rules finder.find candidate := by
  rw [Judged, named, accepted, filter_eq_some_iff]
  dsimp only
  constructor
  · exact fun found => Or.inr found.1
  · intro judged
    have found : finder.find candidate = some ⟨lowered candidate, type⟩ := by
      rcases judged with same | found
      · rw [same] at named ⊢
        exact finder.right candidate type named
      · exact found
    exact ⟨found, decide_eq_true (strncasecmp_lowered candidate)⟩

theorem accepted_unnamed {find : FindDomain} {candidate : Name}
    (unnamed : rules.type (lowered candidate) = none) :
    accepted find candidate = none ↔ Judged rules find candidate := by
  rw [Judged, unnamed, accepted, filter_eq_none_iff]
  dsimp only
  constructor
  · exact fun none rule found same => none rule found (decide_eq_true same)
  · exact fun judged rule found same => judged rule found (of_decide_eq_true same)

theorem shorter_differs {allowUnknown : Bool} {d : Decision} {rule : DomainRule} {length : Nat}
    (here : d = ⟨length, some (joined (label :: rest), rule)⟩) :
    d ≠ due rules trailing allowUnknown front rest := by
  intro same
  rw [here, due] at same
  split at same
  · rename_i before rule' found
    have candidates := congrArg Decision.rule same
    rw [Option.some.injEq, Prod.mk.injEq] at candidates
    cases rest with
    | nil => cases found
    | cons next rest =>
      have shorter := longestMatch_candidate found
      have longer := joined_shorter label next rest
      rw [← candidates.1] at shorter
      omega
  · cases congrArg Decision.rule same

theorem walk_decides (finder : Finder rules) (allowUnknown : Bool)
    (text : trailing = [] ∨ trailing = [dot]) (suffix front : List Name) (fuel : Nat)
    (enough : suffix.length < fuel + 1) (some_label : suffix ≠ [])
    (plain : ∀ label ∈ suffix, dot ∉ label) (several : 2 ≤ (front ++ suffix).length) :
    ∃ d, walk finder.find (frontOf front ++ joined suffix ++ trailing) 0
          (frontOf front ++ joined suffix).length allowUnknown fuel (prevOf front) (frontOf front).length
          (findDot (frontOf front ++ joined suffix ++ trailing) (frontOf front).length) = some d ∧
      (∀ found, d.rule = some found → found.1.length ≤ (joined suffix).length) ∧
      (d = due rules trailing allowUnknown front suffix ↔ JudgedToMatch rules finder.find suffix) := by
  induction suffix generalizing front fuel with
  | nil => exact absurd rfl some_label
  | cons label rest ih =>
    obtain ⟨fuel, rfl⟩ : ∃ more, fuel = more + 1 := ⟨fuel - 1, by rw [length_cons] at enough; omega⟩
    have plain_label : dot ∉ label := plain label mem_cons_self
    have size : (frontOf front ++ joined (label :: rest)).length - (frontOf front).length =
        (joined (label :: rest)).length := by
      rw [length_append, Nat.add_sub_cancel_left]
    have domain : ((frontOf front ++ joined (label :: rest) ++ trailing).drop
        (frontOf front).length).take ((joined (label :: rest)).length) = joined (label :: rest) := by
      rw [append_assoc, drop_left, take_left]
    have length := @matchedLength_eq front label rest trailing plain_label text
    rw [walk, size]
    dsimp only
    rw [domain, ← accepted]
    cases found : accepted finder.find (joined (label :: rest)) with
    | some rule =>
      refine ⟨_, rfl, fun at_rule same => by cases same; exact Nat.le_refl _, ?_⟩
      cases named : rules.type (lowered (joined (label :: rest))) with
      | some type =>
        have judged := @accepted_named rules finder (joined (label :: rest)) type named
        rw [due_named named]
        constructor
        · intro same
          have rules_same := congrArg Decision.rule same
          rw [Option.some.injEq, Prod.mk.injEq] at rules_same
          refine ⟨judged.mp (found.trans (congrArg some rules_same.2)), fun unnamed => ?_⟩
          rw [named] at unnamed
          cases unnamed
        · intro to_match
          have right := judged.mpr to_match.1
          rw [found, Option.some.injEq] at right
          rw [right, length]
      | none =>
        have judged := @accepted_unnamed rules finder.find (joined (label :: rest)) named
        rw [due_none named]
        refine iff_of_false (shorter_differs rfl) fun to_match => ?_
        have refused := judged.mpr to_match.1
        rw [found] at refused
        cases refused
    | none =>
      have missed : ∀ type, rules.type (lowered (joined (label :: rest))) = some type →
          ¬ JudgedToMatch rules finder.find (label :: rest) := by
        intro type named to_match
        have right := (accepted_named named).mpr to_match.1
        rw [found] at right
        cases right
      cases rest with
      | nil =>
        have behind : atOrBehind (findDot (frontOf front ++ joined [label] ++ trailing)
            (frontOf front).length) (frontOf front ++ joined [label]).length := by
          rw [nextDot_last plain_label text, joined_one, length_append]
          intro p at_p
          split at at_p
          · cases at_p
          · cases at_p
            exact Nat.le_refl _
        dsimp only
        rw [if_pos behind]
        refine ⟨_, rfl, fun at_rule same => by (cases same), ?_⟩
        cases named : rules.type (lowered (joined [label])) with
        | some type =>
          refine iff_of_false (fun same => ?_) (missed type named)
          rw [due_named named] at same
          cases congrArg Decision.rule same
        | none =>
          have some_front : front ≠ [] := by
            rintro rfl
            rw [nil_append, length_singleton] at several
            omega
          have last : (front ++ [label]).length - 1 = front.length := by
            rw [length_append, length_singleton]
            omega
          have rest_length : (frontOf front ++ joined [label] ++ trailing).length - (frontOf front).length =
              (joined [label]).length + trailing.length := by
            rw [length_append, length_append]
            omega
          have judged := (@accepted_unnamed rules finder.find (joined [label]) named).mp found
          refine iff_of_true ?_ ⟨judged, fun _ => trivial⟩
          rw [due, longestMatch, named, last, lengthFrom_front some_front, rest_length]
          rfl
      | cons next more =>
        have text_is : frontOf front ++ joined (label :: next :: more) =
            frontOf (front ++ [label]) ++ joined (next :: more) := by
          rw [frontOf_snoc, joined_more, append_assoc, append_assoc]
          rfl
        have position : (frontOf front).length + label.length + 1 = (frontOf (front ++ [label])).length := by
          rw [frontOf_snoc, length_append, length_append, length_singleton, Nat.add_assoc]
        have inside : ¬ atOrBehind (some ((frontOf front).length + label.length))
            (frontOf front ++ joined (label :: next :: more)).length := by
          intro behind
          have below := behind _ rfl
          rw [joined_more, length_append, length_append, length_cons] at below
          omega
        dsimp only
        rw [nextDot_more plain_label, if_neg inside, getD_some, position, ← prevOf_snoc front label, text_is]
        obtain ⟨d, ran, bound, decides⟩ := ih (front ++ [label]) fuel
          (by rw [length_cons] at enough; omega) (cons_ne_nil _ _)
          (fun l there => plain l (mem_cons_of_mem _ there))
          (by rwa [append_assoc, singleton_append])
        have shorter := joined_shorter label next more
        refine ⟨d, ran, fun at_rule same => Nat.le_trans (bound at_rule same) (Nat.le_of_lt shorter), ?_⟩
        cases named : rules.type (lowered (joined (label :: next :: more))) with
        | some type =>
          refine iff_of_false (fun same => ?_) (missed type named)
          have small := bound (joined (label :: next :: more), _) (by rw [same, due_named named])
          dsimp only at small
          omega
        | none =>
          have judged := (@accepted_unnamed rules finder.find (joined (label :: next :: more)) named).mp found
          rw [due_none named, decides]
          exact ⟨fun later => ⟨judged, fun _ => later⟩, fun to_match => to_match.2 named⟩

end Walk

end Glopen.Net

/-! `GetRegistryLengthImpl` on hosts of nonempty labels. -/
namespace Glopen.Net

open List Option

structure Labels where
  labels : List Name
  nonempty : labels ≠ []
  proper : ∀ label ∈ labels, label ≠ [] ∧ dot ∉ label

theorem joined_last (labels : List Name) (some_label : labels ≠ []) :
    ∃ front, joined labels = front ++ labels.getLast some_label := by
  induction labels with
  | nil => exact absurd rfl some_label
  | cons label rest ih =>
    cases rest with
    | nil => exact ⟨[], joined_one label⟩
    | cons next rest =>
      obtain ⟨front, rest_is⟩ := ih (cons_ne_nil _ _)
      refine ⟨label ++ dot :: front, ?_⟩
      rw [joined_more, rest_is, getLast_cons (cons_ne_nil _ _), append_assoc, cons_append]

theorem joined_many (labels : List Name) : labels.length ≤ (joined labels).length + 1 := by
  induction labels with
  | nil => exact Nat.zero_le _
  | cons label rest ih =>
    cases rest with
    | nil => exact Nat.le_add_left _ _
    | cons next rest =>
      have shorter := joined_shorter label next rest
      rw [length_cons]
      omega

section Host

variable (host : Labels)

theorem Labels.last_byte : ∃ front c, joined host.labels = front ++ [c] ∧ c ≠ dot := by
  obtain ⟨front, text⟩ := joined_last host.labels host.nonempty
  obtain ⟨some_byte, plain⟩ := host.proper _ (getLast_mem host.nonempty)
  refine ⟨front ++ (host.labels.getLast host.nonempty).dropLast,
    (host.labels.getLast host.nonempty).getLast some_byte, ?_, fun same => ?_⟩
  · rw [text, append_assoc, dropLast_append_getLast]
  · exact plain (same ▸ getLast_mem some_byte)

theorem Labels.checkLength {trailing : Name} (text : trailing = [] ∨ trailing = [dot]) :
    checkLength (joined host.labels ++ trailing) = some (joined host.labels).length := by
  obtain ⟨front, c, last, other⟩ := host.last_byte
  have not_dot : ¬ some c = some dot := fun same => other (Option.some.inj same)
  rcases text with rfl | rfl
  · rw [append_nil, Net.checkLength, last, List.getLast?_append, List.getLast?_singleton,
      some_or, if_neg not_dot]
  · rw [Net.checkLength, List.getLast?_append, List.getLast?_singleton, some_or, if_pos rfl,
      dropLast_concat, last, List.getLast?_append, List.getLast?_singleton, some_or,
      if_neg not_dot, @length_append _ _ [dot], length_singleton, Nat.add_sub_cancel]

theorem Labels.begins (trailing : Name) : (joined host.labels ++ trailing).findIdx? (· != dot) = some 0 := by
  obtain ⟨labels, some_label, proper⟩ := host
  obtain ⟨label, rest, rfl⟩ := exists_cons_of_ne_nil some_label
  obtain ⟨some_byte, plain⟩ := proper label mem_cons_self
  obtain ⟨c, bytes, rfl⟩ := exists_cons_of_ne_nil some_byte
  have other : (c != dot) = true := bne_iff_ne.mpr fun same => plain (same ▸ mem_cons_self)
  have head : ∃ behind, joined ((c :: bytes) :: rest) ++ trailing = c :: behind := by
    cases rest with
    | nil => exact ⟨bytes ++ trailing, by rw [joined_one]; rfl⟩
    | cons next rest => exact ⟨_, by rw [joined_more, append_assoc]; rfl⟩
  obtain ⟨behind, text⟩ := head
  rw [text, List.findIdx?_cons, if_pos other]

end Host

/-- The length and the rule that decides are those of the longest match, just where no candidate is
misjudged up to the first that names a rule. -/
theorem registry_length_iff {rules : RuleSet} (finder : Finder rules) (host : Labels) {trailing : Name}
    (text : trailing = [] ∨ trailing = [dot]) (allowUnknown : Bool) :
    ∃ d, getRegistryLengthImpl finder.find (joined host.labels ++ trailing) allowUnknown = some d ∧
      (d = registry rules host.labels trailing allowUnknown ↔
        host.labels.length ≤ 1 ∨ JudgedToMatch rules finder.find host.labels) := by
  have begins := host.begins trailing
  have check := host.checkLength text
  obtain ⟨labels, some_label, proper⟩ := host
  obtain ⟨label, rest, rfl⟩ := List.exists_cons_of_ne_nil some_label
  have plain : ∀ l ∈ label :: rest, dot ∉ l := fun l there => (proper l there).2
  rw [getRegistryLengthImpl, begins]
  dsimp only at check ⊢
  rw [check]
  cases rest with
  | nil =>
    have behind : atOrBehind (findDot (joined [label] ++ trailing) 0) (joined [label]).length := by
      have first := @nextDot_last [] label trailing (plain label List.mem_cons_self) text
      intro p at_p
      have at_p := first.symm.trans at_p
      split at at_p
      · cases at_p
      · cases at_p
        rw [joined_one]
        exact Nat.le_add_left _ _
    dsimp only
    rw [if_pos behind]
    exact ⟨_, rfl, iff_of_true (if_pos (Nat.le_refl 1)).symm (Or.inl (Nat.le_refl 1))⟩
  | cons next more =>
    have first := @nextDot_more [] label trailing (plain label List.mem_cons_self) next more
    have inside : ¬ atOrBehind (findDot (joined (label :: next :: more) ++ trailing) 0)
        (joined (label :: next :: more)).length := by
      intro behind
      have below := behind _ first
      rw [joined_more, List.length_append, List.length_cons] at below
      have none_before : (frontOf []).length = 0 := rfl
      omega
    have several : 2 ≤ (label :: next :: more).length := Nat.le_add_left 2 more.length
    have fuel : (label :: next :: more).length <
        (joined (label :: next :: more) ++ trailing).length + 1 + 1 := by
      have many := joined_many (label :: next :: more)
      rw [List.length_append]
      omega
    dsimp only
    rw [if_neg inside]
    obtain ⟨d, ran, -, decides⟩ := walk_decides finder allowUnknown text (label :: next :: more) []
      ((joined (label :: next :: more) ++ trailing).length + 1) fuel (List.cons_ne_nil _ _) plain several
    refine ⟨d, ran, ?_⟩
    have whole : registry rules (label :: next :: more) trailing allowUnknown =
        due rules trailing allowUnknown [] (label :: next :: more) := by
      rw [registry, if_neg (by omega), due]
      cases longestMatch rules (label :: next :: more) with
      | none => rfl
      | some found =>
        dsimp only
        rw [List.length_nil, Nat.zero_add]
        rfl
    rw [whole, decides]
    exact (or_iff_right (by omega)).symm

/-- The name `com`. -/
def comName : Name := [99, 111, 109]

/-- A set with `com` only. -/
def comRules : RuleSet where
  type := fun name => if name = comName then some .normal else none
  lower := by
    intro name member
    split at member
    · rename_i same
      rw [same]
      decide
    · cases member
  noNul := by
    intro name member
    split at member
    · rename_i same
      rw [same]
      decide
    · cases member

/-- A function that gives the rule for `co`, which is not in the set, too. -/
def clashing : Finder comRules where
  find := fun name => if name = comName ∨ name = [99, 111] then some ⟨comName, .normal⟩ else none
  right := by
    intro name type found
    rw [comRules] at found
    dsimp only at found
    split at found
    · rename_i same
      cases found
      rw [if_pos (Or.inl same), same]
    · cases found

/-- The host `a.co`. -/
def coHost : Labels := ⟨[[97], [99, 111]], by decide, by decide⟩

theorem registry_length_co :
    ∃ d, getRegistryLengthImpl clashing.find (joined coHost.labels ++ []) false = some d ∧
      (d = registry comRules coHost.labels [] false ↔
        coHost.labels.length ≤ 1 ∨ JudgedToMatch comRules clashing.find coHost.labels) :=
  registry_length_iff clashing coHost (Or.inl rfl) false

/-- `co` is taken for the registry, because `com` begins with it. -/
theorem prefix_rule_accepted : getRegistryLengthImpl clashing.find (joined coHost.labels ++ []) false =
        some ⟨2, some ([99, 111], ⟨comName, .normal⟩)⟩ ∧
      registry comRules coHost.labels [] false = ⟨0, none⟩ := by
  constructor <;> decide +kernel

end Glopen.Net
