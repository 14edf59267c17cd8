import Glopen.Net.CookieMonster

/-! The keys of the walk over the host of a URL: the suffixes that begin with a dot. -/
namespace Glopen.Net

open List CookieMonster
variable {fuel : Nat} {key : Name}

section Keys

variable {rest domain : Name}

theorem findDot_one_none (plain : findDot (dot :: rest) 1 = none) : dot ∉ rest := by
  simp only [findDot, drop_succ_cons, drop_zero, Option.map_eq_none_iff, List.findIdx?_eq_none_iff] at plain
  intro isIn
  simpa using plain dot isIn

theorem findDot_one_some {p : Nat} (found : findDot (dot :: rest) 1 = some p) :
    ∃ label behind, dot ∉ label ∧ rest = label ++ dot :: behind ∧ (dot :: rest).drop p = dot :: behind := by
  simp only [findDot, drop_succ_cons, drop_zero, Option.map_eq_some_iff] at found
  obtain ⟨q, at_q, rfl⟩ := found
  obtain ⟨inside, is_dot, before⟩ := List.findIdx?_eq_some_iff_getElem.mp at_q
  have split : rest = rest.take q ++ dot :: rest.drop (q + 1) := by
    conv => lhs; rw [← take_append_drop q rest]
    rw [drop_eq_getElem_cons inside, eq_of_beq is_dot]
  refine ⟨rest.take q, rest.drop (q + 1), ?_, split, ?_⟩
  · intro isIn
    obtain ⟨j, bound, is_j⟩ := mem_take_iff_getElem.mp isIn
    have not_yet := before j (by omega)
    simp [is_j] at not_yet
  · rw [drop_succ_cons, drop_eq_getElem_cons inside, eq_of_beq is_dot]

/-- The keys that `findCookiesForDomains` looks up. -/
def walkedKeys (domain : Name) : Nat → Name → List Name
  | 0, _ => []
  | fuel + 1, key =>
    if key.length > domain.length then key :: walkedKeys domain fuel (CookieMonster.eraseToNextDot key)
    else []

theorem eraseToNextDot_shorter (rest : Name) :
    (CookieMonster.eraseToNextDot (dot :: rest)).length < (dot :: rest).length := by
  unfold CookieMonster.eraseToNextDot
  split
  · simp
  · rename_i p found
    obtain ⟨label, behind, -, split, dropped⟩ := findDot_one_some found
    rw [dropped, split]
    simp only [length_cons, length_append]
    omega

theorem eraseToNextDot_dotted (rest : Name) : CookieMonster.eraseToNextDot (dot :: rest) = [] ∨
      ∃ behind, CookieMonster.eraseToNextDot (dot :: rest) = dot :: behind := by
  unfold CookieMonster.eraseToNextDot
  split
  · exact .inl rfl
  · rename_i p found
    obtain ⟨_, behind, -, -, dropped⟩ := findDot_one_some found
    exact .inr ⟨behind, dropped⟩

theorem dotted_suffix_erase (rest s : Name) : dot :: s <:+ dot :: rest ↔
      dot :: s = dot :: rest ∨ dot :: s <:+ CookieMonster.eraseToNextDot (dot :: rest) := by
  rw [suffix_cons_iff]
  apply or_congr Iff.rfl
  unfold CookieMonster.eraseToNextDot
  split
  · rename_i plain
    have none_in := findDot_one_none plain
    constructor
    · intro suffix
      exact absurd (suffix.subset (mem_cons_self ..)) none_in
    · intro suffix
      exact absurd (suffix_nil.mp suffix) (cons_ne_nil _ _)
  · rename_i p found
    obtain ⟨label, behind, plain, split, dropped⟩ := findDot_one_some found
    rw [dropped, split]
    constructor
    · intro suffix
      obtain longer | shorter := Nat.lt_or_ge (dot :: behind).length (dot :: s).length
      · -- then the dot of `s` would lie inside the label
        obtain ⟨middle, eq⟩ := suffix_of_suffix_length_le (suffix_append label (dot :: behind))
          suffix (Nat.le_of_lt longer)
        obtain ⟨front, whole⟩ := suffix
        have label_eq : front ++ middle = label := by
          rw [← eq, ← append_assoc] at whole
          exact append_cancel_right whole
        cases middle with
        | nil =>
          rw [nil_append] at eq
          rw [eq] at longer
          exact absurd longer (Nat.lt_irrefl _)
        | cons c middle =>
          rw [cons_append, List.cons.injEq] at eq
          exact absurd (label_eq ▸ mem_append_right front (eq.1 ▸ mem_cons_self ..)) plain
      · exact suffix_of_suffix_length_le suffix (suffix_append ..) shorter
    · intro suffix
      exact suffix.trans (suffix_append ..)

theorem walkedKeys_nil (domain : Name) (fuel : Nat) : walkedKeys domain fuel [] = [] := by
  cases fuel <;> simp [walkedKeys]

theorem mem_walkedKeys (enough : rest.length < fuel) (s : Name) :
    dot :: s ∈ walkedKeys domain fuel (dot :: rest) ↔
      dot :: s <:+ dot :: rest ∧ domain.length ≤ s.length := by
  induction fuel generalizing rest with
  | zero => omega
  | succ fuel ih =>
    have shorter := eraseToNextDot_shorter rest
    have tail : dot :: s ∈ walkedKeys domain fuel (CookieMonster.eraseToNextDot (dot :: rest)) ↔
        dot :: s <:+ CookieMonster.eraseToNextDot (dot :: rest) ∧ domain.length ≤ s.length := by
      obtain nothing | ⟨behind, eq⟩ := eraseToNextDot_dotted rest
      · rw [nothing, walkedKeys_nil]
        simp
      · rw [eq] at shorter ⊢
        simp only [length_cons] at shorter
        exact ih (by omega)
    rw [walkedKeys, dotted_suffix_erase]
    split
    · rename_i above
      rw [mem_cons, tail]
      constructor
      · rintro (eq | ⟨suffix, long⟩)
        · rw [List.cons.injEq] at eq
          simp only [length_cons] at above
          refine ⟨.inl (by rw [eq.2]), ?_⟩
          rw [eq.2]
          omega
        · exact ⟨.inr suffix, long⟩
      · rintro ⟨eq | suffix, long⟩
        · exact .inl eq
        · exact .inr ⟨suffix, long⟩
    · rename_i below
      simp only [not_mem_nil, false_iff, not_and, Nat.not_le]
      simp only [length_cons] at below
      rintro (eq | suffix)
      · rw [List.cons.injEq] at eq
        rw [eq.2]
        omega
      · have := suffix.length_le
        simp only [length_cons] at this shorter
        omega

theorem walkedKeys_dotted (walked : key ∈ walkedKeys domain fuel (dot :: rest)) : ∃ s, key = dot :: s := by
  induction fuel generalizing rest with
  | zero => cases walked
  | succ fuel ih =>
    rw [walkedKeys] at walked
    split at walked
    · obtain rfl | walked := mem_cons.mp walked
      · exact ⟨rest, rfl⟩
      · obtain nothing | ⟨behind, eq⟩ := eraseToNextDot_dotted rest
        · rw [nothing, walkedKeys_nil] at walked
          cases walked
        · exact ih (eq ▸ walked)
    · cases walked

theorem walkedKeys_length
    (walked : key ∈ walkedKeys domain fuel (dot :: rest)) : key.length ≤ (dot :: rest).length := by
  induction fuel generalizing rest with
  | zero => cases walked
  | succ fuel ih =>
    rw [walkedKeys] at walked
    split at walked
    · obtain rfl | walked := mem_cons.mp walked
      · exact Nat.le_refl _
      · have shorter := eraseToNextDot_shorter rest
        obtain nothing | ⟨behind, eq⟩ := eraseToNextDot_dotted rest
        · rw [nothing, walkedKeys_nil] at walked
          cases walked
        · rw [eq] at walked shorter
          exact Nat.le_trans (ih walked) (Nat.le_of_lt shorter)
    · cases walked

theorem walkedKeys_nodup (domain : Name) (fuel : Nat) (rest : Name) :
    (walkedKeys domain fuel (dot :: rest)).Nodup := by
  induction fuel generalizing rest with
  | zero => exact nodup_nil
  | succ fuel ih =>
    rw [walkedKeys]
    split
    · have shorter := eraseToNextDot_shorter rest
      obtain nothing | ⟨behind, eq⟩ := eraseToNextDot_dotted rest
      · rw [nothing, walkedKeys_nil]
        exact nodup_singleton _
      · rw [eq] at shorter ⊢
        refine nodup_cons.mpr ⟨fun again => ?_, ih behind⟩
        exact absurd (walkedKeys_length again) (Nat.not_le.mpr shorter)
    · exact nodup_nil

end Keys

/-! What the lookups for a URL return: a lookup does not depend on the lookups before it, which only
delete expired cookies and set access times. -/
section Lookups

open CookieMonster

theorem updateAccessTime_key (now threshold : Int) (item : CookieItem) :
    (updateAccessTime now threshold item).key = item.key := by
  unfold updateAccessTime
  split <;> rfl

theorem updateAccessTime_isExpired (now threshold current : Int) (item : CookieItem) :
    (updateAccessTime now threshold item).cookie.isExpired current = item.cookie.isExpired current := by
  unfold updateAccessTime
  split <;> rfl

theorem updateAccessTime_wanted (now threshold : Int) (url : Url) (excludeHttponly : Bool)
    (item : CookieItem) : wanted url excludeHttponly (updateAccessTime now threshold item).cookie =
      wanted url excludeHttponly item.cookie := by
  unfold updateAccessTime
  split <;> rfl

theorem updateAccessTime_again (now threshold : Int) (item : CookieItem) :
    updateAccessTime now threshold (updateAccessTime now threshold item) =
      updateAccessTime now threshold item := by
  unfold updateAccessTime
  by_cases recent : now - item.cookie.lastAccessDate < threshold
  · rw [if_pos recent, if_pos recent]
  · rw [if_neg recent]
    split <;> rfl

variable (url : Url) (excludeHttponly : Bool) (current now : Int) (monster : CookieMonster)

def CookieMonster.matching (key : Name) : List CookieItem :=
  (monster.cookies.filter fun item =>
    item.key = key && !item.cookie.isExpired current && wanted url excludeHttponly item.cookie).map
      (updateAccessTime now monster.lastAccessThreshold)

def CookieMonster.readIn (keys : List Name) (item : CookieItem) : CookieItem :=
  if decide (item.key ∈ keys) && wanted url excludeHttponly item.cookie then
    updateAccessTime now monster.lastAccessThreshold item
  else item

def CookieMonster.swept (keys : List Name) : CookieMonster :=
  { monster with
    cookies := (monster.cookies.filter fun item =>
      !(decide (item.key ∈ keys) && item.cookie.isExpired current)).map
        (monster.readIn url excludeHttponly now keys) }

theorem swept_nil : monster.swept url excludeHttponly current now [] = monster := by
  have reads : monster.readIn url excludeHttponly now [] = id := by
    funext item
    simp [readIn]
  simp [swept, reads]

section

variable (keys : List Name) (item : CookieItem)
include keys item

theorem readIn_cases : monster.readIn url excludeHttponly now keys item = item ∨
      monster.readIn url excludeHttponly now keys item =
        updateAccessTime now monster.lastAccessThreshold item := by
  unfold readIn
  split
  · exact .inr rfl
  · exact .inl rfl

theorem readIn_key : (monster.readIn url excludeHttponly now keys item).key = item.key := by
  obtain same | read := readIn_cases url excludeHttponly now monster keys item
  · rw [same]
  · rw [read, updateAccessTime_key]

theorem readIn_isExpired : (monster.readIn url excludeHttponly now keys item).cookie.isExpired current =
      item.cookie.isExpired current := by
  obtain same | read := readIn_cases url excludeHttponly now monster keys item
  · rw [same]
  · rw [read, updateAccessTime_isExpired]

theorem readIn_wanted : wanted url excludeHttponly (monster.readIn url excludeHttponly now keys item).cookie =
      wanted url excludeHttponly item.cookie := by
  obtain same | read := readIn_cases url excludeHttponly now monster keys item
  · rw [same]
  · rw [read, updateAccessTime_wanted]

theorem updateAccessTime_readIn : updateAccessTime now monster.lastAccessThreshold
        (monster.readIn url excludeHttponly now keys item) =
      updateAccessTime now monster.lastAccessThreshold item := by
  obtain same | read := readIn_cases url excludeHttponly now monster keys item
  · rw [same]
  · rw [read, updateAccessTime_again]

end

theorem readIn_cons (key : Name) (keys : List Name) (item : CookieItem) :
    (if decide ((monster.readIn url excludeHttponly now keys item).key = key) &&
        wanted url excludeHttponly (monster.readIn url excludeHttponly now keys item).cookie then
      updateAccessTime now monster.lastAccessThreshold (monster.readIn url excludeHttponly now keys item)
    else monster.readIn url excludeHttponly now keys item) =
      monster.readIn url excludeHttponly now (key :: keys) item := by
  rw [readIn_key, readIn_wanted, updateAccessTime_readIn]
  by_cases same : item.key = key
  · by_cases want : wanted url excludeHttponly item.cookie
    · simp [readIn, same, want]
    · simp [readIn, want]
  · simp [readIn, same]

theorem findCookiesForKey_swept (keys : List Name) (key : Name) :
    (monster.swept url excludeHttponly current now keys).findCookiesForKey key url excludeHttponly current now =
      (monster.swept url excludeHttponly current now (key :: keys),
        monster.matching url excludeHttponly current now key) := by
  have left : ((monster.cookies.filter fun item =>
        !(decide (item.key ∈ keys) && item.cookie.isExpired current)).map
          (monster.readIn url excludeHttponly now keys)).filter
        (fun item => !(decide (item.key = key) && item.cookie.isExpired current)) =
      (monster.cookies.filter fun item =>
        !(decide (item.key ∈ key :: keys) && item.cookie.isExpired current)).map
          (monster.readIn url excludeHttponly now keys) := by
    rw [filter_map, filter_filter]
    congr 1
    apply filter_congr
    intro item _
    simp only [Function.comp_apply, readIn_key, readIn_isExpired, mem_cons, Bool.decide_or]
    cases decide (item.key = key) <;> cases decide (item.key ∈ keys) <;>
      cases item.cookie.isExpired current <;> rfl
  unfold CookieMonster.findCookiesForKey
  simp only [swept, left, Prod.mk.injEq, CookieMonster.mk.injEq, and_true]
  constructor
  · rw [map_map]
    apply map_congr_left
    intro item _
    exact readIn_cons url excludeHttponly now monster key keys item
  · rw [filter_map, filter_filter, map_map, matching]
    have same_items : (monster.cookies.filter fun item =>
          ((fun item : CookieItem => decide (item.key = key) && wanted url excludeHttponly item.cookie) ∘
              monster.readIn url excludeHttponly now keys) item &&
            !(decide (item.key ∈ key :: keys) && item.cookie.isExpired current)) =
        monster.cookies.filter fun item => decide (item.key = key) &&
          !item.cookie.isExpired current && wanted url excludeHttponly item.cookie := by
      apply filter_congr
      intro item _
      simp only [Function.comp_apply, readIn_key, readIn_wanted, mem_cons, Bool.decide_or]
      cases decide (item.key = key) <;> cases wanted url excludeHttponly item.cookie <;>
        cases item.cookie.isExpired current <;> simp
    rw [same_items]
    apply map_congr_left
    intro item kept
    obtain ⟨-, tests⟩ := mem_filter.mp kept
    simp only [Bool.and_eq_true, decide_eq_true_eq] at tests
    obtain ⟨⟨same, -⟩, want⟩ := tests
    simp [readIn_key, readIn_wanted, same, want, updateAccessTime_readIn]

theorem findCookiesForDomains_swept (domain : Name)
    (dotted : key = [] ∨ ∃ rest, key = dot :: rest) (enough : key.length < fuel) (keys : List Name) :
    findCookiesForDomains domain url excludeHttponly current now fuel key
        (monster.swept url excludeHttponly current now keys) =
      some (monster.swept url excludeHttponly current now ((walkedKeys domain fuel key).reverse ++ keys),
        (walkedKeys domain fuel key).flatMap (monster.matching url excludeHttponly current now)) := by
  induction fuel generalizing key keys with
  | zero => omega
  | succ fuel ih =>
    rw [findCookiesForDomains, walkedKeys]
    split
    · rename_i above
      obtain rfl | ⟨rest, rfl⟩ := dotted
      · simp at above
      · have shorter := eraseToNextDot_shorter rest
        rw [findCookiesForKey_swept]
        simp only
        rw [ih (eraseToNextDot_dotted rest) (by omega) (_ :: keys)]
        simp [flatMap_cons]
    · rfl

variable (getDomainAndRegistry : Name → Name)

def searchedKeys (fuel : Nat) : List Name :=
  let domain := getEffectiveDomain getDomainAndRegistry url.scheme url.host
  url.host :: if domain = [] then [] else walkedKeys domain fuel (dot :: url.host)

theorem findCookiesForHostAndDomain_found (enough : url.host.length + 1 < fuel) :
    ∃ keys, findCookiesForHostAndDomain getDomainAndRegistry url excludeHttponly now fuel monster =
      some (monster.swept url excludeHttponly (monster.currentTime now) now keys,
        (searchedKeys url getDomainAndRegistry fuel).flatMap
          (monster.matching url excludeHttponly (monster.currentTime now) now)) := by
  have first := findCookiesForKey_swept url excludeHttponly (monster.currentTime now) now monster [] url.host
  rw [swept_nil] at first
  unfold findCookiesForHostAndDomain searchedKeys
  simp only [first]
  split
  · exact ⟨[url.host], by simp⟩
  · rw [findCookiesForDomains_swept url excludeHttponly (monster.currentTime now) now monster _
      (.inr ⟨url.host, rfl⟩) enough]
    exact ⟨_, rfl⟩

end Lookups

end Glopen.Net
