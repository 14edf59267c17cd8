import Glopen.Net.CookieRuns

/-! How many cookies the garbage collection leaves, and which of them it takes. -/
namespace Glopen.Net

open CookieMonster List

def lruCookieSorter (item other : CookieItem) : Bool :=
  if item.cookie.lastAccessDate ≠ other.cookie.lastAccessDate then
    item.cookie.lastAccessDate < other.cookie.lastAccessDate
  else item.cookie.creationDate < other.cookie.creationDate

/-- What `std::partial_sort` does: the first `n` elements are the least ones, in order. -/
structure PartiallySorts (partialSort : Nat → List CookieItem → List CookieItem) : Prop where
  perm : ∀ n its, (partialSort n its).Perm its
  sorted : ∀ n its, ((partialSort n its).take n).Pairwise fun item other =>
    lruCookieSorter other item = false
  least : ∀ n its, ∀ item ∈ (partialSort n its).take n, ∀ other ∈ (partialSort n its).drop n,
    lruCookieSorter other item = false

def Collects (current : Int) (inRange : CookieItem → Bool) (before after : CookieMonster) : Prop :=
  ∀ item ∈ before.cookies, inRange item = true → item.cookie.isExpired current = false →
    item ∉ after.cookies → ∀ kept ∈ after.cookies, inRange kept = true →
      item.cookie.lastAccessDate ≤ kept.cookie.lastAccessDate

theorem lruCookieSorter_access {item other : CookieItem} (later : lruCookieSorter other item = false) :
    item.cookie.lastAccessDate ≤ other.cookie.lastAccessDate := by
  rw [lruCookieSorter] at later
  split at later
  · exact Int.not_lt.mp (of_decide_eq_false later)
  · rename_i same
    exact Int.le_of_eq (not_not.mp same).symm

section Collect

variable {monster : CookieMonster} {current : Int} {inRange : CookieItem → Bool}

theorem internalDeleteCookies_eq (nodup : monster.cookies.Nodup) (items : List CookieItem) :
    (items.foldl (fun monster item => monster.internalDeleteCookie item) monster).cookies =
      monster.cookies.filter fun item => item ∉ items := by
  induction items generalizing monster with
  | nil => simp
  | cons item items ih =>
    have erased : (monster.internalDeleteCookie item).cookies =
        monster.cookies.filter fun other => other ≠ item := by
      refine (nodup.erase_eq_filter item).trans (filter_congr fun other _ => ?_)
      rw [decide_not]
      rfl
    rw [foldl_cons, ih (erased ▸ nodup.filter _), erased, List.filter_filter]
    refine filter_congr fun other _ => ?_
    simp only [mem_cons, not_or, Bool.decide_and]
    exact Bool.and_comm _ _

theorem garbageCollectRange_cookies {partialSort : Nat → List CookieItem → List CookieItem}
    (nodup : monster.cookies.Nodup) (numMax numPurge : Nat) :
    let left := monster.garbageCollectExpired current inRange
    let its := left.cookies.filter inRange
    let purged := numPurge + (its.length - numMax)
    (monster.garbageCollectRange partialSort current inRange numMax numPurge).cookies =
      if its.length > numMax then left.cookies.filter fun item => item ∉ (partialSort purged its).take purged
      else left.cookies := by
  intro left its purged
  have nodup_left : left.cookies.Nodup := nodup.filter _
  rw [CookieMonster.garbageCollectRange]
  simp only
  split
  · exact internalDeleteCookies_eq nodup_left _
  · rfl

variable {partialSort : Nat → List CookieItem → List CookieItem} (sorts : PartiallySorts partialSort)
  (nodup : monster.cookies.Nodup)
include sorts nodup

theorem garbageCollectRange_collects (numMax numPurge : Nat) : Collects current inRange monster
      (monster.garbageCollectRange partialSort current inRange numMax numPurge) := by
  intro item isIn within fresh gone kept isKept kept_within
  rw [garbageCollectRange_cookies nodup] at gone isKept
  have stays : item ∈ (monster.garbageCollectExpired current inRange).cookies :=
    mem_filter.mpr ⟨isIn, by simp [fresh]⟩
  split at gone
  · rename_i beyond
    rw [if_pos beyond, mem_filter, decide_eq_true_eq] at isKept
    generalize (monster.garbageCollectExpired current inRange).cookies = left at *
    generalize numPurge + ((left.filter inRange).length - numMax) = purged at *
    have taken : item ∈ (partialSort purged (left.filter inRange)).take purged := by
      rw [mem_filter, decide_eq_true_eq, not_and, not_not] at gone
      exact gone stays
    have sorted : kept ∈ partialSort purged (left.filter inRange) :=
      (sorts.perm purged _).mem_iff.mpr (mem_filter.mpr ⟨isKept.1, kept_within⟩)
    rw [← take_append_drop purged (partialSort purged (left.filter inRange))] at sorted
    have behind := (mem_append.mp sorted).resolve_left isKept.2
    exact lruCookieSorter_access (sorts.least purged _ item taken kept behind)
  · exact absurd stays gone

theorem garbageCollectRange_length {numMax numPurge : Nat} (margin : numPurge ≤ numMax) :
    ((monster.garbageCollectRange partialSort current inRange numMax numPurge).cookies.filter
      inRange).length ≤ numMax := by
  rw [garbageCollectRange_cookies nodup]
  have nodup_left : (monster.garbageCollectExpired current inRange).cookies.Nodup := nodup.filter _
  split
  · rename_i beyond
    generalize (monster.garbageCollectExpired current inRange).cookies = left at *
    generalize purges : numPurge + ((left.filter inRange).length - numMax) = purged at *
    have perm := sorts.perm purged (left.filter inRange)
    have sorted_nodup := perm.nodup_iff.mpr (nodup_left.filter inRange)
    have rest : ((left.filter fun item => item ∉ (partialSort purged (left.filter inRange)).take
        purged).filter inRange).Perm ((partialSort purged (left.filter inRange)).drop purged) := by
      rw [filter_comm]
      refine (perm.symm.filter _).trans ?_
      generalize partialSort purged (left.filter inRange) = sorted at sorted_nodup ⊢
      have apart := sorted_nodup
      rw [← take_append_drop purged sorted, nodup_append] at apart
      conv => lhs; rw [← take_append_drop purged sorted]
      rw [filter_append, filter_eq_nil_iff.mpr, filter_eq_self.mpr]
      · exact List.Perm.refl _
      · intro item behind
        rw [decide_eq_true_eq, take_append_drop]
        exact fun before => apart.2.2 item before item behind rfl
      · intro item before
        rw [decide_eq_true_eq, take_append_drop]
        exact fun outside => outside before
    rw [rest.length_eq, length_drop, perm.length_eq]
    omega
  · rename_i within
    exact Nat.not_lt.mp within

end Collect

structure Limited (items : List CookieItem) : Prop where
  host : ∀ key, (items.filter fun item => item.key = key).length ≤ kNumCookiesPerHost
  total : items.length ≤ kNumCookiesTotal

section Limits

variable {items others : List CookieItem}

theorem Limited.keys (limited : Limited items)
    (keys : (others.map CookieItem.key).Sublist (items.map CookieItem.key)) : Limited others := by
  have counts : ∀ (list : List CookieItem) (key : Name), (list.filter fun item => item.key = key).length =
        (list.map CookieItem.key).countP fun other => other = key := by
    intro list key
    rw [countP_map, countP_eq_length_filter]
    rfl
  refine ⟨fun key => ?_, ?_⟩
  · have few := limited.host key
    rw [counts] at few ⊢
    exact Nat.le_trans keys.countP_le few
  · have few := limited.total
    have shorter := keys.length_le
    rw [length_map, length_map] at shorter
    exact Nat.le_trans shorter few

theorem Limited.sublist (limited : Limited items) (sublist : others.Sublist items) :
    Limited others := limited.keys (sublist.map _)

theorem limited_nil : Limited [] := ⟨fun _ => Nat.zero_le _, Nat.zero_le _⟩

end Limits

namespace CookieMonster

section Stages

variable (partialSort : Nat → List CookieItem → List CookieItem)

def collectHost (current : Int) (key : Name) (monster : CookieMonster) : CookieMonster :=
  if (monster.equalRange key).length > kNumCookiesPerHost then
    monster.garbageCollectRange partialSort current (fun item => item.key = key) kNumCookiesPerHost
      kNumCookiesPerHostPurge
  else monster

def collectAll (current : Int) (monster : CookieMonster) : CookieMonster :=
  if monster.cookies.length > kNumCookiesTotal then
    monster.garbageCollectRange partialSort current (fun _ => true) kNumCookiesTotal
      kNumCookiesTotalPurge
  else monster

end Stages

variable {partialSort : Nat → List CookieItem → List CookieItem} {current : Int} {key : Name}
  {monster : CookieMonster}

theorem collectHost_sublist : (monster.collectHost partialSort current key).cookies.Sublist monster.cookies := by
  rw [collectHost]
  split
  · exact garbageCollectRange_sublist ..
  · exact List.Sublist.refl _

theorem collectAll_sublist : (monster.collectAll partialSort current).cookies.Sublist monster.cookies := by
  rw [collectAll]
  split
  · exact garbageCollectRange_sublist ..
  · exact List.Sublist.refl _

theorem collect_limited (limited : Limited monster.cookies) :
    (monster.collectHost partialSort current key).collectAll partialSort current = monster := by
  have host : (monster.equalRange key).length ≤ kNumCookiesPerHost := limited.host key
  have total := limited.total
  rw [collectHost, if_neg (Nat.not_lt.mpr host), collectAll, if_neg (Nat.not_lt.mpr total)]

section Collected

variable (sorts : PartiallySorts partialSort) (nodup : monster.cookies.Nodup)
include sorts nodup

theorem collectHost_collects : Collects current (fun item => item.key = key) monster
    (monster.collectHost partialSort current key) := by
  rw [collectHost]
  split
  · exact garbageCollectRange_collects sorts nodup _ _
  · exact fun item isIn _ _ gone => absurd isIn gone

theorem collectAll_collects : Collects current (fun _ => true) monster
    (monster.collectAll partialSort current) := by
  rw [collectAll]
  split
  · exact garbageCollectRange_collects sorts nodup _ _
  · exact fun item isIn _ _ gone => absurd isIn gone

theorem collectHost_length :
    ((monster.collectHost partialSort current key).equalRange key).length ≤ kNumCookiesPerHost := by
  rw [collectHost]
  split
  · exact garbageCollectRange_length sorts nodup (by decide)
  · rename_i few
    exact Nat.not_lt.mp few

theorem collectAll_length : (monster.collectAll partialSort current).cookies.length ≤ kNumCookiesTotal := by
  rw [collectAll]
  split
  · have collected : ((monster.garbageCollectRange partialSort current (fun _ => true)
        kNumCookiesTotal kNumCookiesTotalPurge).cookies.filter fun _ => true).length ≤
          kNumCookiesTotal := garbageCollectRange_length sorts nodup (by decide)
    rwa [filter_true] at collected
  · rename_i few
    exact Nat.not_lt.mp few

theorem collect_limits {kept : List CookieItem} (limited : Limited kept)
    (one : ∀ other, other ≠ key → (monster.equalRange other).length ≤
      (kept.filter fun item => item.key = other).length) :
    Limited ((monster.collectHost partialSort current key).collectAll partialSort current).cookies := by
  have nodup_host := nodup.sublist (@collectHost_sublist partialSort current key monster)
  refine ⟨fun other => ?_, collectAll_length sorts nodup_host⟩
  have fewer : (((monster.collectHost partialSort current key).collectAll partialSort
      current).cookies.filter fun item => item.key = other).length ≤
        ((monster.collectHost partialSort current key).equalRange other).length :=
    (collectAll_sublist.filter _).length_le
  by_cases same : other = key
  · subst same
    exact Nat.le_trans fewer (collectHost_length sorts nodup)
  · have before : ((monster.collectHost partialSort current key).equalRange other).length ≤
        (monster.equalRange other).length := (collectHost_sublist.filter _).length_le
    exact Nat.le_trans fewer (Nat.le_trans before (Nat.le_trans (one other same) (limited.host other)))

end Collected

theorem setCanonicalCookie_collects
    (unique : NoDuplicates monster.cookies) (limited : Limited monster.cookies) (key : Name)
    (cookie : CanonicalCookie) (creationTime : Int) (excludeHttponly : Bool) :
    ∃ inserted kept : CookieMonster, (kept.cookies.Sublist monster.cookies ∧
        (inserted.cookies = kept.cookies ∨ inserted.cookies = kept.cookies ++ [⟨key, cookie⟩])) ∧
      inserted.cookies.Nodup ∧
      monster.setCanonicalCookie partialSort key cookie creationTime excludeHttponly =
        some ((inserted.collectHost partialSort creationTime key).collectAll partialSort creationTime) := by
  obtain ⟨left, skipped, deleted, sublist, absent⟩ :=
    deleteAnyEquivalentCookie_valid key cookie excludeHttponly unique
  have unique_left := unique.sublist sublist
  unfold CookieMonster.setCanonicalCookie
  rw [deleted]
  cases skipped with
  | true =>
    refine ⟨left, left, ⟨sublist, .inl rfl⟩, unique_left.nodup, ?_⟩
    rw [collect_limited (limited.sublist sublist)]
    rfl
  | false =>
    refine ⟨_, left, ⟨sublist, ?_⟩, ?_, rfl⟩
    · split
      · exact .inl rfl
      · exact .inr rfl
    · split
      · exact unique_left.nodup
      · refine nodup_append.mpr ⟨unique_left.nodup, nodup_singleton _, ?_⟩
        rintro item isIn other isOther rfl
        exact absent rfl item isIn ((mem_singleton.mp isOther) ▸ ⟨rfl, rfl⟩)

theorem setCanonicalCookie_limited (sorts : PartiallySorts partialSort)
    (unique : NoDuplicates monster.cookies) (limited : Limited monster.cookies) (key : Name)
    (cookie : CanonicalCookie) (creationTime : Int) (excludeHttponly : Bool) :
    ∃ left, monster.setCanonicalCookie partialSort key cookie creationTime excludeHttponly = some left ∧
      Limited left.cookies := by
  obtain ⟨inserted, kept, ⟨sublist, either⟩, nodup, set⟩ :=
    setCanonicalCookie_collects unique limited key cookie creationTime excludeHttponly
  refine ⟨_, set, collect_limits sorts nodup (limited.sublist sublist) fun other different => ?_⟩
  rw [CookieMonster.equalRange]
  rcases either with same | one
  · exact Nat.le_of_eq (by rw [same])
  · have elsewhere : ([⟨key, cookie⟩] : List CookieItem).filter (fun item => item.key = other) = [] := by
      simpa using fun here => different here.symm
    exact Nat.le_of_eq (by rw [one, filter_append, elsewhere, append_nil])

section Runs

variable (sorts : PartiallySorts partialSort) (getDomainAndRegistry : Name → Name)

def Keeps (result : Option CookieMonster) : Prop :=
  ∃ left, result = some left ∧ NoDuplicates left.cookies ∧ Limited left.cookies

omit sorts in
theorem keeps_of_sublist {left : CookieMonster} (unique : NoDuplicates monster.cookies)
    (limited : Limited monster.cookies) (sublist : left.cookies.Sublist monster.cookies) :
    Keeps (some left) := ⟨left, rfl, unique.sublist sublist, limited.sublist sublist⟩
include sorts in
theorem setCanonicalCookie_keeps (unique : NoDuplicates monster.cookies)
    (limited : Limited monster.cookies) (key : Name) (cookie : CanonicalCookie) (creationTime : Int)
    (excludeHttponly : Bool) :
    Keeps (monster.setCanonicalCookie partialSort key cookie creationTime excludeHttponly) := by
  obtain ⟨left, set, unique_left⟩ :=
    setCanonicalCookie_valid partialSort unique key cookie creationTime excludeHttponly
  obtain ⟨left', set', limited_left⟩ :=
    setCanonicalCookie_limited sorts unique limited key cookie creationTime excludeHttponly
  obtain rfl : left = left' := Option.some.inj (set.symm.trans set')
  exact ⟨left, set, unique_left, limited_left⟩
include sorts in
theorem setCookieWithCreationTimeAndOptions_keeps (unique : NoDuplicates monster.cookies)
    (limited : Limited monster.cookies) (accepted : Int → Option (Name × CanonicalCookie)) (url : Url)
    (creationTimeOrNull now : Int) (excludeHttponly : Bool) :
    Keeps (monster.setCookieWithCreationTimeAndOptions partialSort accepted url creationTimeOrNull now
      excludeHttponly) := by
  unfold CookieMonster.setCookieWithCreationTimeAndOptions
  split
  · exact ⟨monster, rfl, unique, limited⟩
  · simp only
    generalize (if creationTimeOrNull = 0 then monster.currentTime now else creationTimeOrNull) = creationTime
    have seen : (if creationTimeOrNull = 0 then
        { monster with lastTimeSeen := creationTime } else monster).cookies = monster.cookies := by
      split <;> rfl
    generalize (if creationTimeOrNull = 0 then { monster with lastTimeSeen := creationTime }
      else monster) = left at seen ⊢
    split
    · exact ⟨left, rfl, seen ▸ unique, seen ▸ limited⟩
    · split
      · exact ⟨left, rfl, seen ▸ unique, seen ▸ limited⟩
      · exact setCanonicalCookie_keeps sorts (seen ▸ unique) (seen ▸ limited) ..
include sorts in
theorem setCookieWithDetails_keeps (unique : NoDuplicates monster.cookies)
    (limited : Limited monster.cookies) (cookieDomain : Option Name)
    (create : Int → Option CanonicalCookie) (url : Url) (now : Int) :
    Keeps (monster.setCookieWithDetails partialSort cookieDomain create url now) := by
  unfold CookieMonster.setCookieWithDetails
  split
  · exact ⟨monster, rfl, unique, limited⟩
  · split
    · exact ⟨monster, rfl, unique, limited⟩
    · simp only
      let seen : CookieMonster := { monster with lastTimeSeen := monster.currentTime now }
      have unique_seen : NoDuplicates seen.cookies := unique
      have limited_seen : Limited seen.cookies := limited
      split
      · exact ⟨seen, rfl, unique, limited⟩
      · exact setCanonicalCookie_keeps sorts unique_seen limited_seen ..

omit sorts in
theorem findCookies_keeps (unique : NoDuplicates monster.cookies) (limited : Limited monster.cookies)
    (url : Url) (excludeHttponly : Bool) (now : Int) :
    ∃ left found, findCookiesForHostAndDomain getDomainAndRegistry url excludeHttponly now
      (url.host.length + 2) monster = some (left, found) ∧ NoDuplicates left.cookies ∧ Limited left.cookies := by
  obtain ⟨keys, searched⟩ := findCookiesForHostAndDomain_found url excludeHttponly now monster
    getDomainAndRegistry (Nat.lt_succ_self _)
  refine ⟨_, _, searched, swept_unique unique url excludeHttponly _ now keys, limited.keys ?_⟩
  have same : (monster.swept url excludeHttponly (monster.currentTime now) now keys).cookies.map
      CookieItem.key = (monster.cookies.filter fun item => !(decide (item.key ∈ keys) &&
        item.cookie.isExpired (monster.currentTime now))).map CookieItem.key := by
    rw [CookieMonster.swept, List.map_map]
    exact map_congr_left fun item _ => readIn_key url excludeHttponly now monster keys item
  rw [same]
  exact filter_sublist.map _
include sorts in
theorem apply_keeps (unique : NoDuplicates monster.cookies) (limited : Limited monster.cookies)
    (op : CookieOp) : Keeps (op.apply partialSort getDomainAndRegistry monster) := by
  cases op with
  | setCookie accepted url creationTimeOrNull now excludeHttponly =>
    exact setCookieWithCreationTimeAndOptions_keeps sorts unique limited ..
  | setCookieWithDetails cookieDomain create url now =>
    exact setCookieWithDetails_keeps sorts unique limited ..
  | deleteAll => exact keeps_of_sublist unique limited (deleteIf_sublist _)
  | deleteAllCreatedBetween deleteBegin deleteEnd =>
    exact keeps_of_sublist unique limited (deleteIf_sublist _)
  | deleteAllForHost url =>
    refine keeps_of_sublist unique limited ?_
    unfold CookieMonster.deleteAllForHost
    split
    · exact List.Sublist.refl _
    · exact deleteIf_sublist _
  | deleteCookie domain creationDate =>
    refine keeps_of_sublist unique limited ?_
    unfold CookieMonster.deleteCookie
    split
    · exact erase_sublist
    · exact List.Sublist.refl _
  | deleteCookieNamed url name now =>
    obtain ⟨left, found, searched, unique_left, limited_left⟩ :=
      findCookies_keeps getDomainAndRegistry unique limited url false now
    simp only [CookieOp.apply, CookieMonster.deleteCookieNamed]
    split
    · exact ⟨monster, rfl, unique, limited⟩
    · rw [searched]
      exact keeps_of_sublist unique_left limited_left (deleteIf_sublist _)
  | getCookies url excludeHttponly now =>
    obtain ⟨left, found, searched, unique_left, limited_left⟩ :=
      findCookies_keeps getDomainAndRegistry unique limited url excludeHttponly now
    simp only [CookieOp.apply, CookieMonster.getCookiesWithOptions]
    split
    · exact ⟨monster, rfl, unique, limited⟩
    · rw [searched]
      exact ⟨left, rfl, unique_left, limited_left⟩
  | getAllCookies now => exact keeps_of_sublist unique limited (deleteIf_sublist _)
include sorts in
theorem runCookieOps_keeps (unique : NoDuplicates monster.cookies) (limited : Limited monster.cookies)
    (ops : List CookieOp) : Keeps (runCookieOps partialSort getDomainAndRegistry ops monster) := by
  induction ops generalizing monster with
  | nil => exact ⟨monster, rfl, unique, limited⟩
  | cons op ops ih =>
    obtain ⟨next, applied, unique_next, limited_next⟩ :=
      apply_keeps sorts getDomainAndRegistry unique limited op
    rw [runCookieOps, foldlM_cons, applied]
    exact ih unique_next limited_next

end Runs

end CookieMonster

def lruSort (_n : Nat) (its : List CookieItem) : List CookieItem :=
  its.mergeSort fun item other => !lruCookieSorter other item

theorem lruSort_sorts : PartiallySorts lruSort := by
  have sorted : ∀ n its, (lruSort n its).Pairwise fun item other =>
      lruCookieSorter other item = false := by
    intro n its
    refine (pairwise_mergeSort ?_ ?_ its).imp fun before => ?_
    · intro x y z
      simp only [lruCookieSorter, Bool.not_eq_true', ne_eq]
      grind
    · intro x y
      simp only [lruCookieSorter, ne_eq]
      grind
    · simpa using before
  refine ⟨fun n its => mergeSort_perm its _, fun n its => ?_, fun n its => ?_⟩
  · exact (sorted n its).sublist (take_sublist n _)
  · have apart := sorted n its
    rw [← take_append_drop n (lruSort n its), pairwise_append] at apart
    exact apart.2.2

end Glopen.Net
