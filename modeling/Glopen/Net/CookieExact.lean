import Mathlib.Data.List.Perm.Basic
import Glopen.Net.CookieKeys

/-! Which cookies a URL gets, and that the set side only chooses keys that the URL looks up. -/
namespace Glopen.Net

open List

section Exact

open CookieMonster

def DotSuffix (s host : Name) : Prop := s = host ∨ ∃ front, host = front ++ dot :: s

theorem dotSuffix_iff (s host : Name) : DotSuffix s host ↔ dot :: s <:+ dot :: host := by
  rw [suffix_cons_iff, List.cons.injEq]
  constructor
  · rintro (rfl | ⟨front, rfl⟩)
    · exact .inl ⟨rfl, rfl⟩
    · exact .inr (suffix_append ..)
  · rintro (⟨-, eq⟩ | ⟨front, eq⟩)
    · exact .inl eq
    · exact .inr ⟨front, eq.symm⟩

def PathPrefix (path urlPath : Name) : Prop :=
  path ≠ [] ∧ ∃ rest, urlPath = path ++ rest ∧
    (rest = [] ∨ path.getLast? = some slash ∨ rest.head? = some slash)

theorem isOnPath_iff (cookie : CanonicalCookie) (urlPath : Name) :
    cookie.isOnPath urlPath = true ↔ PathPrefix cookie.path urlPath := by
  unfold CanonicalCookie.isOnPath PathPrefix
  by_cases empty : cookie.path = []
  · simp [empty]
  · by_cases isPrefix : cookie.path <+: urlPath
    · obtain ⟨rest, rfl⟩ := isPrefix
      have behind : (cookie.path ++ rest)[cookie.path.length]? = rest.head? := by
        rw [List.getElem?_append_right (Nat.le_refl _), Nat.sub_self, List.head?_eq_getElem?]
      cases rest with
      | nil => simp [empty]
      | cons c rest =>
        rw [behind]
        by_cases atSlash : cookie.path.getLast? = some slash <;> by_cases next : c = slash <;>
          simp [empty, atSlash, next]
    · have not_found : cookie.path.isPrefixOf urlPath = false := by
        rw [← Bool.not_eq_true, isPrefixOf_iff_prefix]
        exact isPrefix
      simp only [empty, not_found, if_false, Bool.not_false, if_true, Bool.false_eq_true, false_iff,
        not_and, not_exists]
      intro _ rest eq
      exact absurd ⟨rest, eq.symm⟩ isPrefix

structure Wanted (url : Url) (excludeHttponly : Bool) (cookie : CanonicalCookie) : Prop where
  path : PathPrefix cookie.path url.path
  secure : cookie.isSecure = true → url.isSecure = true
  httpOnly : cookie.isHttpOnly = true → excludeHttponly = false

theorem wanted_iff (url : Url) (excludeHttponly : Bool) (cookie : CanonicalCookie) :
    wanted url excludeHttponly cookie = true ↔ Wanted url excludeHttponly cookie := by
  unfold wanted
  rw [Bool.and_eq_true, Bool.and_eq_true, isOnPath_iff]
  constructor
  · rintro ⟨⟨httpOnly, secure⟩, path⟩
    refine ⟨path, fun isSecure => ?_, fun isHttpOnly => ?_⟩
    · simpa [isSecure] using secure
    · simpa [isHttpOnly] using httpOnly
  · rintro ⟨path, secure, httpOnly⟩
    refine ⟨⟨?_, ?_⟩, path⟩
    · cases isHttpOnly : cookie.isHttpOnly with
      | false => simp
      | true => simp [httpOnly isHttpOnly]
    · cases isSecure : cookie.isSecure with
      | false => simp
      | true => simp [secure isSecure]

variable (getDomainAndRegistry : Name → Name) (url : Url)

def KeyOf (key : Name) : Prop :=
  key = url.host ∨ getEffectiveDomain getDomainAndRegistry url.scheme url.host ≠ [] ∧
      ∃ s, key = dot :: s ∧ DotSuffix s url.host ∧
        (getEffectiveDomain getDomainAndRegistry url.scheme url.host).length ≤ s.length

theorem mem_searchedKeys {fuel : Nat} (enough : url.host.length < fuel) (key : Name) :
    key ∈ searchedKeys url getDomainAndRegistry fuel ↔ KeyOf getDomainAndRegistry url key := by
  unfold searchedKeys KeyOf
  rw [mem_cons]
  apply or_congr Iff.rfl
  split
  · rename_i none
    simp [none]
  · rename_i some
    constructor
    · intro walked
      obtain ⟨s, rfl⟩ := walkedKeys_dotted walked
      obtain ⟨suffix, long⟩ := (mem_walkedKeys enough s).mp walked
      exact ⟨some, s, rfl, (dotSuffix_iff s url.host).mpr suffix, long⟩
    · rintro ⟨-, s, rfl, suffix, long⟩
      exact (mem_walkedKeys enough s).mpr ⟨(dotSuffix_iff s url.host).mp suffix, long⟩

theorem searchedKeys_nodup (plain : url.host.head? ≠ some dot) (fuel : Nat) :
    (searchedKeys url getDomainAndRegistry fuel).Nodup := by
  unfold searchedKeys
  simp only
  split
  · exact nodup_singleton _
  · refine nodup_cons.mpr ⟨fun walked => ?_, walkedKeys_nodup _ fuel url.host⟩
    obtain ⟨s, eq⟩ := walkedKeys_dotted walked
    exact plain (by rw [eq]; rfl)

def Before (item other : CookieItem) : Prop :=
  other.cookie.path.length < item.cookie.path.length ∨
    other.cookie.path.length = item.cookie.path.length ∧
      item.cookie.creationDate ≤ other.cookie.creationDate

theorem before_iff (item other : CookieItem) : (!cookieSorter other item) = true ↔ Before item other := by
  unfold cookieSorter Before
  rw [Bool.not_eq_true']
  split
  · rename_i same
    rw [decide_eq_false_iff_not]
    omega
  · rename_i other_length
    rw [decide_eq_false_iff_not]
    omega

theorem sorted_by_cookieSorter (items : List CookieItem) :
    (items.mergeSort fun item other => !cookieSorter other item).Pairwise Before := by
  have sorted : (items.mergeSort fun item other => !cookieSorter other item).Pairwise
      fun item other => (!cookieSorter other item) = true := by
    apply pairwise_mergeSort
    · intro item other third
      rw [before_iff, before_iff, before_iff]
      unfold Before
      omega
    · intro item other
      rw [Bool.or_eq_true, before_iff, before_iff]
      unfold Before
      omega
  exact sorted.imp fun h => (before_iff _ _).mp h

theorem keyOf_getCookieDomainKeyWithString {canonicalizeHost : Name → Name} (registrable : ∀ domain s,
      canonicalizeHost domain = s ∨ canonicalizeHost domain = dot :: s →
        (getDomainAndRegistry (dot :: s)).length ≤ s.length)
    {domainString key : Name}
    (chosen : getCookieDomainKeyWithString getDomainAndRegistry canonicalizeHost url domainString =
      some key) : KeyOf getDomainAndRegistry url key := by
  have effective (s : Name) (canonical : canonicalizeHost domainString = s ∨
        canonicalizeHost domainString = dot :: s) :
      (getEffectiveDomain getDomainAndRegistry url.scheme (dot :: s)).length ≤ s.length := by
    unfold getEffectiveDomain
    split
    · exact registrable domainString s canonical
    · simp [domainIsHostOnly]
  unfold getCookieDomainKeyWithString at chosen
  split at chosen
  · exact .inl (Option.some.inj chosen).symm
  · simp only at chosen
    split at chosen
    · cases chosen
    · rename_i given
      -- the key is the canonical domain with one leading dot
      generalize dotted_eq : (if (canonicalizeHost domainString).head? ≠ some dot then
        dot :: canonicalizeHost domainString else canonicalizeHost domainString) = cookieDomain at chosen
      have dotted : ∃ s, cookieDomain = dot :: s ∧ (canonicalizeHost domainString = s ∨
          canonicalizeHost domainString = dot :: s) := by
        subst cookieDomain
        split
        · exact ⟨_, rfl, .inl rfl⟩
        · rename_i leading
          cases canonical : canonicalizeHost domainString with
          | nil => exact absurd canonical given
          | cons c s =>
            rw [canonical] at leading
            simp only [List.head?_cons, ne_eq, not_not, Option.some.injEq] at leading
            exact ⟨s, by rw [leading], .inr (by rw [leading])⟩
      obtain ⟨s, rfl, canonical_s⟩ := dotted
      split at chosen
      · cases chosen
      · rename_i some_domain
        split at chosen
        · cases chosen
        · rename_i same_domain
          have long := effective s canonical_s
          rw [← not_not.mp same_domain] at long
          split at chosen
          · split at chosen
            · cases chosen
            · rename_i whole
              simp only [decide_eq_true_eq, ne_eq, not_not, List.cons.injEq, true_and] at whole
              exact .inr ⟨some_domain, s, (Option.some.inj chosen).symm, .inl whole, long⟩
          · split at chosen
            · cases chosen
            · rename_i ending
              simp only [decide_eq_true_eq, ne_eq, not_not] at ending
              have split := take_append_drop (url.host.length - (dot :: s).length) url.host
              rw [ending] at split
              exact .inr ⟨some_domain, s, (Option.some.inj chosen).symm, .inr ⟨_, split.symm⟩, long⟩

section Returned

variable (getDomainAndRegistry : Name → Name) (url : Url)

instance (key : Name) : Decidable (KeyOf getDomainAndRegistry url key) :=
  decidable_of_iff _ (mem_searchedKeys getDomainAndRegistry url (Nat.lt_succ_self _) key)

instance (excludeHttponly : Bool) (cookie : CanonicalCookie) :
    Decidable (Wanted url excludeHttponly cookie) :=
  decidable_of_iff _ (wanted_iff url excludeHttponly cookie)

structure Returned (excludeHttponly : Bool) (current : Int) (item : CookieItem) : Prop where
  unexpired : item.cookie.isExpired current = false
  key : KeyOf getDomainAndRegistry url item.key
  wanted : Wanted url excludeHttponly item.cookie

instance (excludeHttponly : Bool) (current : Int) (item : CookieItem) :
    Decidable (Returned getDomainAndRegistry url excludeHttponly current item) :=
  decidable_of_iff (item.cookie.isExpired current = false ∧ KeyOf getDomainAndRegistry url item.key ∧
    Wanted url excludeHttponly item.cookie)
    ⟨fun ⟨unexpired, key, wanted⟩ => ⟨unexpired, key, wanted⟩,
      fun ⟨unexpired, key, wanted⟩ => ⟨unexpired, key, wanted⟩⟩

variable (excludeHttponly : Bool) (current now : Int) (monster : CookieMonster)

theorem mem_matching (key : Name) (read : CookieItem) :
    read ∈ monster.matching url excludeHttponly current now key ↔
      ∃ item ∈ monster.cookies, (item.key = key ∧ item.cookie.isExpired current = false ∧
        Wanted url excludeHttponly item.cookie) ∧
          updateAccessTime now monster.lastAccessThreshold item = read := by
  unfold CookieMonster.matching
  rw [List.mem_map]
  apply exists_congr
  intro item
  simp only [mem_filter, Bool.and_eq_true, wanted_iff, decide_eq_true_eq, Bool.not_eq_true', and_assoc]

theorem mem_found {fuel : Nat} (enough : url.host.length < fuel) (read : CookieItem) :
    read ∈ (searchedKeys url getDomainAndRegistry fuel).flatMap
        (monster.matching url excludeHttponly current now) ↔
      ∃ item ∈ monster.cookies, Returned getDomainAndRegistry url excludeHttponly current item ∧
        read = updateAccessTime now monster.lastAccessThreshold item := by
  rw [mem_flatMap]
  constructor
  · rintro ⟨key, searched, found⟩
    obtain ⟨item, isIn, ⟨rfl, unexpired, want⟩, rfl⟩ :=
      (mem_matching url excludeHttponly current now monster key read).mp found
    exact ⟨item, isIn, ⟨unexpired,
      (mem_searchedKeys getDomainAndRegistry url enough item.key).mp searched, want⟩, rfl⟩
  · rintro ⟨item, isIn, ⟨unexpired, key, want⟩, rfl⟩
    exact ⟨item.key, (mem_searchedKeys getDomainAndRegistry url enough item.key).mpr key,
      (mem_matching url excludeHttponly current now monster item.key _).mpr
        ⟨item, isIn, ⟨rfl, unexpired, want⟩, rfl⟩⟩

theorem flatMap_keys_perm (items : List CookieItem) (p : CookieItem → Bool) {keys : List Name}
    (nodup : keys.Nodup) : (keys.flatMap fun key => items.filter fun item => item.key = key && p item).Perm
      (items.filter fun item => item.key ∈ keys && p item) := by
  induction keys with
  | nil => simp
  | cons key keys ih =>
    obtain ⟨fresh, nodup⟩ := nodup_cons.mp nodup
    rw [flatMap_cons]
    refine List.Perm.trans ((ih nodup).append_left _) ?_
    have split := filter_append_perm (fun item : CookieItem => decide (item.key = key))
      (items.filter fun item => item.key ∈ key :: keys && p item)
    rw [List.filter_filter, List.filter_filter] at split
    have here : (items.filter fun item => decide (item.key = key) &&
        (decide (item.key ∈ key :: keys) && p item)) =
        items.filter fun item => decide (item.key = key) && p item := by
      apply filter_congr
      intro item _
      by_cases same : item.key = key <;> simp [same]
    have elsewhere : (items.filter fun item => !decide (item.key = key) &&
        (decide (item.key ∈ key :: keys) && p item)) =
        items.filter fun item => decide (item.key ∈ keys) && p item := by
      apply filter_congr
      intro item _
      by_cases same : item.key = key
      · simp [same, fresh]
      · simp [same]
    rw [here, elsewhere] at split
    exact split

theorem found_perm (plain : url.host.head? ≠ some dot) {fuel : Nat} (enough : url.host.length < fuel) :
    ((searchedKeys url getDomainAndRegistry fuel).flatMap
        (monster.matching url excludeHttponly current now)).Perm
      ((monster.cookies.filter fun item =>
        Returned getDomainAndRegistry url excludeHttponly current item).map
          (updateAccessTime now monster.lastAccessThreshold)) := by
  have perm := flatMap_keys_perm monster.cookies
    (fun item => !item.cookie.isExpired current && wanted url excludeHttponly item.cookie)
    (searchedKeys_nodup getDomainAndRegistry url plain fuel)
  have returned : (monster.cookies.filter fun item =>
        decide (item.key ∈ searchedKeys url getDomainAndRegistry fuel) &&
          (!item.cookie.isExpired current && wanted url excludeHttponly item.cookie)) =
      monster.cookies.filter fun item =>
        Returned getDomainAndRegistry url excludeHttponly current item := by
    apply filter_congr
    intro item _
    rw [Bool.eq_iff_iff]
    simp only [Bool.and_eq_true, decide_eq_true_eq, Bool.not_eq_true', wanted_iff,
      mem_searchedKeys getDomainAndRegistry url enough]
    constructor
    · rintro ⟨key, unexpired, want⟩
      exact ⟨unexpired, key, want⟩
    · rintro ⟨unexpired, key, want⟩
      exact ⟨key, unexpired, want⟩
  rw [returned] at perm
  have mapped := perm.map (updateAccessTime now monster.lastAccessThreshold)
  rw [map_flatMap] at mapped
  have same (key : Name) : ((monster.cookies.filter fun item => decide (item.key = key) &&
      (!item.cookie.isExpired current && wanted url excludeHttponly item.cookie)).map
        (updateAccessTime now monster.lastAccessThreshold)) =
      monster.matching url excludeHttponly current now key := by
    simp only [CookieMonster.matching, Bool.and_assoc]
  simp only [same] at mapped
  exact mapped

end Returned

/-- What a URL with a cookieable scheme gets. -/
theorem getCookiesWithOptions_exact (getDomainAndRegistry canonicalizeHost : Name → Name)
    (registrable : ∀ domain s, canonicalizeHost domain = s ∨ canonicalizeHost domain = dot :: s →
      (getDomainAndRegistry (dot :: s)).length ≤ s.length)
    (monster : CookieMonster) (url : Url) (excludeHttponly : Bool) (now : Int)
    (cookieable : url.scheme ∈ monster.cookieableSchemes) (fuel : Nat) (enough : url.host.length + 1 < fuel) :
    ∃ left found, getCookiesWithOptions getDomainAndRegistry url excludeHttponly now fuel monster =
        some (left, found) ∧
      (∀ read, read ∈ found ↔ ∃ item ∈ monster.cookies,
        Returned getDomainAndRegistry url excludeHttponly (monster.currentTime now) item ∧
          read = updateAccessTime now monster.lastAccessThreshold item) ∧
      found.Pairwise Before ∧
      (url.host.head? ≠ some dot → found.Perm ((monster.cookies.filter fun item =>
          Returned getDomainAndRegistry url excludeHttponly (monster.currentTime now) item).map
            (updateAccessTime now monster.lastAccessThreshold))) ∧
      ∀ domainString key,
        getCookieDomainKeyWithString getDomainAndRegistry canonicalizeHost url domainString = some key →
        ∀ item ∈ monster.cookies, item.key = key → item.cookie.isExpired (monster.currentTime now) = false →
          Wanted url excludeHttponly item.cookie →
          updateAccessTime now monster.lastAccessThreshold item ∈ found := by
  obtain ⟨keys, searched⟩ := findCookiesForHostAndDomain_found url excludeHttponly now monster
    getDomainAndRegistry enough
  have scheme : monster.hasCookieableScheme url = true := decide_eq_true cookieable
  have short : url.host.length < fuel := by omega
  have exact_read (read : CookieItem) := mem_found getDomainAndRegistry url excludeHttponly
    (monster.currentTime now) now monster short read
  refine ⟨_, _, by simp only [getCookiesWithOptions, scheme, searched]; rfl, ?_, ?_, ?_, ?_⟩
  · intro read
    rw [List.mem_mergeSort]
    exact exact_read read
  · exact sorted_by_cookieSorter _
  · intro plain
    exact (List.mergeSort_perm _ _).trans (found_perm getDomainAndRegistry url excludeHttponly
      (monster.currentTime now) now monster plain short)
  · intro domainString key chosen item isIn same unexpired want
    rw [List.mem_mergeSort, exact_read]
    have isKey := keyOf_getCookieDomainKeyWithString getDomainAndRegistry url registrable chosen
    exact ⟨item, isIn, ⟨unexpired, same ▸ isKey, want⟩, rfl⟩

theorem getDomainAndRegistryImpl_dotted {findDomain : FindDomain} {s domain : Name}
    (decided : getDomainAndRegistryImpl findDomain (dot :: s) = some domain) : domain.length ≤ s.length := by
  unfold getDomainAndRegistryImpl at decided
  obtain ⟨decision, -, rfl⟩ := Option.map_eq_some_iff.mp decided
  split
  · exact Nat.zero_le _
  · split
    · rename_i none_found
      -- the leading dot is always found
      simp only [rfindDot, Option.map_eq_none_iff, List.findIdx?_eq_none_iff] at none_found
      have first : dot ∈ ((dot :: s).take ((dot :: s).length - decision.length - 2 + 1)).reverse := by
        rw [mem_reverse, take_succ_cons]
        exact mem_cons_self ..
      simpa using none_found dot first
    · rename_i position _
      rw [length_drop, length_cons]
      omega

def sessionCookie (path : Name) : CanonicalCookie where
  name := [110]
  value := [118]
  path
  creationDate := 1
  lastAccessDate := 1
  expiryDate := 0
  hasExpires := false
  isSecure := false
  isHttpOnly := false

/-- A cookie of `.a.b` and one of `x.a.b`. -/
def domainMonster : CookieMonster :=
  ⟨[⟨[46, 97, 46, 98], sessionCookie [47]⟩, ⟨[120, 46, 97, 46, 98], sessionCookie [47, 112]⟩], 0, 60,
    [http, https]⟩

def urlOf (scheme : Name) : Url := ⟨scheme, [120, 46, 97, 46, 98], [47, 112], false, false⟩

/-- The registrable domain under one rule, `b`. -/
def registryB (host : Name) : Name :=
  (getDomainAndRegistryImpl (fun name => if name = [98] then some ⟨[98], .normal⟩ else none) host).getD []

theorem registryB_dotted (s : Name) : (registryB (dot :: s)).length ≤ s.length := by
  unfold registryB
  cases decided : getDomainAndRegistryImpl
    (fun name => if name = [98] then some ⟨[98], .normal⟩ else none) (dot :: s) with
  | none => exact Nat.zero_le _
  | some domain => exact getDomainAndRegistryImpl_dotted decided

theorem getCookiesWithOptions_exact_domain :
    ∃ left found, getCookiesWithOptions registryB (urlOf http) false 9 7 domainMonster =
      some (left, found) ∧ ⟨[46, 97, 46, 98], sessionCookie [47]⟩ ∈ found := by
  obtain ⟨left, found, got, exact_found, -⟩ := getCookiesWithOptions_exact registryB id
    (fun _ s _ => registryB_dotted s) domainMonster (urlOf http) false 9 (by decide) 7 (by decide)
  exact ⟨left, found, got, (exact_found _).mpr
    ⟨⟨[46, 97, 46, 98], sessionCookie [47]⟩, by decide, by decide, by decide⟩⟩

/-- A URL with another scheme gets nothing, whatever matches it. -/
theorem other_scheme_gets_nothing : Returned registryB (urlOf [102]) false (domainMonster.currentTime 9)
        ⟨[120, 46, 97, 46, 98], sessionCookie [47, 112]⟩ ∧
      getCookiesWithOptions registryB (urlOf [102]) false 9 7 domainMonster = some (domainMonster, []) := by
  constructor
  · decide
  · rfl

end Exact

end Glopen.Net
