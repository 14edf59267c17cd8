import Glopen.Net.CookieUnique

/-! The operations on the cookie map keep it free of duplicates, so that the `CHECK` cannot fail, unless
the store has loaded two cookies that only their values tell apart. -/
namespace Glopen.Net

open CookieMonster List
variable {items : List CookieItem} {monster : CookieMonster}

theorem NoDuplicates.sublist {others : List CookieItem} (unique : NoDuplicates items)
    (sublist : others.Sublist items) : NoDuplicates others := List.Pairwise.sublist sublist unique

theorem NoDuplicates.nodup (unique : NoDuplicates items) : items.Nodup :=
  by
  refine List.Pairwise.imp (fun {item other} apart eq => apart ?_) unique
  rw [eq]
  exact ⟨rfl, rfl⟩

theorem NoDuplicates.eq_of_same (unique : NoDuplicates items)
    {item other : CookieItem} (isIn : item ∈ items) (isOther : other ∈ items)
    (same : Same item other) : item = other := by
  have symm : Std.Symm fun item other : CookieItem => ¬ Same item other :=
    ⟨fun _ _ apart same => apart same.symm⟩
  by_contra different
  exact unique.forall isIn isOther different same

section Delete

theorem deleteIf_sublist (gone : CookieItem → Bool) :
    (monster.deleteIf gone).cookies.Sublist monster.cookies := filter_sublist

theorem internalDeleteCookies_sublist (items : List CookieItem) (monster : CookieMonster) :
    (items.foldl (fun monster item => monster.internalDeleteCookie item) monster).cookies.Sublist
      monster.cookies := by
  induction items generalizing monster with
  | nil => exact List.Sublist.refl _
  | cons item items ih => exact (ih (monster.internalDeleteCookie item)).trans erase_sublist

variable (partialSort : Nat → List CookieItem → List CookieItem)

theorem garbageCollectRange_sublist (current : Int) (inRange : CookieItem → Bool) (numMax numPurge : Nat) :
    (monster.garbageCollectRange partialSort current inRange numMax numPurge).cookies.Sublist
      monster.cookies := by
  unfold CookieMonster.garbageCollectRange
  simp only
  split
  · exact (internalDeleteCookies_sublist _ _).trans (deleteIf_sublist _)
  · exact deleteIf_sublist _

theorem garbageCollect_sublist (current : Int) (key : Name) :
    (monster.garbageCollect partialSort current key).cookies.Sublist monster.cookies := by
  have first : (if (monster.equalRange key).length > kNumCookiesPerHost then
      monster.garbageCollectRange partialSort current (fun item => item.key = key) kNumCookiesPerHost
        kNumCookiesPerHostPurge
      else monster).cookies.Sublist monster.cookies := by
    split
    · exact garbageCollectRange_sublist ..
    · exact List.Sublist.refl _
  unfold CookieMonster.garbageCollect
  simp only
  generalize (if (monster.equalRange key).length > kNumCookiesPerHost then _ else monster) = left
    at first ⊢
  split
  · exact (garbageCollectRange_sublist ..).trans first
  · exact first

end Delete

section Set

variable {key : Name} {ecc : CanonicalCookie}

theorem deleteEquivalentLoop_rest (skipHttponly found skipped : Bool)
    (none_left : ∀ item ∈ items, ecc.isEquivalent item.cookie = false) :
    deleteEquivalentLoop ecc skipHttponly found skipped items monster = some (monster, skipped) := by
  induction items with
  | nil => rfl
  | cons item items ih =>
    obtain ⟨first, rest⟩ := forall_mem_cons.mp none_left
    rw [deleteEquivalentLoop, first]
    exact ih rest

theorem deleteEquivalentLoop_one (monster : CookieMonster) (skipHttponly : Bool)
    (one : items.Pairwise fun item other =>
      ¬ (ecc.isEquivalent item.cookie = true ∧ ecc.isEquivalent other.cookie = true)) :
    deleteEquivalentLoop ecc skipHttponly false false items monster = some (monster, true) ∨
      (∀ item ∈ items, ecc.isEquivalent item.cookie = false) ∨
      ∃ item ∈ items, ecc.isEquivalent item.cookie = true ∧
        deleteEquivalentLoop ecc skipHttponly false false items monster =
          some (monster.internalDeleteCookie item, false) := by
  induction items with
  | nil => exact .inr (.inl nofun)
  | cons item items ih =>
    obtain ⟨first, rest⟩ := pairwise_cons.mp one
    rw [deleteEquivalentLoop]
    cases equivalent : ecc.isEquivalent item.cookie with
    | true =>
      have none_left (other : CookieItem) (isIn : other ∈ items) : ecc.isEquivalent other.cookie = false := by
        rw [← Bool.not_eq_true]
        exact fun also => first other isIn ⟨equivalent, also⟩
      simp only [if_true, Bool.false_eq_true, if_false]
      split
      · exact .inl (deleteEquivalentLoop_rest _ _ _ none_left)
      · exact .inr (.inr ⟨item, mem_cons_self .., equivalent, deleteEquivalentLoop_rest _ _ _ none_left⟩)
    | false =>
      simp only [Bool.false_eq_true, if_false]
      obtain skipped | nothing | ⟨other, isIn, also, deleted⟩ := ih rest
      · exact .inl skipped
      · exact .inr (.inl (forall_mem_cons.mpr ⟨equivalent, nothing⟩))
      · exact .inr (.inr ⟨other, mem_cons_of_mem item isIn, also, deleted⟩)

theorem isEquivalent_iff (key : Name) (ecc : CanonicalCookie) (item : CookieItem) :
    ecc.isEquivalent item.cookie = true ↔ item.signature = CookieItem.signature ⟨key, ecc⟩ := by
  unfold CanonicalCookie.isEquivalent CookieItem.signature
  rw [Bool.and_eq_true, decide_eq_true_eq, decide_eq_true_eq, Prod.mk.injEq]
  exact ⟨fun ⟨name, path⟩ => ⟨name.symm, path.symm⟩, fun ⟨name, path⟩ => ⟨name.symm, path.symm⟩⟩

theorem deleteAnyEquivalentCookie_valid (key : Name) (ecc : CanonicalCookie) (skipHttponly : Bool) (unique : NoDuplicates monster.cookies) :
    ∃ left skipped, monster.deleteAnyEquivalentCookie key ecc skipHttponly = some (left, skipped) ∧
      left.cookies.Sublist monster.cookies ∧
      (skipped = false → ∀ item ∈ left.cookies, ¬ Same item ⟨key, ecc⟩) := by
  have in_range (item : CookieItem) : item ∈ monster.equalRange key ↔
      item ∈ monster.cookies ∧ item.key = key := by
    rw [CookieMonster.equalRange, mem_filter, decide_eq_true_eq]
  have one : (monster.equalRange key).Pairwise fun item other =>
      ¬ (ecc.isEquivalent item.cookie = true ∧ ecc.isEquivalent other.cookie = true) := by
    refine (unique.sublist filter_sublist).imp_of_mem fun {x y} isX isY apart both => apart ?_
    rw [isEquivalent_iff key ecc, isEquivalent_iff key ecc] at both
    exact ⟨((in_range x).mp isX).2.trans ((in_range y).mp isY).2.symm, both.1.trans both.2.symm⟩
  unfold CookieMonster.deleteAnyEquivalentCookie
  obtain skipped | nothing | ⟨item, isIn, equivalent, deleted⟩ :=
    deleteEquivalentLoop_one monster skipHttponly one
  · exact ⟨monster, true, skipped, List.Sublist.refl _, nofun⟩
  · refine ⟨monster, false, deleteEquivalentLoop_rest _ _ _ nothing, List.Sublist.refl _, ?_⟩
    rintro - item isIn ⟨same_key, signature⟩
    have absent := nothing item ((in_range item).mpr ⟨isIn, same_key⟩)
    rw [(isEquivalent_iff key ecc item).mpr signature] at absent
    cases absent
  · refine ⟨_, false, deleted, erase_sublist, ?_⟩
    rintro - other isOther ⟨same_key, signature⟩
    obtain ⟨different, isOther⟩ := unique.nodup.mem_erase_iff.mp isOther
    obtain ⟨isIn, item_key⟩ := (in_range item).mp isIn
    rw [isEquivalent_iff key ecc] at equivalent
    exact different (unique.eq_of_same isOther isIn
      ⟨same_key.trans item_key.symm, signature.trans equivalent.symm⟩)

end Set

section Operations

variable (partialSort : Nat → List CookieItem → List CookieItem) (getDomainAndRegistry : Name → Name)

def Valid (result : Option CookieMonster) : Prop :=
  ∃ left, result = some left ∧ NoDuplicates left.cookies

section

variable (unique : NoDuplicates monster.cookies)
include unique

theorem valid_sublist {left : CookieMonster}
    (sublist : left.cookies.Sublist monster.cookies) : Valid (some left) :=
  ⟨left, rfl, unique.sublist sublist⟩

theorem setCanonicalCookie_valid (key : Name)
    (cookie : CanonicalCookie) (creationTime : Int) (excludeHttponly : Bool) :
    Valid (monster.setCanonicalCookie partialSort key cookie creationTime excludeHttponly) := by
  obtain ⟨left, skipped, deleted, sublist, absent⟩ :=
    deleteAnyEquivalentCookie_valid key cookie excludeHttponly unique
  have unique_left := unique.sublist sublist
  unfold CookieMonster.setCanonicalCookie
  rw [deleted]
  cases skipped with
  | true => exact ⟨left, rfl, unique_left⟩
  | false =>
    have inserted : NoDuplicates (if cookie.isExpired creationTime then left
        else left.internalInsertCookie ⟨key, cookie⟩).cookies := by
      split
      · exact unique_left
      · refine pairwise_append.mpr ⟨unique_left, pairwise_singleton _ _, ?_⟩
        intro item isIn other isOther
        rw [mem_singleton.mp isOther]
        exact absent rfl item isIn
    exact ⟨_, rfl, inserted.sublist (garbageCollect_sublist partialSort creationTime key)⟩

theorem setCookieWithCreationTimeAndOptions_valid
    (accepted : Int → Option (Name × CanonicalCookie)) (url : Url) (creationTimeOrNull now : Int)
    (excludeHttponly : Bool) :
    Valid (monster.setCookieWithCreationTimeAndOptions partialSort accepted url creationTimeOrNull now
      excludeHttponly) := by
  unfold CookieMonster.setCookieWithCreationTimeAndOptions
  split
  · exact ⟨monster, rfl, unique⟩
  · simp only
    generalize (if creationTimeOrNull = 0 then monster.currentTime now else creationTimeOrNull) = creationTime
    have seen : NoDuplicates (if creationTimeOrNull = 0 then
        { monster with lastTimeSeen := creationTime } else monster).cookies := by
      split <;> exact unique
    generalize (if creationTimeOrNull = 0 then { monster with lastTimeSeen := creationTime }
      else monster) = left at seen ⊢
    split
    · exact ⟨left, rfl, seen⟩
    · split
      · exact ⟨left, rfl, seen⟩
      · exact setCanonicalCookie_valid partialSort seen ..

theorem setCookieWithDetails_valid (cookieDomain : Option Name)
    (create : Int → Option CanonicalCookie) (url : Url) (now : Int) :
    Valid (monster.setCookieWithDetails partialSort cookieDomain create url now) := by
  unfold CookieMonster.setCookieWithDetails
  split
  · exact ⟨monster, rfl, unique⟩
  · split
    · exact ⟨monster, rfl, unique⟩
    · simp only
      have seen : NoDuplicates
          { monster with lastTimeSeen := monster.currentTime now : CookieMonster }.cookies := unique
      split
      · exact ⟨_, rfl, seen⟩
      · exact setCanonicalCookie_valid partialSort seen ..

end

theorem readIn_signature (url : Url) (excludeHttponly : Bool) (now : Int) (keys : List Name)
    (item : CookieItem) : (monster.readIn url excludeHttponly now keys item).signature = item.signature := by
  obtain same | read := readIn_cases url excludeHttponly now monster keys item
  · rw [same]
  · rw [read]
    unfold updateAccessTime
    split <;> rfl

theorem swept_unique (unique : NoDuplicates monster.cookies) (url : Url) (excludeHttponly : Bool)
    (current now : Int) (keys : List Name) :
    NoDuplicates (monster.swept url excludeHttponly current now keys).cookies := by
  unfold NoDuplicates CookieMonster.swept
  rw [pairwise_map]
  refine (unique.sublist filter_sublist).imp fun {x y} apart same => apart ?_
  obtain ⟨key, signature⟩ := same
  rw [readIn_key, readIn_key] at key
  rw [readIn_signature, readIn_signature] at signature
  exact ⟨key, signature⟩

theorem findCookies_valid (unique : NoDuplicates monster.cookies) (url : Url) (excludeHttponly : Bool)
    (now : Int) : ∃ left found, findCookiesForHostAndDomain getDomainAndRegistry url excludeHttponly
      now (url.host.length + 2) monster = some (left, found) ∧ NoDuplicates left.cookies := by
  obtain ⟨keys, searched⟩ := findCookiesForHostAndDomain_found url excludeHttponly now monster
    getDomainAndRegistry (Nat.lt_succ_self _)
  exact ⟨_, _, searched, swept_unique unique url excludeHttponly _ now keys⟩

inductive CookieOp where
  | setCookie (accepted : Int → Option (Name × CanonicalCookie)) (url : Url)
      (creationTimeOrNull now : Int) (excludeHttponly : Bool)
  | setCookieWithDetails (cookieDomain : Option Name) (create : Int → Option CanonicalCookie)
      (url : Url) (now : Int)
  | deleteAll
  | deleteAllCreatedBetween (deleteBegin deleteEnd : Int)
  | deleteAllForHost (url : Url)
  | deleteCookie (domain : Name) (creationDate : Int)
  | deleteCookieNamed (url : Url) (name : Name) (now : Int)
  | getCookies (url : Url) (excludeHttponly : Bool) (now : Int)
  | getAllCookies (now : Int)

def CookieOp.apply (monster : CookieMonster) : CookieOp → Option CookieMonster
  | .setCookie accepted url creationTimeOrNull now excludeHttponly =>
    monster.setCookieWithCreationTimeAndOptions partialSort accepted url creationTimeOrNull now
      excludeHttponly
  | .setCookieWithDetails cookieDomain create url now =>
    monster.setCookieWithDetails partialSort cookieDomain create url now
  | .deleteAll => some monster.deleteAll
  | .deleteAllCreatedBetween deleteBegin deleteEnd =>
    some (monster.deleteAllCreatedBetween deleteBegin deleteEnd)
  | .deleteAllForHost url => some (monster.deleteAllForHost url)
  | .deleteCookie domain creationDate => some (monster.deleteCookie domain creationDate)
  | .deleteCookieNamed url name now =>
    monster.deleteCookieNamed getDomainAndRegistry url name now (url.host.length + 2)
  | .getCookies url excludeHttponly now =>
    (monster.getCookiesWithOptions getDomainAndRegistry url excludeHttponly now
      (url.host.length + 2)).map Prod.fst
  | .getAllCookies now => some (monster.getAllCookies now)

theorem apply_valid (unique : NoDuplicates monster.cookies) (op : CookieOp) :
    Valid (op.apply partialSort getDomainAndRegistry monster) := by
  cases op with
  | setCookie accepted url creationTimeOrNull now excludeHttponly =>
    exact setCookieWithCreationTimeAndOptions_valid partialSort unique ..
  | setCookieWithDetails cookieDomain create url now =>
    exact setCookieWithDetails_valid partialSort unique ..
  | deleteAll => exact valid_sublist unique (deleteIf_sublist _)
  | deleteAllCreatedBetween deleteBegin deleteEnd => exact valid_sublist unique (deleteIf_sublist _)
  | deleteAllForHost url =>
    refine valid_sublist unique ?_
    unfold CookieMonster.deleteAllForHost
    split
    · exact List.Sublist.refl _
    · exact deleteIf_sublist _
  | deleteCookie domain creationDate =>
    refine valid_sublist unique ?_
    unfold CookieMonster.deleteCookie
    split
    · exact erase_sublist
    · exact List.Sublist.refl _
  | deleteCookieNamed url name now =>
    obtain ⟨left, found, searched, unique_left⟩ := findCookies_valid getDomainAndRegistry unique url false now
    simp only [CookieOp.apply, CookieMonster.deleteCookieNamed]
    split
    · exact ⟨monster, rfl, unique⟩
    · rw [searched]
      exact valid_sublist unique_left (deleteIf_sublist _)
  | getCookies url excludeHttponly now =>
    obtain ⟨left, found, searched, unique_left⟩ := findCookies_valid getDomainAndRegistry unique url
      excludeHttponly now
    simp only [CookieOp.apply, CookieMonster.getCookiesWithOptions]
    split
    · exact ⟨monster, rfl, unique⟩
    · rw [searched]
      exact ⟨left, rfl, unique_left⟩
  | getAllCookies now => exact valid_sublist unique (deleteIf_sublist _)

/-- `none`: a `CHECK` has failed. -/
def runCookieOps (ops : List CookieOp) (monster : CookieMonster) : Option CookieMonster :=
  ops.foldlM (fun monster op => op.apply partialSort getDomainAndRegistry monster) monster

theorem runCookieOps_valid (unique : NoDuplicates monster.cookies) (ops : List CookieOp) :
    Valid (runCookieOps partialSort getDomainAndRegistry ops monster) := by
  induction ops generalizing monster with
  | nil => exact ⟨monster, rfl, unique⟩
  | cons op ops ih =>
    obtain ⟨next, applied, unique_next⟩ := apply_valid partialSort getDomainAndRegistry unique op
    obtain ⟨left, done, unique_left⟩ := ih unique_next
    refine ⟨left, ?_, unique_left⟩
    rw [runCookieOps, foldlM_cons, applied]
    exact done

end Operations

/-- Every run keeps the cookies apart exactly when the store has not loaded two cookies with one key,
name, path and creation time. -/
theorem cookies_unique_iff (partialSort : Nat → List CookieItem → List CookieItem)
    (getDomainAndRegistry : Name → Name) (lastAccessThreshold : Int) (cookieableSchemes : List Name)
    (loaded : List CookieItem) : (∀ ops, ∃ left, runCookieOps partialSort getDomainAndRegistry ops
        (initStore lastAccessThreshold cookieableSchemes loaded) = some left ∧
      NoDuplicates left.cookies) ↔ Distinct loaded := by
  rw [← noDuplicates_ensure (Nat.le_refl loaded.length)]
  constructor
  · intro runs
    obtain ⟨left, done, unique⟩ := runs []
    rw [← Option.some.inj done] at unique
    exact unique
  · intro unique ops
    exact runCookieOps_valid partialSort getDomainAndRegistry unique ops

def twiceStored : CookieItem where
  key := [97]
  cookie :=
    { name := [110], value := [118], path := [47], creationDate := 1, lastAccessDate := 1
      expiryDate := 0, hasExpires := false, isSecure := false, isHttpOnly := false }

/-- Both stay in the map, and the next cookie of that name fails the `CHECK`. -/
theorem stored_twice_fails_check :
    ¬ NoDuplicates (initStore 60 [http, https] [twiceStored, twiceStored]).cookies ∧
      runCookieOps (fun _ => id) id
          [.setCookie (fun _ => some ([97], twiceStored.cookie)) ⟨http, [97], [47], false, false⟩ 0 2 false]
          (initStore 60 [http, https] [twiceStored, twiceStored]) = none := by
  constructor
  · intro unique
    exact (List.pairwise_cons.mp unique).1 twiceStored (by decide) ⟨rfl, rfl⟩
  · rfl

end Glopen.Net
