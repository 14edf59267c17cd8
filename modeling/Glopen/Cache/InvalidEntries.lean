import Glopen.Cache.LookupRuns

/-! What the operations make of the invalid entries in the chains of an index. -/
namespace Glopen.Cache

open Run List Option
variable {t u : CacheAddr} {as bs : List CacheAddr}

section Paths

variable {entries : CacheAddr → Option EntryRecord} {s : CacheAddr}

theorem Path.append (path : Path entries s as t) (rest : Path entries t bs u) : Path entries s (as ++ bs) u := by
  induction path with
  | nil a => exact rest
  | cons here _ ih => exact .cons here (ih rest)

theorem Path.links {entries' : CacheAddr → Option EntryRecord} (path : Path entries s as t)
    (same : ∀ a ∈ as, (entries' a).map EntryRecord.next = (entries a).map EntryRecord.next) :
    Path entries' s as t := by
  induction path with
  | nil a => exact .nil a
  | @cons a t as record here _ ih =>
    have link := same a mem_cons_self
    rw [here, map_some, map_eq_some_iff] at link
    obtain ⟨held, there, next⟩ := link
    refine .cons there ?_
    rw [next]
    exact ih fun b member => same b (mem_cons_of_mem _ member)

theorem Path.split (path : Path entries s (as ++ bs) u) : ∃ t, Path entries s as t ∧ Path entries t bs u := by
  induction as generalizing s with
  | nil => exact ⟨s, .nil s, path⟩
  | cons a as ih =>
    cases path with
    | cons here rest =>
      obtain ⟨t, front, back⟩ := ih rest
      exact ⟨t, .cons here front, back⟩

end Paths

namespace EntryIndex

section Chains

variable (hash : List UInt8 → UInt32) (index : EntryIndex) (bucket : UInt32)

structure Readable (a : CacheAddr) (record : EntryRecord) (dirty : Bool) : Prop where
  block : a.isBlockOf .block256 = true
  accepted : index.newEntry a = .ok (record, dirty)
  hashed : record.hash = hash record.key
  length : record.keyLen = record.key.length
  placed : record.hash &&& index.mask = bucket
  usable : (index.nodes record.rankingsNode).any (fun node => node.removable && node.writable) = true

def nodeOf (a : CacheAddr) : Option CacheAddr := (index.entries a).map EntryRecord.rankingsNode

/-- A chain of clean and invalid entries in any order, from the table to the address `t`. -/
structure Mixed (as : List CacheAddr) (t : CacheAddr) : Prop where
  enabled : index.disabled = false
  path : Path index.entries (index.table bucket) as t
  nodup : as.Nodup
  readable : ∀ a ∈ as, ∃ record dirty, index.Readable hash bucket a record dirty
  apart : ∀ a ∈ as, ∀ b ∈ as, index.nodeOf a = index.nodeOf b → a = b

def hasKey (key : List UInt8) (a : CacheAddr) : Bool :=
  match index.newEntry a with
  | .ok (record, false) => record.key = key
  | _ => false

def firstClean (key : List UInt8) (as : List CacheAddr) : Option CacheAddr :=
  as.find? (index.hasKey key)

structure Carries (as : List CacheAddr) (after : EntryIndex) (as' : List CacheAddr) : Prop where
  mask : after.mask = index.mask
  entry : ∀ a ∈ as, ∀ record, index.newEntry a = .ok (record, false) →
    a ∈ as' ∧ ∃ next, after.newEntry a = .ok ({ record with next := next }, false)

def Keeps (as : List CacheAddr) (after : EntryIndex) : Prop :=
  ∃ as' t, Mixed hash after bucket as' t ∧ t.isInitialized = false ∧ index.Carries as after as'

end Chains

variable {hash : List UInt8 → UInt32} {index : EntryIndex} {bucket : UInt32} {key : List UInt8} {k i : Nat}
  {a : CacheAddr} {record : EntryRecord} {dirty : Bool} {after : EntryIndex}
  {as' front back : List CacheAddr} {linked : EntryIndex} {services : Services}

theorem chainAt_path (path : Path index.entries (index.chainAt bucket i) as t) :
    (∀ j (inside : j < as.length), index.chainAt bucket (i + j) = as[j]) ∧
      index.chainAt bucket (i + as.length) = t := by
  induction as generalizing i with
  | nil =>
    cases path
    exact ⟨fun j inside => absurd inside (Nat.not_lt_zero j), rfl⟩
  | cons a as ih =>
    generalize first : index.chainAt bucket i = s at path
    cases path with
    | @cons _ _ _ record here rest =>
      have next : index.chainAt bucket (i + 1) = record.next := by
        rw [chainAt, first, here]
        rfl
      rw [← next] at rest
      obtain ⟨places, last⟩ := ih rest
      constructor
      · intro j inside
        cases j with
        | zero => exact first
        | succ j =>
          rw [← Nat.add_assoc, Nat.add_right_comm]
          exact places j (Nat.lt_of_succ_lt_succ inside)
      · rw [length_cons, ← Nat.add_assoc, Nat.add_right_comm]
        exact last

theorem Mixed.place (mixed : Mixed hash index bucket as t) {j : Nat} (inside : j < as.length) :
    index.chainAt bucket j = as[j] := by
  have place := (chainAt_path (i := 0) mixed.path).1 j inside
  rwa [Nat.zero_add] at place

theorem Mixed.last (mixed : Mixed hash index bucket as t) : index.chainAt bucket as.length = t := by
  have last := (chainAt_path (i := 0) mixed.path).2
  rwa [Nat.zero_add] at last

theorem Mixed.cleanBefore (mixed : Mixed hash index bucket as t) (inside : k ≤ as.length) :
    index.cleanBefore bucket k = (as.take k).filter index.isClean := by
  rw [EntryIndex.cleanBefore]
  congr 1
  apply ext_getElem
  · rw [length_map, length_range, length_take, Nat.min_eq_left inside]
  · intro j _ early
    rw [length_take, Nat.min_eq_left inside] at early
    rw [getElem_map, getElem_range, getElem_take]
    exact mixed.place (early.trans_le inside)

section

variable (readable : index.Readable hash bucket a record dirty)
include readable

theorem Readable.initialized : a.isInitialized = true := by
  have block := readable.block
  rw [CacheAddr.isBlockOf, Bool.and_eq_true, Bool.and_eq_true] at block
  exact block.1.1

theorem Readable.same_iff : record.isSameEntry key (hash key) = true ↔ record.key = key := by
  rw [EntryRecord.isSameEntry, Bool.and_eq_true, Bool.and_eq_true, decide_eq_true_iff,
    decide_eq_true_iff, decide_eq_true_iff]
  constructor
  · exact And.right
  · rintro rfl
    exact ⟨⟨readable.hashed, readable.length⟩, rfl⟩

theorem Readable.update : index.update a record = true := by
  have usable := readable.usable
  rw [EntryIndex.update]
  cases loaded : index.nodes record.rankingsNode with
  | none =>
    rw [loaded] at usable
    cases usable
  | some node =>
    rw [loaded, any_some, Bool.and_eq_true] at usable
    rw [any_some, usable.2, Bool.or_true]

theorem Readable.removable : (index.nodes record.rankingsNode).any NodeRecord.removable = true := by
  have usable := readable.usable
  cases loaded : index.nodes record.rankingsNode with
  | none =>
    rw [loaded] at usable
    cases usable
  | some node =>
    rw [loaded, any_some, Bool.and_eq_true] at usable
    exact usable.1

end

theorem Mixed.accepted (mixed : Mixed hash index bucket as t) (member : a ∈ as)
    (here : index.newEntry a = .ok (record, dirty)) : index.Readable hash bucket a record dirty := by
  obtain ⟨found, dirty, readable⟩ := mixed.readable a member
  have accepted := readable.accepted
  rw [here] at accepted
  cases accepted
  exact readable

theorem Mixed.quiet (mixed : Mixed hash index (hash key &&& index.mask) as t) (inside : k ≤ as.length)
    (others : ∀ a ∈ as.take k, index.hasKey key a = false) : ∀ j < k, ¬ Event index key (hash key) j := by
  intro j early event
  have within := early.trans_le inside
  have place := mixed.place within
  obtain ⟨record, dirty, readable⟩ := mixed.readable _ (getElem_mem within)
  rw [← place] at readable
  have accepted := readable.accepted
  rcases event with halts | back
  · cases halts with
    | end_ at_end =>
      rw [readable.initialized] at at_end
      cases at_end
    | unusable unusable =>
      rw [accepted] at unusable
      cases unusable
    | found clean ends =>
      rw [accepted] at clean
      cases clean
      rcases ends with same | failed
      · have other := others as[j] (mem_take_iff_getElem.mpr ⟨j, by omega, rfl⟩)
        rw [← place, hasKey, accepted] at other
        exact absurd (readable.same_iff.mp same) (by simpa using other)
      · rw [readable.update] at failed
        cases failed
    | broken invalid broken =>
      rw [accepted] at invalid
      cases invalid
      rw [readable.removable] at broken
      cases broken
    | again invalid before earlier shared =>
      rw [accepted] at invalid
      cases invalid
      have first := mixed.place (before.trans within)
      have node := mixed.apart _ (getElem_mem (before.trans within)) _ (getElem_mem within)
      rw [← first, ← place, nodeOf, nodeOf, (newEntry_ok.mp earlier).1, (newEntry_ok.mp accepted).1,
        map_some, map_some, shared] at node
      have repeated := node rfl
      rw [first, place] at repeated
      exact absurd ((mixed.nodup.getElem_inj_iff).mp repeated) (Nat.ne_of_lt before)
  · rw [mixed.cleanBefore (within.le), place] at back
    obtain ⟨i, before, same⟩ := mem_take_iff_getElem.mp (mem_filter.mp back).1
    exact absurd ((mixed.nodup.getElem_inj_iff).mp same) (by omega)

theorem newEntry_congr (opened : after.opened a = index.opened a)
    (current : after.currentEntryId = index.currentEntryId) (entries : after.entries a = index.entries a)
    (nodes : ∀ record, index.entries a = some record →
      after.nodes record.rankingsNode = index.nodes record.rankingsNode) :
    after.newEntry a = index.newEntry a := by
  rw [newEntry, newEntry, opened, current, entries]
  cases there : index.entries a with
  | none => rfl
  | some record =>
    simp only
    rw [nodes record there]

theorem Mixed.transfer (mixed : Mixed hash index bucket as t) (inside : ∀ b ∈ bs, b ∈ as)
    (nodup : bs.Nodup) (enabled : after.disabled = false) (mask : after.mask = index.mask)
    (path : Path after.entries (after.table bucket) bs u)
    (kept : ∀ b ∈ bs, ∀ record dirty, index.Readable hash bucket b record dirty → ∃ next state dirty',
        after.newEntry b = .ok ({ record with next := next, state := state }, dirty') ∧
        (after.nodes record.rankingsNode).any (fun node => node.removable && node.writable) = true) :
    Mixed hash after bucket bs u := by
  have readable : ∀ b ∈ bs, ∃ record dirty, after.Readable hash bucket b record dirty ∧
      after.nodeOf b = index.nodeOf b := by
    intro b member
    obtain ⟨record, dirty, readable⟩ := mixed.readable b (inside b member)
    obtain ⟨next, state, dirty', accepted, usable⟩ := kept b member record dirty readable
    refine ⟨_, dirty', ⟨readable.block, accepted, readable.hashed, readable.length, ?_, usable⟩, ?_⟩
    · rw [mask]
      exact readable.placed
    · rw [nodeOf, nodeOf, (newEntry_ok.mp accepted).1, (newEntry_ok.mp readable.accepted).1]
      rfl
  refine ⟨enabled, path, nodup, fun b member => ?_, fun a member b member' same => ?_⟩
  · obtain ⟨record, dirty, readable, -⟩ := readable b member
    exact ⟨record, dirty, readable⟩
  · obtain ⟨-, -, -, node⟩ := readable a member
    obtain ⟨-, -, -, node'⟩ := readable b member'
    rw [node, node'] at same
    exact mixed.apart a (inside a member) b (inside b member') same

theorem Carries.trans {as'' : List CacheAddr} {next : EntryIndex}
    (carries : index.Carries as after as') (more : after.Carries as' next as'') :
    index.Carries as next as'' := by
  refine ⟨more.mask.trans carries.mask, fun a member record clean => ?_⟩
  obtain ⟨there, link, clean'⟩ := carries.entry a member record clean
  obtain ⟨there', link', clean''⟩ := more.entry a there _ clean'
  exact ⟨there', link', clean''⟩

theorem Carries.without {front' back' : List CacheAddr}
    (carries : index.Carries (front ++ a :: back) after (front' ++ a :: back'))
    (nodup : (front ++ a :: back).Nodup) : index.Carries (front ++ back) after (front' ++ back') := by
  refine ⟨carries.mask, fun b member record clean => ?_⟩
  rw [nodup_middle] at nodup
  have away : b ≠ a := by
    rintro rfl
    exact (nodup_cons.mp nodup).1 member
  have inside : b ∈ front ++ a :: back :=
    ((sublist_cons_self a back).append_left front).subset member
  obtain ⟨there, next, clean'⟩ := carries.entry b inside record clean
  refine ⟨?_, next, clean'⟩
  rw [mem_append, mem_cons] at there
  rw [mem_append]
  exact there.imp id fun back => back.resolve_left away

def repairedChain (index : EntryIndex) (as : List CacheAddr) (k : Nat) : List CacheAddr :=
  (as.take k).filter index.isClean ++ as.drop k

theorem mem_repairedChain (nodup : as.Nodup) (member : a ∈ index.repairedChain as k) :
    a ∈ as ∧ (index.isClean a = true ∧ a ∈ as.take k ∨ a ∈ as.drop k ∧ a ∉ as.take k) := by
  rcases mem_append.mp member with front | back
  · obtain ⟨front, clean⟩ := mem_filter.mp front
    exact ⟨mem_of_mem_take front, .inl ⟨clean, front⟩⟩
  · refine ⟨mem_of_mem_drop back, .inr ⟨back, fun front => ?_⟩⟩
    rw [← take_append_drop k as] at nodup
    exact (nodup_append.mp nodup).2.2 a front a back rfl

theorem Mixed.invalid_gone (mixed : Mixed hash index bucket as t) (inside : k ≤ as.length)
    (early : i < k) (invalid : index.isInvalid (index.chainAt bucket i) = true) :
    index.chainAt bucket i ∉ index.repairedChain as k := by
  intro member
  obtain ⟨-, ⟨clean, -⟩ | ⟨-, outside⟩⟩ := mem_repairedChain mixed.nodup member
  · obtain ⟨record, invalid⟩ := isInvalid_iff.mp invalid
    obtain ⟨record', clean⟩ := isClean_iff.mp clean
    rw [clean] at invalid
    cases invalid
  · refine outside ?_
    rw [mixed.place (early.trans_le inside)]
    exact mem_take_iff_getElem.mpr ⟨i, by omega, rfl⟩

section

variable (repaired : index.Repaired bucket key (hash key) k after) (mixed : Mixed hash index bucket as t)
  (inside : k ≤ as.length)
include repaired mixed inside

theorem Repaired.node_kept (member : a ∈ index.repairedChain as k) (there : index.entries a = some record) :
    after.nodes record.rankingsNode = index.nodes record.rankingsNode := by
  rcases repaired.nodes record.rankingsNode with same | ⟨-, i, early, other, invalid, shared⟩
  · exact same
  · have within := early.trans_le inside
    have first := mixed.place within
    have same := mixed.apart a (mem_repairedChain mixed.nodup member).1 _ (getElem_mem within)
    rw [← first, nodeOf, nodeOf, there, (newEntry_ok.mp invalid).1, map_some, map_some, shared] at same
    rw [same rfl] at member
    exact absurd member (mixed.invalid_gone inside early (isInvalid_iff.mpr ⟨other, invalid⟩))

theorem Repaired.entry_kept (member : a ∈ index.repairedChain as k) (behind : a ∉ as.take k) :
    after.entries a = index.entries a := by
  apply repaired.others a
  · rw [mixed.cleanBefore inside]
    exact fun passed => behind (mem_filter.mp passed).1
  · rintro i early invalid rfl
    exact mixed.invalid_gone inside early invalid member

theorem Repaired.newEntry_kept (member : a ∈ index.repairedChain as k)
    (accepted : index.newEntry a = .ok (record, dirty)) :
    ∃ next, after.newEntry a = .ok ({ record with next := next }, dirty) := by
  have there := (newEntry_ok.mp accepted).1
  obtain ⟨-, ⟨clean, front⟩ | ⟨-, behind⟩⟩ := mem_repairedChain mixed.nodup member
  · have passed : a ∈ index.cleanBefore bucket k := by
      rw [mixed.cleanBefore inside]
      exact mem_filter.mpr ⟨front, clean⟩
    obtain ⟨record', next, -, clean, -, -, linked, sane⟩ := repaired.passed a passed
    rw [clean] at accepted
    cases accepted
    exact ⟨next, (newEntry_relinked repaired.same.2.1 repaired.same.2.2.1 clean linked sane
      fun _ => repaired.node_kept mixed inside member there).1⟩
  · refine ⟨record.next, ?_⟩
    rw [← accepted]
    exact newEntry_congr (congrFun repaired.same.2.1 a) repaired.same.2.2.1
      (repaired.entry_kept mixed inside member behind)
      fun held there => repaired.node_kept mixed inside member there

theorem Repaired.chain : Path after.entries (after.table bucket) (index.repairedChain as k) t := by
  have front := repaired.path
  rw [mixed.cleanBefore inside] at front
  have nodup := mixed.nodup
  have whole := mixed.path
  rw [← take_append_drop k as] at whole nodup
  obtain ⟨s, first, second⟩ := whole.split
  have place := (chainAt_path (i := 0) first).2
  rw [Nat.zero_add, length_take, Nat.min_eq_left inside] at place
  rw [place] at front
  refine front.append (second.congr fun a back => ?_)
  exact repaired.entry_kept mixed inside (mem_append_right _ back) fun front =>
    (nodup_append.mp nodup).2.2 a front a back rfl

end

theorem Repaired.mixed (mixed : Mixed hash index bucket as t) (inside : k ≤ as.length)
    (repaired : index.Repaired bucket key (hash key) k after) :
    Mixed hash after bucket (index.repairedChain as k) t ∧
      index.Carries as after (index.repairedChain as k) := by
  constructor
  · refine mixed.transfer (fun a member => (mem_repairedChain mixed.nodup member).1) ?_
      repaired.same.2.2.2 repaired.same.1 (repaired.chain mixed inside)
      fun a member record dirty readable => ?_
    · have nodup := mixed.nodup
      rw [← take_append_drop k as] at nodup
      exact nodup.sublist (filter_sublist.append_right _)
    · obtain ⟨next, accepted⟩ := repaired.newEntry_kept mixed inside member readable.accepted
      refine ⟨next, record.state, dirty, accepted, ?_⟩
      rw [repaired.node_kept mixed inside member (newEntry_ok.mp readable.accepted).1]
      exact readable.usable
  · refine ⟨repaired.same.1, fun a member record clean => ?_⟩
    have there : a ∈ index.repairedChain as k := by
      rw [← take_append_drop k as] at member
      rcases mem_append.mp member with front | back
      · exact mem_append_left _ (mem_filter.mpr ⟨front, isClean_iff.mpr ⟨record, clean⟩⟩)
      · exact mem_append_right _ back
    exact ⟨there, repaired.newEntry_kept mixed inside there clean⟩

theorem hasKey_iff : index.hasKey key a = true ↔
    ∃ record, index.newEntry a = .ok (record, false) ∧ record.key = key := by
  rw [hasKey]
  cases index.newEntry a with
  | error error => simp
  | ok accepted =>
    obtain ⟨record, dirty⟩ := accepted
    cases dirty <;> simp

def NodesLeft (index after : EntryIndex) : Prop :=
  ∀ n, after.nodes n = index.nodes n ∨ after.nodes n = none

theorem Mixed.reaches (mixed : Mixed hash index (hash key &&& index.mask) as t)
    (inside : k ≤ as.length) (others : ∀ a ∈ as.take k, index.hasKey key a = false) (findParent : Bool) :
    ∃ after, Mixed hash after (hash key &&& index.mask) (index.repairedChain as k) t ∧
      index.Carries as after (index.repairedChain as k) ∧ NodesLeft index after ∧
      Passes (matchStep key (hash key) findParent) (lookup (hash key) index)
        ⟨after, index.chainAt (hash key &&& index.mask) k, ((as.take k).filter index.isClean).getLast?⟩ := by
  obtain ⟨after, repaired, passes⟩ :=
    EntryIndex.reaches mixed.enabled findParent (mixed.quiet inside others)
  obtain ⟨mixed', carries⟩ := repaired.mixed mixed inside
  rw [mixed.cleanBefore inside] at passes
  exact ⟨after, mixed', carries, fun n => (repaired.nodes n).imp id And.left, passes⟩

theorem Mixed.lookup_none (mixed : Mixed hash index (hash key &&& index.mask) as t)
    (at_end : t.isInitialized = false) (others : ∀ a ∈ as, index.hasKey key a = false) (findParent : Bool) :
    ∃ after, Mixed hash after (hash key &&& index.mask) (as.filter index.isClean) t ∧
      index.Carries as after (as.filter index.isClean) ∧ NodesLeft index after ∧
      Ends (matchStep key (hash key) findParent) (lookup (hash key) index)
        (after, if findParent then (as.filter index.isClean).getLast? else none) := by
  have whole : ∀ a ∈ as.take as.length, index.hasKey key a = false := by
    rw [take_length]
    exact others
  obtain ⟨after, mixed', carries, left, passes⟩ := mixed.reaches le_rfl whole findParent
  rw [mixed.last, take_length] at passes
  rw [repairedChain, take_length, drop_length, append_nil] at mixed' carries
  exact ⟨after, mixed', carries, left, (passes.ends _).mpr (ends_done (matchStep_end mixed'.enabled at_end))⟩

theorem Mixed.lookup_found (mixed : Mixed hash index (hash key &&& index.mask) (front ++ a :: back) t)
    (here : index.hasKey key a = true) (others : ∀ b ∈ front, index.hasKey key b = false)
    (findParent : Bool) : ∃ after, Mixed hash after (hash key &&& index.mask)
        (front.filter index.isClean ++ a :: back) t ∧
      index.Carries (front ++ a :: back) after (front.filter index.isClean ++ a :: back) ∧
      Ends (matchStep key (hash key) findParent) (lookup (hash key) index)
        (after, if findParent then (front.filter index.isClean).getLast? else some a) := by
  have inside : front.length < (front ++ a :: back).length := by
    rw [length_append, length_cons]
    omega
  have place := mixed.place inside
  rw [getElem_append_right le_rfl] at place
  simp only [Nat.sub_self, getElem_cons_zero] at place
  obtain ⟨after, mixed', carries, -, passes⟩ :=
    mixed.reaches (inside.le) (by rwa [take_left]) findParent
  rw [place, take_left] at passes
  rw [repairedChain, take_left, drop_left] at mixed' carries
  refine ⟨after, mixed', carries, (passes.ends _).mpr (ends_done ?_)⟩
  obtain ⟨record, clean, same⟩ := hasKey_iff.mp here
  obtain ⟨there, next, clean'⟩ := carries.entry a (mem_append_right _ mem_cons_self) record clean
  have readable := mixed'.accepted there clean'
  rw [matchStep_same mixed'.enabled readable.initialized clean' (readable.same_iff.mpr same),
    readable.update, if_pos rfl]

section Frames

variable {rest : List CacheAddr} {t' : CacheAddr}

theorem Mixed.frame (mixed : Mixed hash index bucket as t) (enabled : after.disabled = false)
    (mask : after.mask = index.mask) (table : after.table bucket = index.table bucket)
    (entries : ∀ b ∈ as, after.entries b = index.entries b)
    (accepted : ∀ b ∈ as, after.newEntry b = index.newEntry b)
    (nodes : ∀ b ∈ as, ∀ record, index.entries b = some record →
      after.nodes record.rankingsNode = index.nodes record.rankingsNode) :
    Mixed hash after bucket as t ∧ index.Carries as after as := by
  constructor
  · refine mixed.transfer (fun b member => member) mixed.nodup enabled mask ?_
      fun b member record dirty readable => ?_
    · rw [table]
      exact mixed.path.congr entries
    · refine ⟨record.next, record.state, dirty, (accepted b member).trans readable.accepted, ?_⟩
      rw [nodes b member record (newEntry_ok.mp readable.accepted).1]
      exact readable.usable
  · refine ⟨mask, fun b member record clean => ?_⟩
    exact ⟨member, record.next, (accepted b member).trans clean⟩

theorem newEntry_hold (clean : index.isClean a = true) (b : CacheAddr) :
    (index.hold a).newEntry b = index.newEntry b := by
  by_cases same : b = a
  · subst same
    obtain ⟨record, accepted⟩ := isClean_iff.mp clean
    rw [accepted]
    exact newEntry_ok.mpr ⟨(newEntry_ok.mp accepted).1, .inl ⟨by simp [hold], rfl⟩⟩
  · exact newEntry_congr (by simp [hold, same]) rfl rfl fun _ _ => rfl

theorem Mixed.hold (mixed : Mixed hash index bucket as t) (clean : index.isClean a = true) :
    Mixed hash (index.hold a) bucket as t ∧ index.Carries as (index.hold a) as :=
  mixed.frame mixed.enabled rfl rfl (fun _ _ => rfl) (fun b _ => newEntry_hold clean b) fun _ _ _ _ => rfl

theorem moveNode_eq (enabled : index.disabled = false) (there : index.entries a = some record)
    (removable : (index.nodes record.rankingsNode).any NodeRecord.removable = true) :
    index.moveNode a = index := by
  cases index
  simp only at enabled there removable
  simp only [EntryIndex.moveNode, enabled, there, any_some, removable, Bool.not_true, Bool.or_self]

theorem Mixed.moveNode (mixed : Mixed hash index bucket as t) (member : a ∈ as) : index.moveNode a = index := by
  obtain ⟨record, dirty, readable⟩ := mixed.readable a member
  exact moveNode_eq mixed.enabled (newEntry_ok.mp readable.accepted).1 readable.removable

theorem Mixed.relink (mixed : Mixed hash index bucket (front ++ back) t)
    (clean : ∀ b ∈ front, index.isClean b = true) (sane : saneNext u = true)
    (path : Path index.entries u rest t') (part : rest.Sublist back)
    (relinked : Relinked index bucket front u linked) : Mixed hash linked bucket (front ++ rest) t' ∧
      index.Carries (front ++ rest) linked (front ++ rest) := by
  obtain ⟨mask, opened, current, disabled, nodes⟩ := relinked.same
  have sub : (front ++ rest).Sublist (front ++ back) := part.append_left front
  have apart : ∀ b ∈ rest, b ∉ front := by
    intro b member member'
    exact (nodup_append.mp mixed.nodup).2.2 b member' b (part.subset member) rfl
  have kept : ∀ b ∈ front ++ rest, ∀ record dirty, index.newEntry b = .ok (record, dirty) →
      ∃ next, linked.newEntry b = .ok ({ record with next := next }, dirty) := by
    intro b member record dirty accepted
    by_cases changed : linked.entries b = index.entries b
    · refine ⟨record.next, ?_⟩
      rw [← accepted]
      exact newEntry_congr (congrFun opened b) current changed fun _ _ => by rw [nodes]
    · have inside : b ∈ front := by
        by_contra outside
        exact changed (relinked.others b outside)
      obtain ⟨record', clean⟩ := isClean_iff.mp (clean b inside)
      rw [clean] at accepted
      cases accepted
      refine ⟨u, (newEntry_relinked opened current clean ?_ (.inr sane) fun _ => ?_).1⟩
      · rw [(relinked.inside b inside).resolve_left changed, (newEntry_ok.mp clean).1]
        rfl
      · rw [nodes]
  constructor
  · refine mixed.transfer (fun b member => sub.subset member) (mixed.nodup.sublist sub)
      (disabled.trans mixed.enabled) mask ?_ fun b member record dirty readable => ?_
    · exact relinked.path.append (path.congr fun b member => relinked.others b (apart b member))
    · obtain ⟨next, accepted⟩ := kept b member record dirty readable.accepted
      refine ⟨next, record.state, dirty, accepted, ?_⟩
      rw [nodes]
      exact readable.usable
  · refine ⟨mask, fun b member record clean => ?_⟩
    exact ⟨member, kept b member record false clean⟩

end Frames

theorem openEntryImpl_settles (enabled : index.disabled = false) {found : Option CacheAddr}
    (ends : Ends (matchStep key (services.hash key) false) (lookup (services.hash key) index) (after, found)) :
    Settles (fun fuel => index.openEntryImpl services fuel key) (after.openFound services found) := by
  simp only [openEntryImpl, enabled, Bool.false_eq_true, if_false]
  exact ends.settles.map rfl

theorem Mixed.misses (mixed : Mixed services.hash index (services.hash key &&& index.mask) as t)
    (at_end : t.isInitialized = false) (others : ∀ a ∈ as, index.hasKey key a = false) :
    ∃ after, Mixed services.hash after (services.hash key &&& index.mask) (as.filter index.isClean) t ∧
      index.Carries as after (as.filter index.isClean) ∧ NodesLeft index after ∧
      Settles (fun fuel => index.openEntryImpl services fuel key) (after, none) := by
  obtain ⟨after, mixed', carries, left, ends⟩ := mixed.lookup_none at_end others false
  exact ⟨after, mixed', carries, left, openEntryImpl_settles mixed.enabled ends⟩

theorem Mixed.opens (mixed : Mixed services.hash index (services.hash key &&& index.mask) (front ++ a :: back) t)
    (here : index.hasKey key a = true) (others : ∀ b ∈ front, index.hasKey key b = false) :
    ∃ after, Mixed services.hash after (services.hash key &&& index.mask)
        (front.filter index.isClean ++ a :: back) t ∧
      index.Carries (front ++ a :: back) after (front.filter index.isClean ++ a :: back) ∧
      Settles (fun fuel => index.openEntryImpl services fuel key)
        (after, if (index.entries a).any fun record => record.state = .normal then some a else none) := by
  obtain ⟨after, mixed', carries, ends⟩ := mixed.lookup_found here others false
  have settled := openEntryImpl_settles mixed.enabled ends
  obtain ⟨record, clean, same⟩ := hasKey_iff.mp here
  obtain ⟨there, next, clean'⟩ := carries.entry a (mem_append_right _ mem_cons_self) record clean
  have readable := mixed'.accepted there clean'
  have entry := (newEntry_ok.mp clean').1
  have entry' := (newEntry_ok.mp clean).1
  simp only [Bool.false_eq_true, if_false, openFound, entry, any_some] at settled
  simp only [entry', any_some]
  by_cases normal : record.state = .normal
  · simp only [normal, decide_true, Bool.not_true, Bool.false_eq_true, if_false] at settled
    simp only [normal, decide_true, if_true]
    have isClean : after.isClean a = true := isClean_iff.mpr ⟨_, clean'⟩
    rw [mixed'.moveNode there, ite_self] at settled
    obtain ⟨held, carries'⟩ := mixed'.hold isClean
    exact ⟨_, held, carries.trans carries', settled⟩
  · simp only [normal, decide_false, Bool.not_false, if_true] at settled
    simp only [normal, decide_false, Bool.false_eq_true, if_false]
    exact ⟨after, mixed', carries, settled⟩

theorem Carries.isClean (carries : index.Carries as after as') (member : a ∈ as)
    (clean : index.isClean a = true) : after.isClean a = true := by
  obtain ⟨record, clean⟩ := isClean_iff.mp clean
  obtain ⟨-, next, clean'⟩ := carries.entry a member record clean
  exact isClean_iff.mpr ⟨_, clean'⟩

theorem Carries.hasKey (carries : index.Carries as after as') (member : a ∈ as)
    (clean : index.isClean a = true) (key : List UInt8) : after.hasKey key a = index.hasKey key a := by
  obtain ⟨record, clean⟩ := isClean_iff.mp clean
  obtain ⟨-, next, clean'⟩ := carries.entry a member record clean
  rw [EntryIndex.hasKey, EntryIndex.hasKey, clean, clean']

theorem Mixed.table_initialized (mixed : Mixed hash index bucket as t) (at_end : t.isInitialized = false) :
    (index.table bucket).isInitialized = true ↔ as ≠ [] := by
  have path := mixed.path
  generalize index.table bucket = s at path
  cases path with
  | nil a =>
    rw [at_end]
    exact iff_of_false Bool.false_ne_true fun none => none rfl
  | cons here rest =>
    obtain ⟨record, dirty, readable⟩ := mixed.readable _ mem_cons_self
    exact iff_of_true readable.initialized (cons_ne_nil _ _)

theorem Mixed.creates (mixed : Mixed services.hash index (services.hash key &&& index.mask) as t)
    (at_end : t.isInitialized = false) (others : ∀ a ∈ as, index.hasKey key a = false)
    (named : key ≠ []) (clean : as = [] ∨ ∃ a ∈ as, index.isClean a = true) :
    ∃ repaired, Mixed services.hash repaired (services.hash key &&& index.mask) (as.filter index.isClean) t ∧
      index.Carries as repaired (as.filter index.isClean) ∧
      Settles (fun fuel => index.createEntryImpl services fuel key)
        (repaired.addEntry services key (as.filter index.isClean).getLast?) := by
  have guard : (index.disabled || key.isEmpty) = false := by
    rw [mixed.enabled, Bool.false_or]
    exact isEmpty_eq_false_iff.mpr named
  have head := mixed.table_initialized at_end
  simp only [createEntryImpl, guard, Bool.false_eq_true, if_false]
  rcases clean with rfl | ⟨a, member, clean⟩
  · have unused : (index.table (services.hash key &&& index.mask)).isInitialized = false := by
      simpa using head
    rw [unused]
    exact ⟨index, mixed, ⟨rfl, fun a none => absurd none not_mem_nil⟩, settles_pure _⟩
  · rw [head.mpr (ne_nil_of_mem member)]
    obtain ⟨first, mixed', carries, -, ends⟩ := mixed.lookup_none at_end others false
    have mask := carries.mask
    have others' : ∀ b ∈ as.filter index.isClean, first.hasKey key b = false := by
      intro b member
      obtain ⟨member, clean⟩ := mem_filter.mp member
      rw [carries.hasKey member clean]
      exact others b member
    have all : (as.filter index.isClean).filter first.isClean = as.filter index.isClean := by
      refine filter_eq_self.mpr fun b member => ?_
      obtain ⟨member, clean⟩ := mem_filter.mp member
      exact carries.isClean member clean
    rw [← mask] at mixed'
    obtain ⟨second, mixed'', carries', -, ends'⟩ := mixed'.lookup_none at_end others' true
    rw [all] at mixed'' carries'
    rw [all, if_pos rfl] at ends'
    rw [mask] at mixed''
    refine ⟨second, mixed'', carries.trans carries', ?_⟩
    obtain ⟨parent, last⟩ : ∃ parent, (as.filter index.isClean).getLast? = some parent := by
      have there := ne_nil_of_mem (mem_filter.mpr ⟨member, clean⟩)
      exact ⟨_, List.getLast?_eq_some_getLast there⟩
    rw [last] at ends' ⊢
    refine ends.settles.bind ?_
    exact ends'.settles.bind (settles_pure _)

theorem setPointerForInvalidEntry_node {node : NodeRecord}
    (loaded : index.nodes record.rankingsNode = some node) (writable : node.writable = true) :
    (index.setPointerForInvalidEntry record).nodes record.rankingsNode =
      some { node with dirty := index.currentEntryId, dummy := 0 } := by
  simp only [setPointerForInvalidEntry, loaded, map_some, writable, if_true]

theorem setPointerForInvalidEntry_clean (readable : index.Readable hash bucket a record dirty) :
    (index.setPointerForInvalidEntry record).newEntry a = .ok (record, false) := by
  obtain ⟨there, accepted⟩ := newEntry_ok.mp readable.accepted
  refine newEntry_ok.mpr ⟨there, ?_⟩
  rcases accepted with ⟨opened, -⟩ | ⟨closed, block, sane, node, loaded, links, -⟩
  · exact .inl ⟨opened, rfl⟩
  · have usable := readable.usable
    rw [loaded, any_some, Bool.and_eq_true] at usable
    refine .inr ⟨closed, block, sane, _, setPointerForInvalidEntry_node loaded usable.2, links, ?_⟩
    simp [NodeRecord.isDirty, setPointerForInvalidEntry]

theorem Mixed.setPointerForInvalidEntry (mixed : Mixed hash index bucket as t)
    (readable : index.Readable hash bucket a record dirty)
    (apart : ∀ b ∈ as, index.nodeOf b = index.nodeOf a → b = a) :
    Mixed hash (index.setPointerForInvalidEntry record) bucket as t ∧
      index.Carries as (index.setPointerForInvalidEntry record) as ∧
      ∀ b ∈ as, b ≠ a → (index.setPointerForInvalidEntry record).newEntry b = index.newEntry b := by
  have there := (newEntry_ok.mp readable.accepted).1
  have other : ∀ b ∈ as, b ≠ a → ∀ held, index.entries b = some held →
      (index.setPointerForInvalidEntry record).nodes held.rankingsNode = index.nodes held.rankingsNode := by
    intro b member away held held_there
    refine if_neg fun shared => away (apart b member ?_)
    rw [nodeOf, nodeOf, held_there, there, map_some, map_some, shared]
  have same : ∀ b ∈ as, b ≠ a → (index.setPointerForInvalidEntry record).newEntry b = index.newEntry b :=
    fun b member away => newEntry_congr rfl rfl rfl (other b member away)
  refine ⟨?_, ?_, same⟩
  · refine mixed.transfer (fun b member => member) mixed.nodup mixed.enabled rfl mixed.path
      fun b member held dirty' readable' => ?_
    by_cases here : b = a
    · subst here
      have accepted := readable'.accepted
      rw [readable.accepted] at accepted
      cases accepted
      refine ⟨record.next, record.state, false, setPointerForInvalidEntry_clean readable, ?_⟩
      have usable := readable.usable
      cases loaded : index.nodes record.rankingsNode with
      | none =>
        rw [loaded] at usable
        cases usable
      | some node =>
        rw [loaded, any_some] at usable
        rw [setPointerForInvalidEntry_node loaded (Bool.and_eq_true_iff.mp usable).2]
        exact usable
    · refine ⟨held.next, held.state, dirty', (same b member here).trans readable'.accepted, ?_⟩
      rw [other b member here held (newEntry_ok.mp readable'.accepted).1]
      exact readable'.usable
  · refine ⟨rfl, fun b member held clean => ⟨member, held.next, ?_⟩⟩
    by_cases here : b = a
    · subst here
      have accepted := readable.accepted
      rw [clean] at accepted
      cases accepted
      exact setPointerForInvalidEntry_clean readable
    · exact (same b member here).trans clean

theorem newEntry_without (outside : a ∉ as) (node : CacheAddr)
    (apart : ∀ b ∈ as, ∀ held, index.entries b = some held → held.rankingsNode ≠ node)
    (current : after.currentEntryId = index.currentEntryId)
    (opened : ∀ b, b ≠ a → after.opened b = index.opened b)
    (entries : ∀ b, b ≠ a → after.entries b = index.entries b)
    (nodes : ∀ n, n ≠ node → after.nodes n = index.nodes n) : ∀ b ∈ as, after.newEntry b = index.newEntry b := by
  intro b member
  have away : b ≠ a := by
    rintro rfl
    exact outside member
  exact newEntry_congr (opened b away) current (entries b away)
    fun held there => nodes _ (apart b member held there)

theorem Mixed.without (mixed : Mixed hash index bucket as t) (outside : a ∉ as) (node : CacheAddr)
    (apart : ∀ b ∈ as, ∀ held, index.entries b = some held → held.rankingsNode ≠ node)
    (enabled : after.disabled = false) (same : after.mask = index.mask ∧ after.table = index.table ∧
      after.currentEntryId = index.currentEntryId)
    (opened : ∀ b, b ≠ a → after.opened b = index.opened b)
    (entries : ∀ b, b ≠ a → after.entries b = index.entries b)
    (nodes : ∀ n, n ≠ node → after.nodes n = index.nodes n) :
    Mixed hash after bucket as t ∧ index.Carries as after as := by
  refine mixed.frame enabled same.1 (congrFun same.2.1 bucket) (fun b member => entries b ?_)
    (newEntry_without outside node apart same.2.2 opened entries nodes)
    fun b member held there => nodes _ (apart b member held there)
  rintro rfl
  exact outside member

theorem Mixed.saneNext (mixed : Mixed hash index bucket (front ++ a :: back) t)
    (at_end : t.isInitialized = false) (there : index.entries a = some record) :
    saneNext record.next = true ∧ Path index.entries record.next back t := by
  obtain ⟨s, -, path⟩ := mixed.path.split
  cases path with
  | cons here rest =>
    rw [there] at here
    cases here
    refine ⟨?_, rest⟩
    have readable := mixed.readable
    generalize record.next = next at rest
    cases rest with
    | nil _ =>
      rw [Cache.saneNext, at_end]
      rfl
    | cons _ _ =>
      obtain ⟨held, dirty, readable⟩ := readable next (mem_append_right _ (mem_cons_of_mem _ mem_cons_self))
      rw [Cache.saneNext, readable.block, Bool.or_true]

theorem Mixed.setState (mixed : Mixed hash index bucket as t)
    (clean : index.newEntry a = .ok (record, false)) (state : EntryState) :
    Mixed hash (index.setEntry a (some { record with state := state })) bucket as t ∧ ∀ b, b ≠ a →
        (index.setEntry a (some { record with state := state })).newEntry b = index.newEntry b := by
  have there := (newEntry_ok.mp clean).1
  have other : ∀ b, b ≠ a →
      (index.setEntry a (some { record with state := state })).newEntry b = index.newEntry b :=
    fun b away => newEntry_congr rfl rfl (if_neg away) fun _ _ => rfl
  refine ⟨?_, other⟩
  refine mixed.transfer (fun b member => member) mixed.nodup mixed.enabled rfl ?_
    fun b member held dirty readable => ?_
  · have linked : ∀ b, ((index.setEntry a (some { record with state := state })).entries b).map
        EntryRecord.next = (index.entries b).map EntryRecord.next := by
      intro b
      by_cases here : b = a
      · subst here
        rw [there]
        simp only [setEntry, if_true, map_some]
      · simp only [setEntry, if_neg here]
    exact mixed.path.links fun b _ => linked b
  · by_cases here : b = a
    · subst here
      have accepted := readable.accepted
      rw [clean] at accepted
      cases accepted
      refine ⟨record.next, state, false, newEntry_ok.mpr ⟨if_pos rfl, ?_⟩, readable.usable⟩
      exact (newEntry_ok.mp clean).2
    · exact ⟨held.next, held.state, dirty, (other b here).trans readable.accepted, readable.usable⟩

theorem onDoomEntry_eq (newEviction : Bool) (moved : index.moveNode a = index)
    (there : index.entries a = some record) : ∃ state, index.onDoomEntry newEviction a =
      index.setEntry a (some { record with state := state }) := by
  have same : index.setEntry a (some record) = index := by
    rw [← there]
    cases index
    simp only [setEntry, EntryIndex.mk.injEq, true_and, and_true]
    funext b
    split
    · rename_i here
      rw [here]
    · rfl
  rw [onDoomEntry, moved, there]
  cases newEviction with
  | false => exact ⟨record.state, same.symm⟩
  | true =>
    simp only [Bool.not_true, Bool.false_eq_true, if_false, any_some, map_some]
    split
    · exact ⟨.doomed, rfl⟩
    · exact ⟨record.state, same.symm⟩

theorem Relinked.nodeOf {next : CacheAddr} (relinked : Relinked index bucket as next linked)
    (b : CacheAddr) : linked.nodeOf b = index.nodeOf b := by
  rw [EntryIndex.nodeOf, EntryIndex.nodeOf]
  by_cases changed : linked.entries b = index.entries b
  · rw [changed]
  · have member : b ∈ as := by
      by_contra outside
      exact changed (relinked.others b outside)
    rw [(relinked.inside b member).resolve_left changed, Option.map_map]
    rfl

theorem Mixed.not_mem (mixed : Mixed hash index bucket (front ++ a :: back) t) :
    a ∉ front ++ back ∧ ∀ b ∈ front ++ back, index.nodeOf b ≠ index.nodeOf a := by
  have nodup := mixed.nodup
  rw [nodup_middle] at nodup
  have outside := (nodup_cons.mp nodup).1
  refine ⟨outside, fun b member same => ?_⟩
  have inside : b ∈ front ++ a :: back :=
    ((sublist_cons_self a back).append_left front).subset member
  rw [mixed.apart b inside a (mem_append_right _ mem_cons_self) same] at member
  exact outside member

theorem Mixed.unlinks (mixed : Mixed hash index bucket (front ++ a :: back) t)
    (at_end : t.isInitialized = false) (clean : ∀ b ∈ front, index.isClean b = true)
    (there : index.entries a = some record) :
    ∃ linked, index.setLink bucket front.getLast? record.next = linked ∧
      Mixed hash linked bucket (front ++ back) t ∧
      index.Carries (front ++ back) linked (front ++ back) ∧
      linked.nodes = index.nodes ∧ linked.entries a = some record ∧
      ∀ b, linked.nodeOf b = index.nodeOf b := by
  obtain ⟨sane, rest⟩ := mixed.saneNext at_end there
  obtain ⟨s, front_path, -⟩ := mixed.path.split
  have relinked := setLink_relinked front_path (nodup_append.mp mixed.nodup).1 record.next
  obtain ⟨unlinked, carries⟩ :=
    mixed.relink clean sane rest (sublist_cons_self a back) relinked
  refine ⟨_, rfl, unlinked, carries, relinked.same.2.2.2.2, ?_, relinked.nodeOf⟩
  rw [relinked.others a fun inside => mixed.not_mem.1 (mem_append_left _ inside)]
  exact there

theorem Mixed.destroyEntry (mixed : Mixed hash index bucket as t) (outside : a ∉ as)
    (there : index.entries a = some record)
    (removable : (index.nodes record.rankingsNode).any NodeRecord.removable = true)
    (apart : ∀ b ∈ as, index.nodeOf b ≠ index.nodeOf a) (newEviction : Bool) (held : EntryRecord)
    (node : held.rankingsNode = record.rankingsNode) :
    Mixed hash (index.destroyEntry newEviction a held) bucket as t ∧
      index.Carries as (index.destroyEntry newEviction a held) as := by
  have nodes : ∀ b ∈ as, ∀ found, index.entries b = some found → found.rankingsNode ≠ held.rankingsNode := by
    intro b inside found entry shared
    refine apart b inside ?_
    rw [nodeOf, nodeOf, entry, there, map_some, map_some, shared, node]
  rw [EntryIndex.destroyEntry, moveNode_eq mixed.enabled there removable, ite_self]
  refine mixed.without outside held.rankingsNode nodes mixed.enabled ⟨rfl, rfl, rfl⟩
    (fun b away => ?_) (fun b away => if_neg away) fun n away => if_neg away
  simp only [ne_eq, away, not_false_eq_true, decide_true, Bool.true_and]

theorem Mixed.internalDoomEntry (record : EntryRecord)
    (mixed : Mixed services.hash index (services.hash record.key &&& index.mask) (front ++ a :: back) t)
    (at_end : t.isInitialized = false) (clean : ∀ b ∈ front, index.isClean b = true)
    (here : index.newEntry a = .ok (record, false)) (others : ∀ b ∈ front, index.hasKey record.key b = false) :
    ∃ doomed, Settles (fun fuel => index.internalDoomEntry services fuel a record) doomed ∧
      Mixed services.hash (doomed.destroyEntry services.newEviction a record)
        (services.hash record.key &&& index.mask) (front ++ back) t ∧
      index.Carries (front ++ back) (doomed.destroyEntry services.newEviction a record) (front ++ back) ∧
      (doomed.destroyEntry services.newEviction a record).nodes record.rankingsNode = none := by
  have member : a ∈ front ++ a :: back := mem_append_right _ mem_cons_self
  have hashed : record.hash = services.hash record.key := by
    have readable := mixed.accepted member here
    exact readable.hashed
  obtain ⟨last, mixed', carries, ends⟩ :=
    mixed.lookup_found (hasKey_iff.mpr ⟨record, here, rfl⟩) others true
  rw [filter_eq_self.mpr clean] at mixed' carries ends
  obtain ⟨there, next, here'⟩ := carries.entry a member record here
  have entry := (newEntry_ok.mp here').1
  obtain ⟨state, doomed_eq⟩ := onDoomEntry_eq services.newEviction (mixed'.moveNode there) entry
  obtain ⟨doomed, others'⟩ := mixed'.setState here' state
  have outside := mixed'.not_mem.1
  have away : ∀ b ∈ front ++ back, b ≠ a := by
    rintro b inside rfl
    exact outside inside
  have clean' : ∀ b ∈ front, (last.setEntry a (some
      { record with next := next, state := state })).isClean b = true := by
    intro b inside
    rw [isClean, others' b (away b (mem_append_left _ inside))]
    exact carries.isClean (mem_append_left _ inside) (clean b inside)
  obtain ⟨linked, linked_eq, unlinked, carries', nodes, entry', nodeOf_same⟩ :=
    doomed.unlinks at_end clean' (if_pos rfl)
  have removable : (linked.nodes record.rankingsNode).any NodeRecord.removable = true := by
    have readable := mixed'.accepted there here'
    rw [nodes]
    exact readable.removable
  have apart : ∀ b ∈ front ++ back, linked.nodeOf b ≠ linked.nodeOf a := by
    intro b inside
    rw [nodeOf_same, nodeOf_same]
    exact doomed.not_mem.2 b inside
  obtain ⟨final, carries''⟩ :=
    unlinked.destroyEntry outside entry' removable apart services.newEviction record rfl
  have kept : last.Carries (front ++ back) (last.setEntry a (some
      { record with next := next, state := state })) (front ++ back) :=
    ⟨rfl, fun b inside found clean =>
      ⟨inside, found.next, (others' b (away b inside)).trans clean⟩⟩
  refine ⟨linked, ?_, final, ?_, if_pos rfl⟩
  · rw [← hashed] at ends linked_eq
    refine ends.settles.map ?_
    simp only [carries.mask, entry, map_some, getD_some, if_true, doomed_eq]
    exact linked_eq
  · exact (((carries.without mixed.nodup).trans kept).trans carries').trans carries''

theorem doomEntry_misses (enabled : index.disabled = false)
    (settled : Settles (fun fuel => index.openEntryImpl services fuel key) (after, none)) :
    Settles (fun fuel => index.doomEntry services fuel key) (after, false) := by
  simp only [doomEntry, enabled, Bool.false_eq_true, if_false]
  exact settled.bind (settles_pure _)

theorem Mixed.dooms (mixed : Mixed services.hash index (services.hash key &&& index.mask) (front ++ a :: back) t)
    (at_end : t.isInitialized = false) (clean : index.newEntry a = .ok (record, false))
    (named : record.key = key) (others : ∀ b ∈ front, index.hasKey key b = false)
    (normal : record.state = .normal) (closed : index.opened a = false) :
    ∃ after, Mixed services.hash after (services.hash key &&& index.mask)
        (front.filter index.isClean ++ back) t ∧
      index.Carries (front ++ back) after (front.filter index.isClean ++ back) ∧
      after.nodes record.rankingsNode = none ∧
      Settles (fun fuel => index.doomEntry services fuel key) (after, true) := by
  have member : a ∈ front ++ a :: back := mem_append_right _ mem_cons_self
  have here : index.hasKey key a = true := hasKey_iff.mpr ⟨record, clean, named⟩
  obtain ⟨found, opened, carries, settled⟩ := mixed.opens here others
  rw [(newEntry_ok.mp clean).1, any_some, normal, decide_eq_true rfl, if_pos rfl] at settled
  obtain ⟨there, next, clean'⟩ := carries.entry a member record clean
  have readable := opened.accepted there clean'
  obtain ⟨marked, carries', -⟩ := opened.setPointerForInvalidEntry readable
    fun b member' same => opened.apart b member' a there same
  have clean'' := setPointerForInvalidEntry_clean readable
  have entry := (newEntry_ok.mp clean').1
  generalize marked_index : found.setPointerForInvalidEntry
    { record with next := next } = again at marked carries' clean''
  have all := carries.trans carries'
  subst named
  rw [← all.mask] at marked
  have inside : ∀ b ∈ front.filter index.isClean, b ∈ front ++ a :: back ∧ b ∈ front ∧
      index.isClean b = true := by
    intro b member
    obtain ⟨member, clean⟩ := mem_filter.mp member
    exact ⟨mem_append_left _ member, member, clean⟩
  have others' : ∀ b ∈ front.filter index.isClean, again.hasKey record.key b = false := by
    intro b member
    obtain ⟨whole, member, clean⟩ := inside b member
    rw [all.hasKey whole clean]
    exact others b member
  obtain ⟨doomed, dooming, final, carries'', cleared⟩ :=
    Mixed.internalDoomEntry { record with next := next } marked at_end
      (fun b member => all.isClean (inside b member).1 (inside b member).2.2) clean'' others'
  rw [all.mask] at final
  refine ⟨_, final, (all.without mixed.nodup).trans carries'', cleared, ?_⟩
  simp only [doomEntry, mixed.enabled, Bool.false_eq_true, if_false]
  refine settled.bind ?_
  simp only [bind_some, entry, map_some, closed, Bool.false_eq_true, if_false, marked_index]
  exact dooming.map rfl

section Enumeration

theorem Mixed.cut (mixed : Mixed hash index (hash key &&& index.mask) as t)
    (going : t.isInitialized = true) {error : Int} (unusable : index.newEntry t = .error error)
    (others : ∀ a ∈ as, index.hasKey key a = false) (findParent : Bool) :
    ∃ linked, Mixed hash linked (hash key &&& index.mask) (as.filter index.isClean) 0 ∧
      index.Carries as linked (as.filter index.isClean) ∧
      ∀ r, Ends (matchStep key (hash key) findParent) (lookup (hash key) linked) r →
        Ends (matchStep key (hash key) findParent) (lookup (hash key) index) r := by
  have whole : ∀ a ∈ as.take as.length, index.hasKey key a = false := by
    rw [take_length]
    exact others
  obtain ⟨after, repaired, passes⟩ :=
    EntryIndex.reaches mixed.enabled findParent (mixed.quiet le_rfl whole)
  obtain ⟨mixed', carries⟩ := repaired.mixed mixed le_rfl
  rw [repairedChain, take_length, drop_length, append_nil] at mixed' carries
  rw [mixed.last, mixed.cleanBefore le_rfl, take_length] at passes
  have outside : t ∉ index.cleanBefore (hash key &&& index.mask) as.length := by
    intro member
    obtain ⟨record, clean⟩ := isClean_iff.mp (mem_cleanBefore.mp member).2
    rw [unusable] at clean
    cases clean
  cases there : after.newEntry t with
  | ok accepted =>
    obtain ⟨record, dirty⟩ := accepted
    rw [(repaired.accepted outside there).1] at unusable
    cases unusable
  | error error =>
    have relinked := setLink_relinked mixed'.path mixed'.nodup 0
    have split : Mixed hash after (hash key &&& index.mask) (as.filter index.isClean ++ []) t := by
      rw [append_nil]
      exact mixed'
    obtain ⟨linked, carries'⟩ := split.relink
      (fun b member => carries.isClean (mem_filter.mp member).1 (mem_filter.mp member).2)
      rfl (.nil 0) (List.Sublist.refl []) relinked
    rw [append_nil] at linked carries'
    refine ⟨_, linked, carries.trans carries', fun r ends => (passes.ends r).mpr ?_⟩
    have pass := matchStep_error key (hash key) findParent (as.filter index.isClean).getLast?
      mixed'.enabled going there
    rw [carries.mask] at pass
    exact (ends_step pass r).mpr ends

theorem Mixed.before (mixed : Mixed hash index bucket (front ++ a :: back) t) :
    Mixed hash index bucket front a := by
  obtain ⟨s, path, rest⟩ := mixed.path.split
  cases rest with
  | cons here _ =>
    exact mixed.transfer (fun b member => mem_append_left _ member)
      (nodup_append.mp mixed.nodup).1 mixed.enabled rfl path fun b member record dirty readable =>
        ⟨record.next, record.state, dirty, readable.accepted, readable.usable⟩

theorem Carries.extend (carries : index.Carries (front ++ back) after as')
    (dirty : index.newEntry a = .ok (record, true)) : index.Carries (front ++ a :: back) after as' := by
  refine ⟨carries.mask, fun b member held clean => ?_⟩
  rw [mem_append, mem_cons] at member
  rcases member with inside | rfl | inside
  · exact carries.entry b (mem_append_left _ inside) held clean
  · rw [dirty] at clean
    cases clean
  · exact carries.entry b (mem_append_right _ inside) held clean

theorem hasKey_congr (same : after.newEntry a = index.newEntry a) : after.hasKey key a = index.hasKey key a := by
  rw [hasKey, hasKey, same]

theorem Mixed.destroyInvalidEntry (mixed : Mixed hash index bucket as t) (outside : a ∉ as)
    (apart : ∀ b ∈ as, ∀ held, index.entries b = some held → held.rankingsNode ≠ record.rankingsNode)
    (removable : (index.nodes record.rankingsNode).any NodeRecord.removable = true) :
    Mixed hash (index.destroyInvalidEntry a record) bucket as t ∧
      index.Carries as (index.destroyInvalidEntry a record) as := by
  have enabled : (index.destroyInvalidEntry a record).disabled = false := by
    rw [EntryIndex.destroyInvalidEntry]
    simp only [mixed.enabled, removable, Bool.not_true, Bool.or_self]
  exact mixed.without outside record.rankingsNode apart enabled ⟨rfl, rfl, rfl⟩ (fun _ _ => rfl)
    (fun b away => if_neg away) fun n away => if_neg away

theorem newEntry_destroyInvalidEntry (outside : a ∉ as)
    (apart : ∀ b ∈ as, ∀ held, index.entries b = some held → held.rankingsNode ≠ record.rankingsNode) :
    ∀ b ∈ as, (index.destroyInvalidEntry a record).newEntry b = index.newEntry b :=
  newEntry_without outside record.rankingsNode apart rfl (fun _ _ => rfl)
    (fun _ away => if_neg away) fun _ away => if_neg away

theorem nodeOf_apart (outside : a ∉ as) (there : index.entries a = some record)
    (apart : ∀ b ∈ as, index.nodeOf b = index.nodeOf a → b = a) :
    ∀ b ∈ as, ∀ held, index.entries b = some held → held.rankingsNode ≠ record.rankingsNode := by
  intro b member held entry shared
  have same : index.nodeOf b = index.nodeOf a := by
    rw [nodeOf, nodeOf, entry, there, map_some, map_some, shared]
  rw [apart b member same] at member
  exact outside member

theorem setPointerForInvalidEntry_removable (readable : index.Readable hash bucket a record true) :
    ((index.setPointerForInvalidEntry record).nodes record.rankingsNode).any NodeRecord.removable = true := by
  have usable := readable.usable
  cases loaded : index.nodes record.rankingsNode with
  | none =>
    rw [loaded] at usable
    cases usable
  | some node =>
    rw [loaded, any_some, Bool.and_eq_true] at usable
    rw [setPointerForInvalidEntry_node loaded usable.2]
    exact usable.1

theorem closed_of_dirty (dirty : index.newEntry a = .ok (record, true)) : index.opened a = false := by
  rcases (newEntry_ok.mp dirty).2 with ⟨-, clean⟩ | ⟨closed, -⟩
  · cases clean
  · exact closed

theorem Mixed.last_of_next (mixed : Mixed hash index bucket (front ++ a :: back) t)
    (at_end : t.isInitialized = false) (there : index.entries a = some record)
    (last : record.next = 0) : back = [] := by
  obtain ⟨-, path⟩ := mixed.saneNext at_end there
  rw [last] at path
  generalize start : (0 : CacheAddr) = s at path
  cases path with
  | nil _ => rfl
  | cons _ _ =>
    obtain ⟨held, dirty, next⟩ := mixed.readable s (mem_append_right _ (mem_cons_of_mem _ mem_cons_self))
    have going := next.initialized
    rw [← start] at going
    cases going

theorem newEntry_cleared (closed : index.opened a = false) (block : a.isBlockOf .block256 = true) :
    (index.destroyInvalidEntry a record).newEntry a = .error errReadFailure := by
  have cleared : (index.destroyInvalidEntry a record).entries a = none := if_pos rfl
  have closed' : (index.destroyInvalidEntry a record).opened a = false := closed
  rw [newEntry, closed', cleared, block]
  rfl

theorem Mixed.destroys_outside (mixed : Mixed services.hash index (services.hash record.key &&& index.mask) as t)
    (at_end : t.isInitialized = false)
    (readable : index.Readable services.hash (services.hash record.key &&& index.mask) a record true)
    (apart : ∀ b ∈ as, index.nodeOf b = index.nodeOf a → b = a)
    (others : ∀ b ∈ as, index.hasKey record.key b = false) (outside : a ∉ as) :
    ∃ after, index.Keeps services.hash (services.hash record.key &&& index.mask) as after ∧
      Settles (fun fuel => index.destroyInvalidEntryFromEnumeration services fuel a record) after := by
  have there := (newEntry_ok.mp readable.accepted).1
  have away : ∀ b ∈ as, b ≠ a := by
    rintro b member rfl
    exact outside member
  have nodes := nodeOf_apart outside there apart
  have removable := setPointerForInvalidEntry_removable readable
  obtain ⟨marked, carries, same⟩ := mixed.setPointerForInvalidEntry readable apart
  have others' : ∀ b ∈ as, (index.setPointerForInvalidEntry record).hasKey record.key b = false :=
    fun b member => (hasKey_congr (same b member (away b member))).trans (others b member)
  simp only [destroyInvalidEntryFromEnumeration]
  by_cases last : record.next = 0
  · simp only [last, if_true]
    obtain ⟨destroyed, carries'⟩ := marked.destroyInvalidEntry outside nodes removable
    have accepted : ∀ b ∈ as, ((index.setPointerForInvalidEntry record).destroyInvalidEntry a
        record).newEntry b = (index.setPointerForInvalidEntry record).newEntry b :=
      newEntry_destroyInvalidEntry outside nodes
    obtain ⟨after, mixed', carries'', -, settled⟩ := destroyed.misses at_end fun b member =>
      (hasKey_congr (accepted b member)).trans (others' b member)
    exact ⟨after, ⟨_, t, mixed', at_end, (carries.trans carries').trans carries''⟩,
      (doomEntry_misses destroyed.enabled settled).map rfl⟩
  · simp only [last, if_false]
    obtain ⟨after, mixed', carries', left, settled⟩ := marked.misses at_end others'
    have doomed := doomEntry_misses marked.enabled settled
    cases cleared : (after.nodes record.rankingsNode).isSome with
    | false =>
      refine ⟨after, ⟨_, t, mixed', at_end, carries.trans carries'⟩, doomed.map ?_⟩
      simp only [cleared, Bool.false_eq_true, if_false]
    | true =>
      have kept : (after.nodes record.rankingsNode).any NodeRecord.removable = true := by
        rcases left record.rankingsNode with kept | none
        · rw [kept]
          exact removable
        · rw [none] at cleared
          cases cleared
      have nodes' : ∀ b ∈ as.filter (index.setPointerForInvalidEntry record).isClean, ∀ held,
          after.entries b = some held → held.rankingsNode ≠ record.rankingsNode := by
        intro b member held entry
        obtain ⟨inside, clean⟩ := mem_filter.mp member
        obtain ⟨found, clean⟩ := isClean_iff.mp clean
        obtain ⟨-, next, clean'⟩ := carries'.entry b inside found clean
        have entry' := (newEntry_ok.mp clean').1
        rw [entry] at entry'
        cases entry'
        exact nodes b inside found (newEntry_ok.mp clean).1
      obtain ⟨destroyed, carries''⟩ := mixed'.destroyInvalidEntry
        (fun member => outside (mem_filter.mp member).1) nodes' kept
      refine ⟨_, ⟨_, t, destroyed, at_end, (carries.trans carries').trans carries''⟩, doomed.map ?_⟩
      simp only [cleared, if_true]

section

variable
  (mixed : Mixed services.hash index (services.hash record.key &&& index.mask) (front ++ a :: back) t)
  (at_end : t.isInitialized = false)
  (readable : index.Readable services.hash (services.hash record.key &&& index.mask) a record true)
  (others : ∀ b ∈ front, index.hasKey record.key b = false)
include mixed at_end readable others

theorem Mixed.destroys_last (last : record.next = 0) :
    ∃ after, index.Keeps services.hash (services.hash record.key &&& index.mask) (front ++ a :: back) after ∧
      Settles (fun fuel => index.destroyInvalidEntryFromEnumeration services fuel a record) after := by
  have there := (newEntry_ok.mp readable.accepted).1
  have closed := closed_of_dirty readable.accepted
  have no_more := mixed.last_of_next at_end there last
  subst no_more
  have outside : a ∉ front := fun member =>
    (nodup_append.mp mixed.nodup).2.2 a member a mem_cons_self rfl
  have away : ∀ b ∈ front, b ≠ a := by
    rintro b member rfl
    exact outside member
  have apart : ∀ b ∈ front, index.nodeOf b = index.nodeOf a → b = a := fun b member same =>
    mixed.apart b (mem_append_left _ member) a (mem_append_right _ mem_cons_self) same
  have nodes := nodeOf_apart outside there apart
  obtain ⟨marked, carries, same⟩ := mixed.before.setPointerForInvalidEntry readable apart
  obtain ⟨destroyed, carries'⟩ :=
    marked.destroyInvalidEntry outside nodes (setPointerForInvalidEntry_removable readable)
  have accepted : ∀ b ∈ front, ((index.setPointerForInvalidEntry record).destroyInvalidEntry a
      record).newEntry b = (index.setPointerForInvalidEntry record).newEntry b :=
    newEntry_destroyInvalidEntry outside nodes
  have others' : ∀ b ∈ front, ((index.setPointerForInvalidEntry record).destroyInvalidEntry a
      record).hasKey record.key b = false := by
    intro b member
    rw [hasKey_congr (accepted b member), hasKey_congr (same b member (away b member))]
    exact others b member
  have unusable : ((index.setPointerForInvalidEntry record).destroyInvalidEntry a record).newEntry a =
      .error errReadFailure :=
    newEntry_cleared closed readable.block
  obtain ⟨linked, cut, carries'', restart⟩ :=
    destroyed.cut readable.initialized unusable others' false
  have others'' : ∀ b ∈ front.filter ((index.setPointerForInvalidEntry record).destroyInvalidEntry a
      record).isClean, linked.hasKey record.key b = false := by
    intro b member
    obtain ⟨inside, clean⟩ := mem_filter.mp member
    exact (carries''.hasKey inside clean record.key).trans (others' b inside)
  rw [← carries''.mask] at cut
  obtain ⟨after, mixed', carries''', -, ends⟩ := cut.lookup_none rfl others'' false
  rw [carries''.mask] at mixed'
  refine ⟨after, ⟨_, 0, mixed', rfl, ?_⟩, ?_⟩
  · refine Carries.extend ?_ readable.accepted
    rw [append_nil]
    exact ((carries.trans carries').trans carries'').trans carries'''
  · simp only [destroyInvalidEntryFromEnumeration, last, if_true]
    have settled := openEntryImpl_settles destroyed.enabled (restart _ ends)
    exact (doomEntry_misses destroyed.enabled settled).map rfl

theorem Mixed.destroys_normal (going : record.next ≠ 0) (normal : record.state = .normal) :
    ∃ after, index.Keeps services.hash (services.hash record.key &&& index.mask) (front ++ a :: back) after ∧
      Settles (fun fuel => index.destroyInvalidEntryFromEnumeration services fuel a record) after := by
  have closed := closed_of_dirty readable.accepted
  have member : a ∈ front ++ a :: back := mem_append_right _ mem_cons_self
  obtain ⟨marked, carries, same⟩ := mixed.setPointerForInvalidEntry readable
    fun b member' same => mixed.apart b member' a member same
  have others' : ∀ b ∈ front, (index.setPointerForInvalidEntry record).hasKey record.key b = false := by
    intro b inside
    have away : b ≠ a := by
      rintro rfl
      exact (nodup_append.mp mixed.nodup).2.2 b inside b mem_cons_self rfl
    rw [hasKey_congr (same b (mem_append_left _ inside) away)]
    exact others b inside
  obtain ⟨after, mixed', carries', cleared, settled⟩ := marked.dooms at_end
    (setPointerForInvalidEntry_clean readable) rfl others' normal closed
  refine ⟨after, ⟨_, t, mixed', at_end, ?_⟩, ?_⟩
  · exact ((carries.without mixed.nodup).trans carries').extend readable.accepted
  · simp only [destroyInvalidEntryFromEnumeration, going, if_false]
    refine settled.map ?_
    simp only [cleared, isSome_none, Bool.false_eq_true, if_false]

end

theorem firstClean_none (none : index.firstClean key as = none) : ∀ b ∈ as, index.hasKey key b = false := by
  intro b member
  simpa using List.find?_eq_none.mp none b member

/-- What the operations make of a chain with invalid entries. -/
theorem invalid_entries_absent (services : Services) (index : EntryIndex) (bucket : UInt32)
    (as : List CacheAddr) (t : CacheAddr) (mixed : Mixed services.hash index bucket as t)
    (at_end : t.isInitialized = false) :
    (∀ key, services.hash key &&& index.mask = bucket → ∃ after, index.Keeps services.hash bucket as after ∧
        Settles (fun fuel => index.openEntryImpl services fuel key)
          (after, (index.firstClean key as).filter fun a =>
            (index.entries a).any fun record => record.state = .normal)) ∧
    (∀ key address node, services.hash key &&& index.mask = bucket → key ≠ [] →
      index.firstClean key as = none → services.newBlocks key = some (address, node) →
      (as = [] ∨ ∃ a ∈ as, index.isClean a = true) →
      ∃ repaired after, index.Keeps services.hash bucket as repaired ∧
        repaired.addEntry services key (as.filter index.isClean).getLast? = (after, some address) ∧
        Settles (fun fuel => index.createEntryImpl services fuel key) (after, some address)) ∧
    (∀ a record, index.Readable services.hash bucket a record true →
      (∀ b ∈ as, index.nodeOf b = index.nodeOf a → b = a) →
      index.firstClean record.key as = none →
      (record.state = .normal ∨ record.next = 0 ∨ a ∉ as) →
      ∃ after, index.Keeps services.hash bucket as after ∧
        Settles (fun fuel => index.destroyInvalidEntryFromEnumeration services fuel a record)
          after) := by
  refine ⟨?_, ?_, ?_⟩
  · rintro key rfl
    cases first : index.firstClean key as with
    | none =>
      obtain ⟨after, mixed', carries, -, settled⟩ := mixed.misses at_end (firstClean_none first)
      exact ⟨after, ⟨_, t, mixed', at_end, carries⟩, settled⟩
    | some a =>
      obtain ⟨here, front, back, rfl, others⟩ := List.find?_eq_some_iff_append.mp first
      obtain ⟨after, mixed', carries, settled⟩ := mixed.opens here fun b member => by simpa using others b member
      rw [Option.filter_some]
      exact ⟨after, ⟨_, t, mixed', at_end, carries⟩, settled⟩
  · rintro key address node rfl named first blocks clean
    obtain ⟨repaired, mixed', carries, settled⟩ :=
      mixed.creates at_end (firstClean_none first) named clean
    have added : ∃ after, repaired.addEntry services key (as.filter index.isClean).getLast? =
        (after, some address) := by
      rw [addEntry, blocks]
      exact ⟨_, rfl⟩
    obtain ⟨after, added⟩ := added
    rw [added] at settled
    exact ⟨repaired, after, ⟨_, t, mixed', at_end, carries⟩, added, settled⟩
  · intro a record readable apart first sound
    have others := firstClean_none first
    obtain rfl : services.hash record.key &&& index.mask = bucket := by
      rw [← readable.hashed]
      exact readable.placed
    by_cases inside : a ∈ as
    · obtain ⟨front, back, rfl⟩ := List.append_of_mem inside
      have front_others : ∀ b ∈ front, index.hasKey record.key b = false :=
        fun b member => others b (List.mem_append_left _ member)
      by_cases last : record.next = 0
      · exact mixed.destroys_last at_end readable front_others last
      · have normal : record.state = .normal :=
          sound.resolve_right fun other => other.elim last fun outside => outside inside
        exact mixed.destroys_normal at_end readable front_others last normal
    · exact mixed.destroys_outside at_end readable apart others inside

theorem apart_of_nodup (nodup : (as.map index.nodeOf).Nodup) :
    ∀ a ∈ as, ∀ b ∈ as, index.nodeOf a = index.nodeOf b → a = b :=
  fun _ member _ member' same => inj_on_of_nodup_map nodup member member' same

/-- One bucket has an evicted entry, one an entry that was left open, and one an entry that was left
open behind a clean one with the same key. The chain of the last has two entries that were left open
around a clean one. -/
def sample : EntryIndex :=
  let record (key : List UInt8) (next node : CacheAddr) (state : EntryState) : EntryRecord :=
    ⟨(key.headD 0).toUInt32, next, node, key.length, key, state⟩
  let records : List (CacheAddr × EntryRecord × Int) := [(0xA0000001, record [1] 0 0x90000001 .evicted, 0),
    (0xA0000002, record [2] 0 0x90000002 .normal, 4),
    (0xA0000003, record [3] 0xA0000004 0x90000003 .normal, 0),
    (0xA0000004, record [3] 0 0x90000004 .normal, 4),
    (0xA0000005, record [4, 1] 0xA0000006 0x90000005 .normal, 4),
    (0xA0000006, record [4, 2] 0xA0000007 0x90000006 .normal, 0),
    (0xA0000007, record [4, 3] 0 0x90000007 .normal, 4)]
  { table := fun bucket =>
      match bucket with
      | 1 => 0xA0000001
      | 2 => 0xA0000002
      | 3 => 0xA0000003
      | 4 => 0xA0000005
      | _ => 0
    mask := 0xFF
    entries := fun a => (records.find? fun entry => entry.1 = a).map fun entry => entry.2.1
    nodes := fun n => (records.find? fun entry => entry.2.1.rankingsNode = n).map fun entry =>
      ⟨entry.2.2, 0, true, true, true⟩
    opened := fun _ => false
    currentEntryId := 5
    disabled := false }

def sampleServices : Services where
  hash key := (key.headD 0).toUInt32
  newEviction := true
  moves _ := false
  createBlock fileType _ := if fileType = .rankings then some 0x90000008 else some 0xA0000008
  keyStored := true
  inserted := true

theorem sample_mixed : Mixed sampleServices.hash sample 4 [0xA0000005, 0xA0000006, 0xA0000007] 0 where
  enabled := rfl
  path := .cons rfl (.cons rfl (.cons rfl (.nil 0)))
  nodup := by decide
  readable := by
    intro a member
    simp only [mem_cons, not_mem_nil, or_false] at member
    rcases member with rfl | rfl | rfl
    · exact ⟨_, true, by decide, rfl, rfl, rfl, rfl, rfl⟩
    · exact ⟨_, false, by decide, rfl, rfl, rfl, rfl, rfl⟩
    · exact ⟨_, true, by decide, rfl, rfl, rfl, rfl, rfl⟩
  apart := apart_of_nodup (by decide)

theorem sample_entries_absent :
    (∃ after, sample.Keeps sampleServices.hash 4 [0xA0000005, 0xA0000006, 0xA0000007] after ∧
      Settles (fun fuel => sample.openEntryImpl sampleServices fuel [4, 2]) (after, some 0xA0000006)) ∧
    (∃ repaired after, sample.Keeps sampleServices.hash 4 [0xA0000005, 0xA0000006, 0xA0000007] repaired ∧
        repaired.addEntry sampleServices [4, 1] (some 0xA0000006) = (after, some 0xA0000008) ∧
        Settles (fun fuel => sample.createEntryImpl sampleServices fuel [4, 1]) (after, some 0xA0000008)) ∧
    ∃ after, sample.Keeps sampleServices.hash 4 [0xA0000005, 0xA0000006, 0xA0000007] after ∧
      Settles (fun fuel => sample.destroyInvalidEntryFromEnumeration sampleServices fuel 0xA0000005
        ⟨4, 0xA0000006, 0x90000005, 2, [4, 1], .normal⟩) after := by
  obtain ⟨opens, creates, destroys⟩ := invalid_entries_absent sampleServices sample 4
    [0xA0000005, 0xA0000006, 0xA0000007] 0 sample_mixed rfl
  exact ⟨opens [4, 2] rfl,
    creates [4, 1] 0xA0000008 0x90000008 rfl (by decide) rfl rfl (Or.inr ⟨0xA0000006, by decide, rfl⟩),
    destroys 0xA0000005 _ ⟨by decide, rfl, rfl, rfl, rfl, rfl⟩
      (fun b member => sample_mixed.apart b member 0xA0000005 (by decide)) rfl (Or.inl rfl)⟩

/-- An evicted entry is not opened. With nothing but an entry that was left open in the chain, the
second lookup of `CreateEntryImpl` finds no parent. An enumeration dooms the clean entry that has the
key of the invalid one. -/
theorem invalid_entries_seen :
    ¬ (∀ (services : Services) (index : EntryIndex) (bucket : UInt32) (as : List CacheAddr)
        (t : CacheAddr) (key : List UInt8), Mixed services.hash index bucket as t →
        t.isInitialized = false → services.hash key &&& index.mask = bucket →
        ∃ after found, Settles (fun fuel => index.openEntryImpl services fuel key) (after, found) ∧
          (found.isSome = true ↔ ∃ a ∈ as, index.hasKey key a = true)) ∧
    ¬ (∀ (services : Services) (index : EntryIndex) (bucket : UInt32) (as : List CacheAddr)
        (t : CacheAddr) (key : List UInt8) (address node : CacheAddr),
        Mixed services.hash index bucket as t → t.isInitialized = false →
        services.hash key &&& index.mask = bucket → index.firstClean key as = none →
        services.newBlocks key = some (address, node) →
        ∃ after, Settles (fun fuel => index.createEntryImpl services fuel key) (after, some address)) ∧
    ¬ ∀ (services : Services) (index : EntryIndex) (bucket : UInt32) (as : List CacheAddr)
        (t : CacheAddr) (a : CacheAddr) (record : EntryRecord),
        Mixed services.hash index bucket as t → t.isInitialized = false → a ∈ as →
        index.Readable services.hash bucket a record true →
        ∃ after, index.Keeps services.hash bucket as after ∧
          Settles (fun fuel => index.destroyInvalidEntryFromEnumeration services fuel a record)
            after := by
  refine ⟨fun claim => ?_, fun claim => ?_, fun claim => ?_⟩
  · have mixed : Mixed sampleServices.hash sample 1 [0xA0000001] 0 := by
      refine ⟨rfl, .cons rfl (.nil 0), by decide, fun a member => ?_, apart_of_nodup (by decide)⟩
      rw [List.mem_singleton.mp member]
      exact ⟨_, false, by decide, rfl, rfl, rfl, rfl, rfl⟩
    obtain ⟨after, found, ⟨enough, settled⟩, opened⟩ :=
      claim sampleServices sample 1 [0xA0000001] 0 [1] mixed rfl rfl
    have ran := settled (enough + 1) (Nat.le_succ enough)
    have missed : found = none := congrArg Prod.snd (some.inj ran).symm
    rw [missed] at opened
    exact Bool.false_ne_true (opened.mpr ⟨0xA0000001, by decide, rfl⟩)
  · have mixed : Mixed sampleServices.hash sample 2 [0xA0000002] 0 := by
      refine ⟨rfl, .cons rfl (.nil 0), by decide, fun a member => ?_, apart_of_nodup (by decide)⟩
      rw [List.mem_singleton.mp member]
      exact ⟨_, true, by decide, rfl, rfl, rfl, rfl, rfl⟩
    obtain ⟨after, enough, settled⟩ := claim sampleServices sample 2 [0xA0000002] 0 [2, 2]
      0xA0000008 0x90000008 mixed rfl rfl rfl rfl
    have ran := settled (enough + 2) (Nat.le_add_right enough 2)
    have failed : (none : Option CacheAddr) = some 0xA0000008 :=
      congrArg Prod.snd (some.inj ran)
    cases failed
  · have mixed : Mixed sampleServices.hash sample 3 [0xA0000003, 0xA0000004] 0 := by
      refine ⟨rfl, .cons rfl (.cons rfl (.nil 0)), by decide, fun a member => ?_, apart_of_nodup (by decide)⟩
      simp only [List.mem_cons, List.not_mem_nil, or_false] at member
      rcases member with rfl | rfl
      · exact ⟨_, false, by decide, rfl, rfl, rfl, rfl, rfl⟩
      · exact ⟨_, true, by decide, rfl, rfl, rfl, rfl, rfl⟩
    obtain ⟨after, ⟨as', t, -, -, carries⟩, enough, settled⟩ := claim sampleServices sample 3
      [0xA0000003, 0xA0000004] 0 0xA0000004 ⟨3, 0, 0x90000004, 1, [3], .normal⟩ mixed rfl
      (by decide) ⟨by decide, rfl, rfl, rfl, rfl, rfl⟩
    have ran := settled (enough + 3) (Nat.le_add_right enough 3)
    obtain ⟨-, next, clean⟩ := carries.entry 0xA0000003 (by decide) _ rfl
    have lost : after.newEntry 0xA0000003 = .error errReadFailure := by
      rw [← some.inj ran]
      rfl
    rw [lost] at clean
    cases clean

end Enumeration

end EntryIndex

end Glopen.Cache
