import Mathlib.Data.List.Nodup
import Mathlib.Data.List.Infix

/-! The cache of the credentials, along any run of its calls. -/
namespace Glopen.Http.HttpAuthCache

open List Option

abbrev Path := List UInt8

def slash : UInt8 := 47

def getParentDirectory (path : Path) : Path :=
  if slash ∈ path then (path.reverse.dropWhile (· != slash)).reverse else path

def isEnclosingPath (container path : Path) : Bool :=
  (container.isEmpty && path.isEmpty) || (!container.isEmpty && container.isPrefixOf path)

def kMaxNumPathsPerRealmEntry : Nat := 10

def kMaxNumRealmEntries : Nat := 10

section Cache

variable {Origin : Type} [DecidableEq Origin]

structure Key (Origin : Type) where
  origin : Origin
  realm : List UInt8
  scheme : List UInt8
  deriving DecidableEq

structure Entry (Origin : Type) where
  key : Key Origin
  authChallenge : List UInt8
  username : List Nat
  password : List Nat
  nonceCount : Int
  paths : List Path

def Entry.hasEnclosingPath (e : Entry Origin) (dir : Path) : Bool :=
  e.paths.any fun path => isEnclosingPath path dir

def Entry.notSubsumed (e : Entry Origin) (dir : Path) : List Path :=
  e.paths.filter fun path => !isEnclosingPath dir path

def Entry.addPath (e : Entry Origin) (path : Path) : Entry Origin :=
  let parentDir := getParentDirectory path
  if e.hasEnclosingPath parentDir then e
  else
    let paths := e.notSubsumed parentDir
    let paths := if paths.length ≥ kMaxNumPathsPerRealmEntry then paths.dropLast else paths
    { e with paths := parentDir :: paths }

abbrev EntryList (Origin : Type) := List (Entry Origin)

def lookup (entries : EntryList Origin) (key : Key Origin) : Option (Entry Origin) :=
  entries.find? fun e => e.key = key

def lookupByPath (entries : EntryList Origin) (origin : Origin) (path : Path) : Option (Entry Origin) :=
  let parentDir := getParentDirectory path
  entries.find? fun e => e.key.origin = origin && e.hasEnclosingPath parentDir

/-- What is written through the pointer that `Lookup` returns. -/
def write (key : Key Origin) (f : Entry Origin → Entry Origin) : EntryList Origin → EntryList Origin
  | [] => []
  | e :: entries => if e.key = key then f e :: entries else e :: write key f entries

def withEntry (entries : EntryList Origin) (key : Key Origin) : EntryList Origin :=
  if (lookup entries key).isSome then entries
  else
    ⟨key, [], [], [], 0, []⟩ ::
      if entries.length ≥ kMaxNumRealmEntries then entries.dropLast else entries

def add (entries : EntryList Origin) (key : Key Origin) (authChallenge : List UInt8)
    (username password : List Nat) (path : Path) : EntryList Origin :=
  write key (fun e => Entry.addPath ⟨e.key, authChallenge, username, password, 1, e.paths⟩ path)
    (withEntry entries key)

def remove (entries : EntryList Origin) (key : Key Origin) (username password : List Nat) :
    EntryList Origin × Bool :=
  match lookup entries key with
  | some e =>
    if username = e.username ∧ password = e.password then
      (entries.eraseP fun e => e.key = key, true)
    else (entries, false)
  | none => (entries, false)

inductive Op (Origin : Type) where
  | add (key : Key Origin) (authChallenge : List UInt8) (username password : List Nat) (path : Path)
  | remove (key : Key Origin) (username password : List Nat)
  | lookup (key : Key Origin)
  | lookupByPath (origin : Origin) (path : Path)

def step (entries : EntryList Origin) : Op Origin → EntryList Origin
  | .add key authChallenge username password path =>
    HttpAuthCache.add entries key authChallenge username password path
  | .remove key username password => (HttpAuthCache.remove entries key username password).1
  | .lookup _ | .lookupByPath _ _ => entries

def run (ops : List (Op Origin)) : EntryList Origin := ops.foldl step []

def lostEntry (entries : EntryList Origin) : Op Origin → Option (Key Origin)
  | .add key _ _ _ _ =>
    if (lookup entries key).isNone ∧ kMaxNumRealmEntries ≤ entries.length then
      entries.getLast?.map Entry.key
    else none
  | .remove key username password =>
    if (HttpAuthCache.remove entries key username password).2 then some key else none
  | .lookup _ | .lookupByPath _ _ => none

def evictedPath (entries : EntryList Origin) : Op Origin → Option (Key Origin × Path)
  | .add key _ _ _ path => (lookup entries key).bind fun e =>
    let left := e.notSubsumed (getParentDirectory path)
    if e.hasEnclosingPath (getParentDirectory path) = false ∧ kMaxNumPathsPerRealmEntry ≤ left.length then
      left.getLast?.map fun dir => (key, dir)
    else none
  | _ => none

def never (does : EntryList Origin → Op Origin → Bool) : EntryList Origin → List (Op Origin) → Bool
  | _, [] => true
  | entries, op :: ops => !does entries op && never does (step entries op) ops

def takes (key : Key Origin) (path : Path) (entries : EntryList Origin) (op : Op Origin) : Bool :=
  lostEntry entries op = some key || (evictedPath entries op).any fun evicted =>
      evicted.1 = key && isEnclosingPath evicted.2 (getParentDirectory path)

def Added (ops : List (Op Origin)) (key : Key Origin) (path : Path) : Prop :=
  ∃ earlier authChallenge username password later,
    ops = earlier ++ .add key authChallenge username password path :: later ∧
      never (fun entries op => lostEntry entries op = some key)
        (run (earlier ++ [.add key authChallenge username password path])) later = true

/-- What `CheckPathIsValid` asks. -/
def ValidPath (path : Path) : Prop := path = [] ∨ path.head? = some slash

def Within (space path : Path) : Prop :=
  if space = [] then path = [] else getParentDirectory space <+: path

def Apart (a b : Path) : Prop := isEnclosingPath a b = false ∧ isEnclosingPath b a = false

structure Entry.Sound (e : Entry Origin) : Prop where
  apart : e.paths.Pairwise Apart
  count : e.paths.length ≤ kMaxNumPathsPerRealmEntry

structure Sound (entries : EntryList Origin) : Prop where
  keys : (entries.map Entry.key).Nodup
  count : entries.length ≤ kMaxNumRealmEntries
  each : ∀ e ∈ entries, e.Sound

section Paths

theorem enclosing_iff {container path : Path} : isEnclosingPath container path = true ↔
    container = [] ∧ path = [] ∨ container ≠ [] ∧ container <+: path := by
  simp [isEnclosingPath, isPrefixOf_iff_prefix]

theorem enclosing_trans {a b c : Path} (ab : isEnclosingPath a b = true)
    (bc : isEnclosingPath b c = true) : isEnclosingPath a c = true := by
  rw [enclosing_iff] at ab bc ⊢
  rcases ab with ⟨rfl, rfl⟩ | ⟨some_a, ab⟩
  · exact bc
  · rcases bc with ⟨rfl, rfl⟩ | ⟨-, bc⟩
    · exact absurd (prefix_nil.mp ab) some_a
    · exact .inr ⟨some_a, ab.trans bc⟩

theorem enclosing_refl (path : Path) : isEnclosingPath path path = true := by
  rw [enclosing_iff]
  by_cases empty : path = []
  · exact .inl ⟨empty, empty⟩
  · exact .inr ⟨empty, prefix_rfl⟩

theorem parent_of_split {front tail : Path} (plain : slash ∉ tail) :
    getParentDirectory (front ++ slash :: tail) = front ++ [slash] := by
  have dropped : ∀ byte ∈ tail.reverse, (byte != slash) = true := by
    intro byte there
    have other : byte ≠ slash := fun same => plain (same ▸ mem_reverse.mp there)
    simpa using other
  rw [getParentDirectory, if_pos (by simp), reverse_append, reverse_cons,
    append_assoc, dropWhile_append_of_pos dropped]
  simp

theorem parent_split {path : Path} (slashed : slash ∈ path) :
    ∃ front tail, path = front ++ slash :: tail ∧ slash ∉ tail ∧ getParentDirectory path = front ++ [slash] := by
  obtain ⟨tail, front, whole, plain⟩ := eq_append_cons_of_mem (mem_reverse.mpr slashed)
  have split : path = front.reverse ++ slash :: tail.reverse := by
    rw [← reverse_reverse path, whole]
    simp
  have plain : slash ∉ tail.reverse := by simpa using plain
  exact ⟨front.reverse, tail.reverse, split, plain, split ▸ parent_of_split plain⟩

/-- A path below a directory has its own directory below it. -/
theorem Within.enclosing {space path : Path} (valid : ValidPath space) (within : Within space path) :
    isEnclosingPath (getParentDirectory space) (getParentDirectory path) = true := by
  rw [Within] at within
  rcases valid with rfl | rooted
  · rw [if_pos rfl] at within
    subst within
    rfl
  · have some_space : space ≠ [] := by
      rintro rfl
      cases rooted
    obtain ⟨front, tail, -, -, parent⟩ := parent_split (List.mem_of_head? rooted)
    rw [if_neg some_space, parent] at within
    obtain ⟨rest, rfl⟩ := within
    rw [parent, enclosing_iff]
    refine .inr ⟨by simp, ?_⟩
    by_cases deeper : slash ∈ rest
    · obtain ⟨inner, last, rfl, plain, -⟩ := parent_split deeper
      rw [← append_assoc, parent_of_split plain, append_assoc]
      exact prefix_append _ _
    · rw [append_assoc, singleton_append, parent_of_split deeper]

theorem Entry.Sound.addPath {e : Entry Origin} (sound : e.Sound) (path : Path) : (e.addPath path).Sound := by
  rw [Entry.addPath]
  split
  · exact sound
  · rename_i uncovered
    have left : (e.notSubsumed (getParentDirectory path)).Sublist e.paths := filter_sublist
    have apart : ∀ x ∈ e.notSubsumed (getParentDirectory path), Apart (getParentDirectory path) x := by
      intro x there
      refine ⟨by simpa using (mem_filter.mp there).2, ?_⟩
      rw [Entry.hasEnclosingPath, Bool.not_eq_true, List.any_eq_false] at uncovered
      simpa using uncovered x (left.mem there)
    have small := left.length_le
    have count := sound.count
    have ten : kMaxNumPathsPerRealmEntry = 10 := rfl
    simp only
    split
    · refine ⟨pairwise_cons.mpr ⟨fun x there => apart x (mem_of_mem_dropLast there), ?_⟩, ?_⟩
      · exact sound.apart.sublist ((dropLast_sublist _).trans left)
      · rw [length_cons, length_dropLast]
        omega
    · refine ⟨pairwise_cons.mpr ⟨apart, sound.apart.sublist left⟩, ?_⟩
      rw [length_cons]
      omega

end Paths

section Writes

variable {entries : EntryList Origin} {key : Key Origin}
  {f : Entry Origin → Entry Origin} {e : Entry Origin}

theorem write_keys (keeps : ∀ e, (f e).key = e.key) (entries : EntryList Origin) :
    (write key f entries).map Entry.key = entries.map Entry.key := by
  induction entries with
  | nil => rfl
  | cons first entries ih =>
    rw [write]
    split
    · rw [map_cons, map_cons, keeps]
    · rw [map_cons, map_cons, ih]

theorem mem_write (there : e ∈ write key f entries) (distinct : (entries.map Entry.key).Nodup) :
    e ∈ entries ∧ e.key ≠ key ∨ ∃ before ∈ entries, before.key = key ∧ e = f before := by
  induction entries with
  | nil => cases there
  | cons first entries ih =>
    rw [map_cons, nodup_cons] at distinct
    rw [write] at there
    split at there
    · rename_i here
      rcases mem_cons.mp there with rfl | behind
      · exact .inr ⟨first, mem_cons_self, here, rfl⟩
      · refine .inl ⟨mem_cons_of_mem _ behind, fun same => distinct.1 ?_⟩
        rw [here, ← same]
        exact List.mem_map_of_mem behind
    · rename_i other
      rcases mem_cons.mp there with rfl | behind
      · exact .inl ⟨mem_cons_self, other⟩
      · rcases ih behind distinct.2 with ⟨old, apart⟩ | ⟨before, old, rest⟩
        · exact .inl ⟨mem_cons_of_mem _ old, apart⟩
        · exact .inr ⟨before, mem_cons_of_mem _ old, rest⟩

theorem mem_write_other (there : e ∈ entries) (other : e.key ≠ key) : e ∈ write key f entries := by
  induction entries with
  | nil => cases there
  | cons first entries ih =>
    rw [write]
    rcases mem_cons.mp there with rfl | behind
    · rw [if_neg other]
      exact mem_cons_self
    · split
      · exact mem_cons_of_mem _ behind
      · exact mem_cons_of_mem _ (ih behind)

theorem mem_write_here (there : e ∈ entries) (distinct : (entries.map Entry.key).Nodup)
    (here : e.key = key) : f e ∈ write key f entries := by
  induction entries with
  | nil => cases there
  | cons first entries ih =>
    rw [map_cons, nodup_cons] at distinct
    rw [write]
    rcases mem_cons.mp there with rfl | behind
    · rw [if_pos here]
      exact mem_cons_self
    · have apart : first.key ≠ key := by
        rintro rfl
        exact distinct.1 (here ▸ List.mem_map_of_mem behind)
      rw [if_neg apart]
      exact mem_cons_of_mem _ (ih behind distinct.2)

theorem lookup_mem (found : lookup entries key = some e) : e ∈ entries ∧ e.key = key :=
  ⟨List.mem_of_find?_eq_some found, by simpa using List.find?_some found⟩

theorem lookup_none (none_ : lookup entries key = none) (there : e ∈ entries) : e.key ≠ key := by
  simpa using List.find?_eq_none.mp none_ e there

theorem key_unique (distinct : (entries.map Entry.key).Nodup) {e' : Entry Origin}
    (there : e ∈ entries) (there' : e' ∈ entries) (same : e.key = e'.key) : e = e' :=
  inj_on_of_nodup_map distinct there there' same

theorem lookup_of_mem (distinct : (entries.map Entry.key).Nodup) (there : e ∈ entries) :
    lookup entries e.key = some e := by
  cases found : lookup entries e.key with
  | none => exact absurd rfl (lookup_none found there)
  | some e' =>
    obtain ⟨there', same⟩ := lookup_mem found
    rw [key_unique distinct there' there same]

theorem withEntry_cases (there : e ∈ withEntry entries key) :
    e ∈ entries ∨ lookup entries key = none ∧ e = ⟨key, [], [], [], 0, []⟩ := by
  rw [withEntry] at there
  split at there
  · exact .inl there
  · rename_i missing
    rcases mem_cons.mp there with rfl | behind
    · exact .inr ⟨not_isSome_iff_eq_none.mp missing, rfl⟩
    · split at behind
      · exact .inl (mem_of_mem_dropLast behind)
      · exact .inl behind

/-- An entry that is not evicted stays. -/
theorem withEntry_kept {authChallenge : List UInt8} {username password : List Nat} {path : Path}
    (there : e ∈ entries)
    (kept : lostEntry entries (.add key authChallenge username password path) ≠ some e.key) :
    e ∈ withEntry entries key := by
  rw [withEntry]
  split
  · exact there
  · rename_i missing
    apply mem_cons_of_mem
    split
    · rename_i full
      rw [lostEntry, if_pos ⟨by simpa using missing, full⟩] at kept
      have some_entry := ne_nil_of_mem there
      rw [← dropLast_append_getLast some_entry, mem_append, mem_singleton] at there
      rcases there with front | rfl
      · exact front
      · rw [List.getLast?_eq_some_getLast some_entry] at kept
        exact absurd rfl kept
    · exact there

theorem Sound.withEntry (sound : Sound entries) (key : Key Origin) : Sound (withEntry entries key) := by
  have ten : kMaxNumRealmEntries = 10 := rfl
  have count := sound.count
  rw [HttpAuthCache.withEntry]
  split
  · exact sound
  · rename_i missing
    have missing := not_isSome_iff_eq_none.mp missing
    have fresh : ∀ part : EntryList Origin, part.Sublist entries → key ∉ part.map Entry.key := by
      intro part sub there
      obtain ⟨e, inside, same⟩ := List.mem_map.mp there
      exact lookup_none missing (sub.mem inside) same
    have empty : Entry.Sound (⟨key, [], [], [], 0, []⟩ : Entry Origin) :=
      ⟨List.Pairwise.nil, Nat.zero_le _⟩
    split
    · have sub := dropLast_sublist entries
      refine ⟨nodup_cons.mpr ⟨fresh _ sub, sound.keys.sublist (sub.map _)⟩, ?_, ?_⟩
      · rw [length_cons, length_dropLast]
        omega
      · exact forall_mem_cons.mpr ⟨empty, fun e there => sound.each e (sub.mem there)⟩
    · refine ⟨nodup_cons.mpr ⟨fresh _ (List.Sublist.refl _), sound.keys⟩, ?_, ?_⟩
      · rw [length_cons]
        omega
      · exact forall_mem_cons.mpr ⟨empty, sound.each⟩

theorem addPath_key (e : Entry Origin) (path : Path) : (e.addPath path).key = e.key := by
  rw [Entry.addPath]
  split
  · rfl
  · rfl

theorem Sound.step (sound : Sound entries) (op : Op Origin) : Sound (step entries op) := by
  cases op with
  | add key authChallenge username password path =>
    have opened := sound.withEntry key
    have keys := @write_keys _ _ key _ (fun e => addPath_key
      ⟨e.key, authChallenge, username, password, 1, e.paths⟩ path) (HttpAuthCache.withEntry entries key)
    refine ⟨?_, ?_, fun e there => ?_⟩
    · rw [HttpAuthCache.step, add, keys]
      exact opened.keys
    · rw [HttpAuthCache.step, add, ← length_map (f := Entry.key), keys, length_map]
      exact opened.count
    · rcases mem_write there opened.keys with ⟨old, -⟩ | ⟨before, old, -, rfl⟩
      · exact opened.each e old
      · have same := opened.each before old
        exact Entry.Sound.addPath (e := ⟨before.key, authChallenge, username, password, 1, before.paths⟩)
          ⟨same.apart, same.count⟩ path
  | remove key username password =>
    have sub : (HttpAuthCache.remove entries key username password).1.Sublist entries := by
      rw [remove]
      split
      · split
        · exact eraseP_sublist
        · exact List.Sublist.refl _
      · exact List.Sublist.refl _
    exact ⟨sound.keys.sublist (sub.map _), sub.length_le.trans sound.count,
      fun e there => sound.each e (sub.mem there)⟩
  | lookup key => exact sound
  | lookupByPath origin path => exact sound

end Writes

section Runs

variable {entries : EntryList Origin} {key : Key Origin}
  {path : Path} {op : Op Origin} {ops : List (Op Origin)} {e : Entry Origin}

def Standing (entries : EntryList Origin) (key : Key Origin) (path : Path) : Prop :=
  ∃ e ∈ entries, e.key = key ∧ e.hasEnclosingPath (getParentDirectory path) = true

theorem addPath_covers (e : Entry Origin) (path : Path) :
    (e.addPath path).hasEnclosingPath (getParentDirectory path) = true := by
  rw [Entry.addPath]
  split
  · rename_i covered
    exact covered
  · rw [Entry.hasEnclosingPath, any_cons, enclosing_refl, Bool.true_or]

/-- A directory that covers a path goes only when it is evicted. -/
theorem addPath_keeps {dir : Path} (covered : e.hasEnclosingPath dir = true)
    (kept : ∀ evicted, e.hasEnclosingPath (getParentDirectory path) = false →
      kMaxNumPathsPerRealmEntry ≤ (e.notSubsumed (getParentDirectory path)).length →
      (e.notSubsumed (getParentDirectory path)).getLast? = some evicted → isEnclosingPath evicted dir = false) :
    (e.addPath path).hasEnclosingPath dir = true := by
  rw [Entry.addPath]
  split
  · exact covered
  · rename_i uncovered
    obtain ⟨cover, there, encloses⟩ := List.any_eq_true.mp covered
    rw [Entry.hasEnclosingPath, List.any_eq_true]
    by_cases subsumed : isEnclosingPath (getParentDirectory path) cover = true
    · exact ⟨_, mem_cons_self, enclosing_trans subsumed encloses⟩
    · have left : cover ∈ e.notSubsumed (getParentDirectory path) :=
        mem_filter.mpr ⟨there, by simpa using subsumed⟩
      refine ⟨cover, mem_cons_of_mem _ ?_, encloses⟩
      split
      · rename_i full
        have some_path := ne_nil_of_mem left
        rw [← dropLast_append_getLast some_path, mem_append, mem_singleton] at left
        rcases left with front | last
        · exact front
        · have lost := kept cover (by simpa using uncovered) full
            (by rw [last]; exact List.getLast?_eq_some_getLast some_path)
          rw [encloses] at lost
          cases lost
      · exact left

section

variable (sound : Sound entries)
include sound

theorem Standing.step (standing : Standing entries key path)
    (kept : takes key path entries op = false) : Standing (step entries op) key path := by
  obtain ⟨e, there, rfl, covered⟩ := standing
  rw [takes, Bool.or_eq_false_iff, decide_eq_false_iff_not] at kept
  obtain ⟨kept_entry, kept_path⟩ := kept
  cases op with
  | add key' authChallenge username password path' =>
    have stays := withEntry_kept there kept_entry
    have opened := sound.withEntry key'
    by_cases same : e.key = key'
    · refine ⟨_, mem_write_here stays opened.keys same, addPath_key _ _, ?_⟩
      apply addPath_keeps (e := ⟨e.key, authChallenge, username, password, 1, e.paths⟩) covered
      intro evicted uncovered full last
      have evicts : evictedPath entries (.add key' authChallenge username password path') =
          some (e.key, evicted) := by
        rw [evictedPath, ← same, lookup_of_mem sound.keys there, bind_some]
        simp only
        rw [if_pos ⟨uncovered, full⟩]
        exact congrArg (Option.map fun dir => (e.key, dir)) last
      rw [evicts] at kept_path
      simpa using kept_path
    · exact ⟨e, mem_write_other stays same, rfl, covered⟩
  | remove key' username password =>
    refine ⟨e, ?_, rfl, covered⟩
    rw [lostEntry] at kept_entry
    rw [HttpAuthCache.step]
    cases removed : (HttpAuthCache.remove entries key' username password).2 with
    | true =>
      rw [removed, if_pos rfl] at kept_entry
      have other : e.key ≠ key' := fun same => kept_entry (congrArg some same.symm)
      rw [remove]
      split
      · split
        · exact (mem_eraseP_of_neg (by simpa using other)).mpr there
        · exact there
      · exact there
    | false =>
      rw [remove] at removed ⊢
      split
      · rename_i found
        rw [found] at removed
        split
        · rename_i match_
          simp only [if_pos match_] at removed
          cases removed
        · exact there
      · exact there
  | lookup key' => exact ⟨e, there, rfl, covered⟩
  | lookupByPath origin path' => exact ⟨e, there, rfl, covered⟩

theorem Sound.run (ops : List (Op Origin)) : Sound (ops.foldl HttpAuthCache.step entries) := by
  induction ops generalizing entries with
  | nil => exact sound
  | cons op ops ih => exact ih (sound.step op)

theorem Standing.run (standing : Standing entries key path) (kept : never (takes key path) entries ops = true) :
    Standing (ops.foldl HttpAuthCache.step entries) key path := by
  induction ops generalizing entries with
  | nil => exact standing
  | cons op ops ih =>
    rw [never, Bool.and_eq_true, Bool.not_eq_true'] at kept
    exact ih (sound.step op) (standing.step sound kept.1) kept.2

theorem standing_added (authChallenge : List UInt8) (username password : List Nat) :
    Standing (HttpAuthCache.step entries (.add key authChallenge username password path)) key path := by
  have opened := sound.withEntry key
  have there : ∃ e ∈ withEntry entries key, e.key = key := by
    rw [withEntry]
    split
    · rename_i found
      obtain ⟨e, found⟩ := isSome_iff_exists.mp found
      exact ⟨e, lookup_mem found⟩
    · exact ⟨_, mem_cons_self, rfl⟩
  obtain ⟨e, there, same⟩ := there
  exact ⟨_, mem_write_here there opened.keys same, (addPath_key _ _).trans same, addPath_covers _ _⟩

/-- A directory of an entry was there before, or the operation has added it. -/
theorem step_paths (there : e ∈ step entries op) {dir : Path} (inside : dir ∈ e.paths) :
    (∃ before ∈ entries, before.key = e.key ∧ dir ∈ before.paths) ∨
      ∃ authChallenge username password path, op = .add e.key authChallenge username password path ∧
        dir = getParentDirectory path := by
  cases op with
  | add key authChallenge username password path =>
    rcases mem_write there (sound.withEntry key).keys with ⟨old, other⟩ | ⟨before, old, rfl, rfl⟩
    · rcases withEntry_cases old with old | ⟨-, rfl⟩
      · exact .inl ⟨e, old, rfl, inside⟩
      · exact absurd rfl other
    · rw [Entry.addPath] at inside
      have kept : dir ∈ before.paths → (∃ e ∈ entries, e.key = before.key ∧ dir ∈ e.paths) := by
        intro inside
        rcases withEntry_cases old with old | ⟨-, new⟩
        · exact ⟨before, old, rfl, inside⟩
        · rw [new] at inside
          cases inside
      rw [addPath_key]
      split at inside
      · exact .inl (kept inside)
      · rcases mem_cons.mp inside with rfl | inside
        · exact .inr ⟨authChallenge, username, password, path, rfl, rfl⟩
        · refine .inl (kept ?_)
          split at inside
          · exact (mem_filter.mp (mem_of_mem_dropLast inside)).1
          · exact (mem_filter.mp inside).1
  | remove key username password =>
    refine .inl ⟨e, ?_, rfl, inside⟩
    rw [step, remove] at there
    split at there
    · split at there
      · exact mem_of_mem_eraseP there
      · exact there
    · exact there
  | lookup key => exact .inl ⟨e, there, rfl, inside⟩
  | lookupByPath origin path => exact .inl ⟨e, there, rfl, inside⟩

/-- An entry that is there behind an operation is not the one that it takes. -/
theorem step_kept (there : e ∈ step entries op) {before : Entry Origin}
    (old : before ∈ entries) (same : before.key = e.key) : lostEntry entries op ≠ some e.key := by
  intro lost
  cases op with
  | add key authChallenge username password path =>
    rw [lostEntry] at lost
    split at lost
    · rename_i evicts
      obtain ⟨missing, full⟩ := evicts
      have missing := isNone_iff_eq_none.mp missing
      have source : ∃ e₀ ∈ withEntry entries key, e₀.key = e.key := by
        rcases mem_write there (sound.withEntry key).keys with ⟨kept, -⟩ | ⟨e₀, kept, -, rfl⟩
        · exact ⟨e, kept, rfl⟩
        · exact ⟨e₀, kept, by rw [addPath_key]⟩
      obtain ⟨e₀, kept, key_kept⟩ := source
      rw [withEntry, missing, isSome_none, if_neg Bool.false_ne_true, if_pos full] at kept
      rcases mem_cons.mp kept with rfl | front
      · exact lookup_none missing old (same.trans key_kept.symm)
      · have some_entry := ne_nil_of_mem old
        rw [List.getLast?_eq_some_getLast some_entry] at lost
        have last_key : (entries.getLast some_entry).key = e.key := some.inj lost
        have distinct := sound.keys
        rw [← dropLast_append_getLast some_entry, map_append] at distinct
        exact disjoint_of_nodup_append distinct (List.mem_map_of_mem front)
          (by rw [key_kept, ← last_key]; exact List.mem_map_of_mem (mem_singleton_self _))
    · cases lost
  | remove key username password =>
    rw [lostEntry] at lost
    split at lost
    · rename_i removed
      cases lost
      rw [step] at there
      rw [remove] at removed there
      split at removed
      · rename_i found searched
        split at removed
        · rename_i match_
          rw [searched] at there
          simp only [if_pos match_] at there
          obtain ⟨first, front, back, -, is_key, whole, erased⟩ := exists_of_eraseP
            (p := fun e₀ : Entry Origin => e₀.key = e.key) old (by simpa using same)
          rw [erased] at there
          have distinct := sound.keys
          rw [whole, map_append, map_cons] at distinct
          have first_key : first.key = e.key := by simpa using is_key
          rw [first_key] at distinct
          have fresh := (nodup_cons.mp (nodup_middle.mp distinct)).1
          apply fresh
          rw [← map_append]
          exact List.mem_map_of_mem there
        · cases removed
      · cases removed
    · cases lost
  | lookup key => cases lost
  | lookupByPath origin path => cases lost

end

theorem sound_start : Sound ([] : EntryList Origin) :=
  ⟨nodup_nil, Nat.zero_le _, fun _ there => by cases there⟩

theorem never_concat (does : EntryList Origin → Op Origin → Bool) (entries : EntryList Origin)
    (ops : List (Op Origin)) (op : Op Origin) :
    never does entries (ops ++ [op]) = (never does entries ops && !does (ops.foldl step entries) op) := by
  induction ops generalizing entries with
  | nil => simp [never]
  | cons first ops ih => rw [cons_append, never, ih, never, foldl_cons, Bool.and_assoc]

theorem run_concat (ops : List (Op Origin)) (op : Op Origin) : run (ops ++ [op]) = step (run ops) op := by
  rw [run, foldl_append]
  rfl

theorem Added.concat (added : Added ops key path) (kept : lostEntry (run ops) op ≠ some key) :
    Added (ops ++ [op]) key path := by
  obtain ⟨earlier, authChallenge, username, password, later, rfl, never_lost⟩ := added
  refine ⟨earlier, authChallenge, username, password, later ++ [op], by simp, ?_⟩
  have here : later.foldl step (run (earlier ++ [.add key authChallenge username password path])) =
      run (earlier ++ .add key authChallenge username password path :: later) := by
    rw [run, run, ← foldl_append, append_assoc, singleton_append]
  rw [never_concat, never_lost, here, Bool.true_and, Bool.not_eq_true', decide_eq_false_iff_not]
  exact kept

/-- Every directory of an entry is that of a path added to it. -/
theorem run_paths (ops : List (Op Origin)) : ∀ e ∈ run ops, ∀ dir ∈ e.paths,
    ∃ path, Added ops e.key path ∧ dir = getParentDirectory path := by
  induction ops using List.reverseRecOn with
  | nil =>
    intro e there
    cases there
  | append_singleton ops op ih =>
    intro e there dir inside
    rw [run_concat] at there
    have sound : Sound (run ops) := sound_start.run ops
    rcases step_paths sound there inside with ⟨before, old, same, inside⟩ |
      ⟨authChallenge, username, password, path, rfl, rfl⟩
    · obtain ⟨path, added, rfl⟩ := ih before old dir inside
      rw [same] at added
      exact ⟨path, added.concat (step_kept sound there old same), rfl⟩
    · exact ⟨path, ⟨ops, authChallenge, username, password, [], rfl, rfl⟩, rfl⟩

theorem auth_cache_runs (ops : List (Op Origin)) : ((run ops).map Entry.key).Nodup ∧
      (∀ e ∈ run ops, e.paths.Pairwise Apart ∧ e.paths.length ≤ kMaxNumPathsPerRealmEntry) ∧
      (∀ earlier key authChallenge username password path later,
        ops = earlier ++ .add key authChallenge username password path :: later →
        ValidPath path →
        never (takes key path) (run (earlier ++ [.add key authChallenge username password path])) later = true →
        ∀ requested, Within path requested → (lookupByPath (run ops) key.origin requested).isSome = true) ∧
      ∀ origin requested e, lookupByPath (run ops) origin requested = some e →
        e.key.origin = origin ∧ ∃ path, Added ops e.key path ∧
          isEnclosingPath (getParentDirectory path) (getParentDirectory requested) = true := by
  have sound : Sound (run ops) := sound_start.run ops
  refine ⟨sound.keys, fun e there => ⟨(sound.each e there).apart, (sound.each e there).count⟩, ?_, ?_⟩
  · intro earlier key authChallenge username password path later whole valid kept requested within
    have earlier_sound : Sound (run earlier) := sound_start.run earlier
    have added : Standing (step (run earlier) (.add key authChallenge username password path)) key
        path := standing_added earlier_sound authChallenge username password
    rw [← run_concat] at added
    have begun : Sound (run (earlier ++ [.add key authChallenge username password path])) :=
      sound_start.run _
    have standing := added.run begun kept
    have here : later.foldl step
        (run (earlier ++ [.add key authChallenge username password path])) = run ops := by
      rw [whole, run, run, ← List.foldl_append, List.append_assoc, List.singleton_append]
    rw [here] at standing
    obtain ⟨e, there, same, covered⟩ := standing
    obtain ⟨dir, inside, encloses⟩ := List.any_eq_true.mp covered
    rw [lookupByPath, List.find?_isSome]
    refine ⟨e, there, ?_⟩
    rw [Bool.and_eq_true, decide_eq_true_eq]
    exact ⟨congrArg Key.origin same, List.any_eq_true.mpr
      ⟨dir, inside, enclosing_trans encloses (within.enclosing valid)⟩⟩
  · intro origin requested e found
    have there := List.mem_of_find?_eq_some found
    have matches_ := List.find?_some found
    rw [Bool.and_eq_true, decide_eq_true_eq] at matches_
    obtain ⟨dir, inside, encloses⟩ := List.any_eq_true.mp matches_.2
    obtain ⟨path, added, rfl⟩ := run_paths ops e there dir inside
    exact ⟨matches_.1, path, added, encloses⟩

end Runs

def addLetter (letter : UInt8) : Op Nat := .add ⟨0, [], []⟩ [] [] [] [slash, letter, slash]

/-- A path that was covered when it was added is lost with the directory that covers it. -/
theorem covered_path_lost :
    let path : Path := [slash, 97, slash, 98, slash]
    let earlier := [addLetter 97, .add ⟨0, [], []⟩ [] [] [] path]
    let later := (List.range 10).map fun i => addLetter (98 + .ofNat i)
    Within path path ∧ never (fun entries op => lostEntry entries op = some ⟨0, [], []⟩ ||
        evictedPath entries op = some (⟨0, [], []⟩, path)) (run earlier) later = true ∧
      lookupByPath (run (earlier ++ later)) 0 path = none := by
  refine ⟨?_, by decide +kernel, rfl⟩
  rw [Within, if_neg (by decide)]
  exact List.prefix_rfl

theorem deeper_path_found : (lookupByPath (run [addLetter 97, addLetter 98]) 0
    [slash, 97, slash, 99]).isSome = true :=
  (auth_cache_runs [addLetter 97, addLetter 98]).2.2.1 [] ⟨0, [], []⟩ [] [] []
    [slash, 97, slash] [addLetter 98] rfl (Or.inr rfl) (by decide +kernel) [slash, 97, slash, 99]
    (by rw [Within, if_neg (by decide)]; exact ⟨[99], rfl⟩)

end Cache

end Glopen.Http.HttpAuthCache
