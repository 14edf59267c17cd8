import Mathlib.Data.List.Basic

/-! The value trees of `base/values.cc`, and how they are compared. -/
namespace Glopen.Values

open List

/-- The bits of a `double`. -/
abbrev Double := BitVec 64

def Double.isNaN (x : Double) : Bool := 0x7FF0000000000000#64 < x &&& 0x7FFFFFFFFFFFFFFF#64

def Double.isZero (x : Double) : Bool := x &&& 0x7FFFFFFFFFFFFFFF#64 = 0#64

/-- The operator `==`. -/
def Double.eq (x y : Double) : Bool :=
  !isNaN x && !isNaN y && (x = y || isZero x && isZero y)

abbrev Key := List Nat

inductive Value where
  | null
  | boolean (value : Bool)
  | integer (value : Int)
  | real (value : Double)
  | string (value : List UInt8)
  | binary (bytes : List UInt8)
  | dictionary (entries : List (Key × Value))
  | list (items : List Value)

namespace Value

mutual

def equals : Value → Value → Bool
  | .null, .null => true
  | .boolean lhs, .boolean rhs => lhs = rhs
  | .integer lhs, .integer rhs => lhs = rhs
  | .real lhs, .real rhs => Double.eq lhs rhs
  | .string lhs, .string rhs => lhs = rhs
  | .binary lhs, .binary rhs => lhs = rhs
  | .dictionary entries, .dictionary others => equalsEntries entries others
  | .list items, .list others => equalsItems items others
  | _, _ => false

def equalsEntries : List (Key × Value) → List (Key × Value) → Bool
  | (_, lhs) :: entries, (_, rhs) :: others => equals lhs rhs && equalsEntries entries others
  | [], [] => true
  | _, _ => false

def equalsItems : List Value → List Value → Bool
  | lhs :: items, rhs :: others => equals lhs rhs && equalsItems items others
  | [], [] => true
  | _, _ => false

end

def setWithoutPathExpansion (key : Key) (value : Value) : List (Key × Value) → List (Key × Value)
  | [] => [(key, value)]
  | (other, its) :: rest =>
    if key < other then (key, value) :: (other, its) :: rest
    else if key = other then (key, value) :: rest
    else (other, its) :: setWithoutPathExpansion key value rest

mutual

def deepCopy : Value → Value
  | .dictionary entries => .dictionary (copyEntries entries [])
  | .list items => .list (copyItems items)
  | value => value

def copyEntries : List (Key × Value) → List (Key × Value) → List (Key × Value)
  | [], result => result
  | (key, value) :: entries, result =>
    copyEntries entries (setWithoutPathExpansion key (deepCopy value) result)

def copyItems : List Value → List Value
  | [] => []
  | value :: items => deepCopy value :: copyItems items

end

def getWithoutPathExpansion (key : Key) (entries : List (Key × Value)) : Option Value :=
  (entries.find? fun entry => entry.1 = key).map Prod.snd

def getParts : List Key → List (Key × Value) → Option Value
  | [], _ => none
  | [key], entries => getWithoutPathExpansion key entries
  | key :: rest, entries =>
    match getWithoutPathExpansion key entries with
    | some (.dictionary child) => getParts rest child
    | _ => none

def get (path : Key) (entries : List (Key × Value)) : Option Value :=
  getParts (path.splitOnP (· = 46)) entries

mutual

def Same : Value → Value → Prop
  | .null, .null => True
  | .boolean lhs, .boolean rhs => lhs = rhs
  | .integer lhs, .integer rhs => lhs = rhs
  | .real lhs, .real rhs => Double.eq lhs rhs = true
  | .string lhs, .string rhs => lhs = rhs
  | .binary lhs, .binary rhs => lhs = rhs
  | .dictionary entries, .dictionary others => SameEntries entries others
  | .list items, .list others => SameItems items others
  | _, _ => False

def SameEntries : List (Key × Value) → List (Key × Value) → Prop
  | (key, lhs) :: entries, (other, rhs) :: others => key = other ∧ Same lhs rhs ∧ SameEntries entries others
  | [], [] => True
  | _, _ => False

def SameItems : List Value → List Value → Prop
  | lhs :: items, rhs :: others => Same lhs rhs ∧ SameItems items others
  | [], [] => True
  | _, _ => False

end

mutual

def unkeyed : Value → Value
  | .dictionary entries => .dictionary (unkeyedEntries entries)
  | .list items => .list (unkeyedItems items)
  | value => value

def unkeyedEntries : List (Key × Value) → List (Key × Value)
  | [] => []
  | (_, value) :: entries => ([], unkeyed value) :: unkeyedEntries entries

def unkeyedItems : List Value → List Value
  | [] => []
  | value :: items => unkeyed value :: unkeyedItems items

end

mutual

def Numbers : Value → Prop
  | .real value => Double.isNaN value = false
  | .dictionary entries => NumbersEntries entries
  | .list items => NumbersItems items
  | _ => True

def NumbersEntries : List (Key × Value) → Prop
  | [] => True
  | (_, value) :: entries => Numbers value ∧ NumbersEntries entries

def NumbersItems : List Value → Prop
  | [] => True
  | value :: items => Numbers value ∧ NumbersItems items

end

mutual

def Ordered : Value → Prop
  | .dictionary entries => entries.Pairwise (fun e f => e.1 < f.1) ∧ OrderedEntries entries
  | .list items => OrderedItems items
  | _ => True

def OrderedEntries : List (Key × Value) → Prop
  | [] => True
  | (_, value) :: entries => Ordered value ∧ OrderedEntries entries

def OrderedItems : List Value → Prop
  | [] => True
  | value :: items => Ordered value ∧ OrderedItems items

end

theorem double_eq_symm (x y : Double) : Double.eq x y = Double.eq y x := by
  simp only [Double.eq, Bool.and_comm (!Double.isNaN x), Bool.and_comm (Double.isZero x), eq_comm (a := x)]

theorem double_eq_trans {x y z : Double} (first : Double.eq x y = true) (second : Double.eq y z = true) :
    Double.eq x z = true := by
  simp only [Double.eq, Bool.and_eq_true, Bool.or_eq_true, decide_eq_true_eq] at first second ⊢
  refine ⟨⟨first.1.1, second.1.2⟩, ?_⟩
  rcases first.2 with rfl | zeros
  · exact second.2
  · rcases second.2 with rfl | zeros'
    · exact .inr zeros
    · exact .inr ⟨zeros.1, zeros'.2⟩

theorem double_eq_self (x : Double) : Double.eq x x = true ↔ Double.isNaN x = false := by
  simp [Double.eq]

mutual

theorem equals_iff : ∀ a b : Value, equals a b = true ↔ Same (unkeyed a) (unkeyed b)
  | .null, b | .boolean _, b | .integer _, b | .real _, b | .string _, b | .binary _, b => by
    cases b <;> simp [equals, unkeyed, Same]
  | .dictionary entries, b => by
    cases b <;> simp [equals, unkeyed, Same, equalsEntries_iff entries]
  | .list items, b => by
    cases b <;> simp [equals, unkeyed, Same, equalsItems_iff items]

theorem equalsEntries_iff : ∀ entries others : List (Key × Value), equalsEntries entries others = true ↔
    SameEntries (unkeyedEntries entries) (unkeyedEntries others)
  | [], others => by cases others <;> simp [equalsEntries, unkeyedEntries, SameEntries]
  | (_, value) :: entries, others => by
    cases others with
    | nil => simp [equalsEntries, unkeyedEntries, SameEntries]
    | cons other others =>
      simp [equalsEntries, unkeyedEntries, SameEntries, equals_iff value other.2, equalsEntries_iff entries others]

theorem equalsItems_iff : ∀ items others : List Value, equalsItems items others = true ↔
    SameItems (unkeyedItems items) (unkeyedItems others)
  | [], others => by cases others <;> simp [equalsItems, unkeyedItems, SameItems]
  | value :: items, others => by
    cases others with
    | nil => simp [equalsItems, unkeyedItems, SameItems]
    | cons other others =>
      simp [equalsItems, unkeyedItems, SameItems, equals_iff value other, equalsItems_iff items others]

end

mutual

theorem Same.symm : ∀ {a b : Value}, Same a b → Same b a
  | .null, b, same | .boolean _, b, same | .integer _, b, same | .string _, b, same | .binary _, b, same => by
    cases b <;> simp_all [Same]
  | .real x, b, same => by
    cases b <;> simp_all [Same, double_eq_symm x]
  | .dictionary entries, b, same => by
    cases b <;> simp only [Same] at same ⊢
    exact SameEntries.symm same
  | .list items, b, same => by
    cases b <;> simp only [Same] at same ⊢
    exact SameItems.symm same

theorem SameEntries.symm : ∀ {entries others : List (Key × Value)}, SameEntries entries others →
    SameEntries others entries
  | [], others, same => by cases others <;> simp_all [SameEntries]
  | (_, _) :: entries, others, same => by
    cases others <;> simp only [SameEntries] at same ⊢
    exact ⟨same.1.symm, same.2.1.symm, SameEntries.symm same.2.2⟩

theorem SameItems.symm : ∀ {items others : List Value}, SameItems items others → SameItems others items
  | [], others, same => by cases others <;> simp_all [SameItems]
  | _ :: items, others, same => by
    cases others <;> simp only [SameItems] at same ⊢
    exact ⟨same.1.symm, SameItems.symm same.2⟩

end

mutual

theorem Same.trans : ∀ {a b c : Value}, Same a b → Same b c → Same a c
  | .null, b, c, first, second | .boolean _, b, c, first, second | .integer _, b, c, first, second
  | .string _, b, c, first, second | .binary _, b, c, first, second => by
    cases b <;> cases c <;> simp_all [Same]
  | .real _, b, c, first, second => by
    cases b <;> cases c <;> simp only [Same] at first second ⊢
    exact double_eq_trans first second
  | .dictionary entries, b, c, first, second => by
    cases b <;> cases c <;> simp only [Same] at first second ⊢
    exact SameEntries.trans first second
  | .list items, b, c, first, second => by
    cases b <;> cases c <;> simp only [Same] at first second ⊢
    exact SameItems.trans first second

theorem SameEntries.trans : ∀ {entries others more : List (Key × Value)}, SameEntries entries others →
    SameEntries others more → SameEntries entries more
  | [], others, more, first, second => by cases others <;> cases more <;> simp_all [SameEntries]
  | (_, _) :: entries, others, more, first, second => by
    cases others <;> cases more <;> simp only [SameEntries] at first second ⊢
    exact ⟨first.1.trans second.1, first.2.1.trans second.2.1, SameEntries.trans first.2.2 second.2.2⟩

theorem SameItems.trans : ∀ {items others more : List Value}, SameItems items others →
    SameItems others more → SameItems items more
  | [], others, more, first, second => by cases others <;> cases more <;> simp_all [SameItems]
  | _ :: items, others, more, first, second => by
    cases others <;> cases more <;> simp only [SameItems] at first second ⊢
    exact ⟨first.1.trans second.1, SameItems.trans first.2 second.2⟩

end

mutual

theorem same_unkeyed_self : ∀ a : Value, Same (unkeyed a) (unkeyed a) ↔ Numbers a
  | .null | .boolean _ | .integer _ | .string _ | .binary _ => by simp [unkeyed, Same, Numbers]
  | .real x => by simp [unkeyed, Same, Numbers, double_eq_self]
  | .dictionary entries => by simp [unkeyed, Same, Numbers, same_unkeyed_entries entries]
  | .list items => by simp [unkeyed, Same, Numbers, same_unkeyed_items items]

theorem same_unkeyed_entries : ∀ entries : List (Key × Value),
    SameEntries (unkeyedEntries entries) (unkeyedEntries entries) ↔ NumbersEntries entries
  | [] => by simp [unkeyedEntries, SameEntries, NumbersEntries]
  | (_, value) :: entries => by
    simp [unkeyedEntries, SameEntries, NumbersEntries, same_unkeyed_self value, same_unkeyed_entries entries]

theorem same_unkeyed_items : ∀ items : List Value,
    SameItems (unkeyedItems items) (unkeyedItems items) ↔ NumbersItems items
  | [] => by simp [unkeyedItems, SameItems, NumbersItems]
  | value :: items => by
    simp [unkeyedItems, SameItems, NumbersItems, same_unkeyed_self value, same_unkeyed_items items]

end

mutual

theorem Same.unkeyed : ∀ {a b : Value}, Same a b → Same (Value.unkeyed a) (Value.unkeyed b)
  | .null, b, same | .boolean _, b, same | .integer _, b, same | .real _, b, same | .string _, b, same
  | .binary _, b, same => by
    cases b <;> simp_all [Same, Value.unkeyed]
  | .dictionary entries, b, same => by
    cases b <;> simp only [Same, Value.unkeyed] at same ⊢
    exact SameEntries.unkeyed same
  | .list items, b, same => by
    cases b <;> simp only [Same, Value.unkeyed] at same ⊢
    exact SameItems.unkeyed same

theorem SameEntries.unkeyed : ∀ {entries others : List (Key × Value)}, SameEntries entries others →
    SameEntries (unkeyedEntries entries) (unkeyedEntries others)
  | [], others, same => by cases others <;> simp_all [SameEntries, unkeyedEntries]
  | (_, _) :: entries, others, same => by
    cases others <;> simp only [SameEntries, unkeyedEntries] at same ⊢
    exact ⟨trivial, same.2.1.unkeyed, SameEntries.unkeyed same.2.2⟩

theorem SameItems.unkeyed : ∀ {items others : List Value}, SameItems items others →
    SameItems (unkeyedItems items) (unkeyedItems others)
  | [], others, same => by cases others <;> simp_all [SameItems, unkeyedItems]
  | _ :: items, others, same => by
    cases others <;> simp only [SameItems, unkeyedItems] at same ⊢
    exact ⟨same.1.unkeyed, SameItems.unkeyed same.2⟩

end

theorem set_last {key : Key} (value : Value) {result : List (Key × Value)}
    (below : ∀ entry ∈ result, entry.1 < key) :
    setWithoutPathExpansion key value result = result ++ [(key, value)] := by
  induction result with
  | nil => rfl
  | cons entry result ih =>
    rw [forall_mem_cons] at below
    have other : key ≠ entry.1 := fun same => List.lt_irrefl key (same ▸ below.1)
    rw [setWithoutPathExpansion, if_neg (List.lt_asymm below.1), if_neg other, ih below.2]
    rfl

mutual

theorem deepCopy_eq : ∀ {a : Value}, Ordered a → deepCopy a = a
  | .null, _ | .boolean _, _ | .integer _, _ | .real _, _ | .string _, _ | .binary _, _ => rfl
  | .dictionary entries, ordered => by
    rw [Ordered] at ordered
    rw [deepCopy, copyEntries_eq ordered.2 ordered.1 (by simp), nil_append]
  | .list items, ordered => by
    rw [Ordered] at ordered
    rw [deepCopy, copyItems_eq ordered]

theorem copyEntries_eq : ∀ {entries result : List (Key × Value)}, OrderedEntries entries →
    entries.Pairwise (fun e f => e.1 < f.1) → (∀ e ∈ result, ∀ f ∈ entries, e.1 < f.1) →
      copyEntries entries result = result ++ entries
  | [], result, _, _, _ => by simp [copyEntries]
  | (key, value) :: entries, result, ordered, sorted, below => by
    rw [OrderedEntries] at ordered
    rw [pairwise_cons] at sorted
    have behind : ∀ e ∈ result ++ [(key, value)], ∀ f ∈ entries, e.1 < f.1 := by
      intro e member f later
      rcases mem_append.mp member with old | new
      · exact below e old f (mem_cons_of_mem _ later)
      · rw [mem_singleton.mp new]
        exact sorted.1 f later
    rw [copyEntries, deepCopy_eq ordered.1, set_last value fun e old => below e old _ mem_cons_self,
      copyEntries_eq ordered.2 sorted.2 behind, append_assoc, singleton_append]

theorem copyItems_eq : ∀ {items : List Value}, OrderedItems items → copyItems items = items
  | [], _ => rfl
  | _ :: items, ordered => by
    rw [OrderedItems] at ordered
    rw [copyItems, deepCopy_eq ordered.1, copyItems_eq ordered.2]

end

def Found (like : Value → Value → Prop) : Option Value → Option Value → Prop
  | none, none => True
  | some lhs, some rhs => like lhs rhs
  | _, _ => False

theorem found_key (key : Key) : ∀ {entries others : List (Key × Value)}, SameEntries entries others →
    Found Same (getWithoutPathExpansion key entries) (getWithoutPathExpansion key others)
  | [], [], _ => trivial
  | (its, value) :: entries, (other, rhs) :: others, same => by
    rw [SameEntries] at same
    obtain ⟨rfl, here, rest⟩ := same
    rw [getWithoutPathExpansion, getWithoutPathExpansion, List.find?_cons, List.find?_cons]
    by_cases found : its = key
    · rw [decide_eq_true found]
      exact here
    · rw [decide_eq_false found]
      exact found_key key rest

theorem found_parts : ∀ (parts : List Key) {entries others : List (Key × Value)},
    SameEntries entries others → Found Same (getParts parts entries) (getParts parts others)
  | [], _, _, _ => trivial
  | [key], _, _, same => found_key key same
  | key :: next :: rest, entries, others, same => by
    have here := found_key key same
    rw [getParts, getParts]
    · cases lhs : getWithoutPathExpansion key entries with
      | none =>
        cases rhs : getWithoutPathExpansion key others with
        | none => trivial
        | some w => rw [lhs, rhs] at here; exact here.elim
      | some v =>
        cases rhs : getWithoutPathExpansion key others with
        | none => rw [lhs, rhs] at here; exact here.elim
        | some w =>
          rw [lhs, rhs] at here
          cases v <;> cases w <;> first | trivial | (simp only [Found, Same] at here)
          exact found_parts (next :: rest) here
    all_goals simp

theorem Found.imp {like like' : Value → Value → Prop} (imp : ∀ v w, like v w → like' v w)
    {lhs rhs : Option Value} (found : Found like lhs rhs) : Found like' lhs rhs := by
  cases lhs <;> cases rhs <;> first | exact found | exact imp _ _ found

abbrev Tree := { value : Value // value.Ordered }

/-- The comparison is that of the trees, like an equivalence, finds copies equal and agrees with `Get`. -/
structure Faithful (a b : Value) : Prop where
  exactly : equals a b = true ↔ Same a b
  self : equals a a = true
  back : equals a b = true → equals b a = true
  chain : ∀ c, equals a b = true → equals b c = true → equals a c = true
  copy : equals (deepCopy a) a = true
  paths : equals a b = true → ∀ entries others, a = .dictionary entries → b = .dictionary others →
    ∀ path, Found (fun v w => equals v w = true) (get path entries) (get path others)

def DifferInKeys (a b : Value) : Prop := ¬ Same a b ∧ Same (unkeyed a) (unkeyed b)

theorem equals_of_same {a b : Value} (same : Same a b) : equals a b = true :=
  (equals_iff a b).mpr same.unkeyed

theorem equals_faithful_iff (a b : Tree) : Faithful a.1 b.1 ↔ Numbers a.1 ∧ ¬ DifferInKeys a.1 b.1 := by
  constructor
  · intro faithful
    refine ⟨(same_unkeyed_self a.1).mp ((equals_iff _ _).mp faithful.self), fun differ => differ.1 ?_⟩
    exact faithful.exactly.mp ((equals_iff _ _).mpr differ.2)
  · rintro ⟨numbers, alike⟩
    have exactly : equals a.1 b.1 = true ↔ Same a.1 b.1 := by
      refine ⟨fun equal => Classical.byContradiction fun other => ?_, equals_of_same⟩
      exact alike ⟨other, (equals_iff _ _).mp equal⟩
    have self : equals a.1 a.1 = true := (equals_iff _ _).mpr ((same_unkeyed_self a.1).mpr numbers)
    refine ⟨exactly, self, fun equal => ?_, fun c first second => ?_, ?_, ?_⟩
    · exact (equals_iff _ _).mpr ((equals_iff _ _).mp equal).symm
    · exact (equals_iff _ _).mpr (((equals_iff _ _).mp first).trans ((equals_iff _ _).mp second))
    · rw [deepCopy_eq a.2]
      exact self
    · intro equal entries others its theirs path
      have same := exactly.mp equal
      rw [its, theirs, Same] at same
      exact (found_parts _ same).imp fun v w => equals_of_same

/-- Two dictionaries with one entry, under different keys. -/
theorem other_keys_equal : equals (.dictionary [([97], .integer 1)]) (.dictionary [([98], .integer 1)]) = true ∧
      ¬ Same (.dictionary [([97], .integer 1)]) (.dictionary [([98], .integer 1)]) := by
  refine ⟨rfl, fun same => ?_⟩
  rw [Same, SameEntries] at same
  exact absurd same.1 (by decide)

end Value

end Glopen.Values
