import Mathlib.Algebra.BigOperators.Group.List.Basic
import Mathlib.Algebra.Ring.Int.Defs
import Mathlib.Data.List.Nodup

/-! A map in the order of its keys whose values are used through references. A reference is to
one node: it dangles once that node is removed, even if the key is in the map again. -/
namespace Glopen.RefMap

open List

structure Node (K A : Type) where
  key : K
  ref : Nat
  value : A
deriving DecidableEq

variable {K A : Type}

def deref (nodes : List (Node K A)) (ref : Nat) : Option A :=
  (nodes.find? fun node => node.ref = ref).map Node.value

def find [DecidableEq K] (nodes : List (Node K A)) (key : K) : Option Nat :=
  (nodes.find? fun node => node.key = key).map Node.ref

def store (nodes : List (Node K A)) (ref : Nat) (value : A) : List (Node K A) :=
  nodes.map fun node => if node.ref = ref then { node with value := value } else node

def insert [LT K] [DecidableLT K] (new : Node K A) : List (Node K A) → List (Node K A)
  | [] => [new]
  | node :: nodes => if new.key < node.key then new :: node :: nodes else node :: insert new nodes

def remove (nodes : List (Node K A)) (ref : Nat) : List (Node K A) :=
  nodes.filter fun node => node.ref ≠ ref

/-- The sum over all values. -/
def total (f : A → Int) (nodes : List (Node K A)) : Int :=
  (nodes.map fun node => f node.value).sum

theorem find_none [DecidableEq K] {nodes : List (Node K A)} {key : K}
    (missing : find nodes key = none) {node : Node K A} (member : node ∈ nodes) : node.key ≠ key := by
  rw [find, Option.map_eq_none_iff, List.find?_eq_none] at missing
  simpa using missing node member

variable {ref : Nat}

theorem find_some [DecidableEq K] {nodes : List (Node K A)} {key : K}
    (found : find nodes key = some ref) : ∃ value, ⟨key, ref, value⟩ ∈ nodes := by
  rw [find, Option.map_eq_some_iff] at found
  obtain ⟨node, first, rfl⟩ := found
  have same : node.key = key := by simpa using List.find?_some first
  exact ⟨node.value, same ▸ List.mem_of_find?_eq_some first⟩

section

variable {nodes : List (Node K A)}

theorem deref_some {value : A} (found : deref nodes ref = some value) : ∃ key, ⟨key, ref, value⟩ ∈ nodes := by
  rw [deref, Option.map_eq_some_iff] at found
  obtain ⟨node, first, rfl⟩ := found
  have same : node.ref = ref := by simpa using List.find?_some first
  exact ⟨node.key, same ▸ List.mem_of_find?_eq_some first⟩

theorem mem_store {value : A} {node : Node K A} (member : node ∈ store nodes ref value) :
    (node ∈ nodes ∧ node.ref ≠ ref) ∨ ∃ old, ⟨node.key, ref, old⟩ ∈ nodes ∧ node = ⟨node.key, ref, value⟩ := by
  rw [store, mem_map] at member
  obtain ⟨before, member, rfl⟩ := member
  by_cases same : before.ref = ref
  · subst same
    rw [if_pos rfl]
    exact Or.inr ⟨before.value, member, rfl⟩
  · rw [if_neg same]
    exact Or.inl ⟨member, same⟩

theorem store_mem {key : K} {old : A} (value : A)
    (member : ⟨key, ref, old⟩ ∈ nodes) : ⟨key, ref, value⟩ ∈ store nodes ref value := by
  rw [store, mem_map]
  exact ⟨_, member, if_pos rfl⟩

theorem store_mem_other {node : Node K A} (value : A)
    (member : node ∈ nodes) (other : node.ref ≠ ref) : node ∈ store nodes ref value := by
  rw [store, mem_map]
  exact ⟨node, member, if_neg other⟩

theorem mem_remove {node : Node K A} : node ∈ remove nodes ref ↔ node ∈ nodes ∧ node.ref ≠ ref := by
  rw [remove, mem_filter, decide_eq_true_eq]

end

@[simp] theorem store_store (nodes : List (Node K A)) (ref : Nat) (value value' : A) :
    store (store nodes ref value) ref value' = store nodes ref value' := by
  rw [store, store, store, map_map]
  apply map_congr_left
  intro node _
  by_cases same : node.ref = ref
  · simp [same]
  · simp [same]

section Insert

variable [LT K] [DecidableLT K]

theorem insert_perm (new : Node K A) (nodes : List (Node K A)) : (insert new nodes).Perm (new :: nodes) := by
  induction nodes with
  | nil => exact .refl _
  | cons node nodes ih =>
    rw [insert]
    split
    · exact .refl _
    · exact (ih.cons node).trans (.swap new node nodes)

theorem mem_insert {new node : Node K A} {nodes : List (Node K A)} :
    node ∈ insert new nodes ↔ node = new ∨ node ∈ nodes := by
  rw [(insert_perm new nodes).mem_iff, mem_cons]

theorem total_insert (f : A → Int) (new : Node K A) (nodes : List (Node K A)) :
    total f (insert new nodes) = f new.value + total f nodes := by
  rw [total, ((insert_perm new nodes).map fun node => f node.value).sum_eq]
  rfl

end Insert

section

variable {f : A → Int} {nodes : List (Node K A)}

theorem total_zero (zero : ∀ node ∈ nodes, f node.value = 0) : total f nodes = 0 := by
  induction nodes with
  | nil => rfl
  | cons node nodes ih =>
    have first := zero node (mem_cons_self ..)
    have later := ih fun other member => zero other (mem_cons_of_mem node member)
    simp only [total, map_cons, sum_cons] at later ⊢
    omega

theorem total_nonneg (nonneg : ∀ node ∈ nodes, 0 ≤ f node.value) : 0 ≤ total f nodes := by
  induction nodes with
  | nil => exact Int.le_refl 0
  | cons node nodes ih =>
    have first := nonneg node (mem_cons_self ..)
    have later := ih fun other member => nonneg other (mem_cons_of_mem node member)
    simp only [total, map_cons, sum_cons] at later ⊢
    omega

theorem le_total (nonneg : ∀ node ∈ nodes, 0 ≤ f node.value) {node : Node K A} (member : node ∈ nodes) :
    f node.value ≤ total f nodes := by
  obtain ⟨before, after, rfl⟩ := append_of_mem member
  have first : 0 ≤ total f before := total_nonneg fun other inside =>
    nonneg other (mem_append_left _ inside)
  have later : 0 ≤ total f after := total_nonneg fun other inside =>
    nonneg other (mem_append_right _ (mem_cons_of_mem node inside))
  simp only [total, map_append, map_cons, sum_append, sum_cons] at first later ⊢
  omega

end

/-- A key and a reference are of one node at most. -/
structure Distinct (nodes : List (Node K A)) : Prop where
  keys : (nodes.map Node.key).Nodup
  refs : (nodes.map Node.ref).Nodup

theorem Distinct.insert [LT K] [DecidableLT K] {nodes : List (Node K A)}
    (distinct : Distinct nodes) {new : Node K A} (new_key : ∀ node ∈ nodes, node.key ≠ new.key)
    (new_ref : ∀ node ∈ nodes, node.ref ≠ new.ref) : Distinct (insert new nodes) where
  keys := by
    rw [((insert_perm new nodes).map Node.key).nodup_iff, map_cons, nodup_cons]
    refine ⟨fun member => ?_, distinct.keys⟩
    obtain ⟨node, inside, same⟩ := List.mem_map.mp member
    exact new_key node inside same
  refs := by
    rw [((insert_perm new nodes).map Node.ref).nodup_iff, map_cons, nodup_cons]
    refine ⟨fun member => ?_, distinct.refs⟩
    obtain ⟨node, inside, same⟩ := List.mem_map.mp member
    exact new_ref node inside same

section Distinct

variable {nodes : List (Node K A)} (distinct : Distinct nodes)
include distinct

theorem Distinct.same_ref {node other : Node K A} (member : node ∈ nodes) (member' : other ∈ nodes)
    (same : node.ref = other.ref) : node = other :=
  inj_on_of_nodup_map distinct.refs member member' same

theorem Distinct.same_key {node other : Node K A} (member : node ∈ nodes) (member' : other ∈ nodes)
    (same : node.key = other.key) : node = other :=
  inj_on_of_nodup_map distinct.keys member member' same

theorem Distinct.deref {key : K} {value : A} (member : ⟨key, ref, value⟩ ∈ nodes) :
    deref nodes ref = some value := by
  rw [RefMap.deref]
  cases first : nodes.find? fun node => node.ref = ref with
  | none => exact absurd (decide_eq_true rfl) (List.find?_eq_none.mp first _ member)
  | some node =>
    have same : node.ref = ref := by simpa using List.find?_some first
    rw [distinct.same_ref (List.mem_of_find?_eq_some first) member same]
    rfl

theorem Distinct.find [DecidableEq K] {key : K} {value : A}
    (member : ⟨key, ref, value⟩ ∈ nodes) : find nodes key = some ref := by
  cases found : RefMap.find nodes key with
  | none => exact absurd rfl (find_none found member)
  | some other =>
    obtain ⟨value', member'⟩ := find_some found
    exact congrArg some (congrArg Node.ref (distinct.same_key member' member rfl))

/-- The other nodes. -/
theorem Distinct.split {node : Node K A} (member : node ∈ nodes) :
    ∃ before after, nodes = before ++ node :: after ∧
      (∀ other ∈ before, other.ref ≠ node.ref) ∧ ∀ other ∈ after, other.ref ≠ node.ref := by
  obtain ⟨before, after, rfl⟩ := append_of_mem member
  have refs := distinct.refs
  rw [map_append, map_cons, nodup_append, nodup_cons] at refs
  refine ⟨before, after, rfl, fun other inside same => ?_, fun other inside same => ?_⟩
  · exact refs.2.2 _ (mem_map_of_mem inside) _ (mem_cons_self ..) same
  · exact refs.2.1.1 (same ▸ mem_map_of_mem inside)

theorem Distinct.total_store (f : A → Int) {key : K} {old : A} (member : ⟨key, ref, old⟩ ∈ nodes) (value : A) :
    total f (store nodes ref value) = total f nodes - f old + f value := by
  obtain ⟨before, after, rfl, first, later⟩ := distinct.split member
  have kept : ∀ others : List (Node K A), (∀ other ∈ others, other.ref ≠ ref) →
      others.map (fun node => if node.ref = ref then { node with value := value } else node) =
        others := fun others away => by
    rw [map_congr_left fun other inside => if_neg (away other inside), map_id']
  rw [RefMap.store, map_append, map_cons, if_pos rfl, kept before first, kept after later]
  simp only [total, map_append, map_cons, sum_append, sum_cons]
  omega

theorem Distinct.total_remove (f : A → Int) {key : K} {old : A} (member : ⟨key, ref, old⟩ ∈ nodes) :
    total f (remove nodes ref) = total f nodes - f old := by
  obtain ⟨before, after, rfl, first, later⟩ := distinct.split member
  have kept : ∀ others : List (Node K A), (∀ other ∈ others, other.ref ≠ ref) →
      others.filter (fun node => node.ref ≠ ref) = others := fun others away =>
    filter_eq_self.mpr fun other inside => decide_eq_true (away other inside)
  rw [RefMap.remove, filter_append, filter_cons, if_neg (by simp), kept before first, kept after later]
  simp only [total, map_append, map_cons, sum_append, sum_cons]
  omega

theorem Distinct.store (ref : Nat) (value : A) : Distinct (store nodes ref value) := by
  have fixed : ∀ (B : Type) (f : Node K A → B), (∀ node : Node K A, f { node with value := value } = f node) →
      (RefMap.store nodes ref value).map f = nodes.map f := by
    intro B f same
    rw [RefMap.store, map_map]
    apply map_congr_left
    intro node _
    by_cases stored : node.ref = ref
    · rw [Function.comp_apply, if_pos stored, same]
    · rw [Function.comp_apply, if_neg stored]
  refine ⟨?_, ?_⟩
  · rw [fixed _ Node.key fun _ => rfl]
    exact distinct.keys
  · rw [fixed _ Node.ref fun _ => rfl]
    exact distinct.refs

theorem Distinct.store_self {key : K} {value : A} (member : ⟨key, ref, value⟩ ∈ nodes) :
    RefMap.store nodes ref value = nodes := by
  rw [RefMap.store]
  conv_rhs => rw [← map_id nodes]
  apply map_congr_left
  intro node inside
  by_cases same : node.ref = ref
  · rw [if_pos same, distinct.same_ref inside member same]
    rfl
  · rw [if_neg same]
    rfl

theorem Distinct.remove (ref : Nat) : Distinct (remove nodes ref) where
  keys := distinct.keys.sublist (filter_sublist.map Node.key)
  refs := distinct.refs.sublist (filter_sublist.map Node.ref)

end Distinct

end Glopen.RefMap
