import Mathlib.Data.List.Nodup
import Glopen.Srpc.ArgsHeap

/-! What a failed `ArgsGet` leaves allocated, and what its cleanup inspects and releases. -/
namespace Glopen.Srpc

open Wire List Option

theorem get_map {δ α β : Type} (f : α → β) (get : Get δ α) (buffer : ReceiveBuffer δ) :
    (f <$> get) buffer = (get buffer).map fun rest => (f rest.1, rest.2) := by
  change (get buffer).bind _ = _
  cases get buffer with
  | none => rfl
  | some rest => rfl

theorem arrGet_eq {δ α : Type} [WireType α] [Inhabited α] (host : Host)
    (allocateMemory readValue : Bool) (array : CArray α) (buffer : ReceiveBuffer δ) :
    arrGet host allocateMemory readValue array buffer = (readOne UInt32 buffer).bind fun dim =>
        ((arrTarget host allocateMemory array dim.1).map (·, dim.2)).bind fun target =>
          if readValue then
            (naClSrpcImcRead (WireType.size α) dim.1.toNat target.2).map fun bytes =>
              (target.1.overwrite (unflat (bytes.1.length / WireType.size α) bytes.1), bytes.2)
          else some target := by
  simp only [arrGet, bind, StateT.bind, StateT.lift]
  cases readOne UInt32 buffer with
  | none => rfl
  | some dim =>
    simp only [bind_some]
    cases arrTarget host allocateMemory array dim.1 with
    | none => rfl
    | some target =>
      cases readValue with
      | false => rfl
      | true => exact get_map _ _ _

variable {δ : Type} [Inhabited δ]

section Elements

/-- What `get` does to the memory of its element: it allocates at most one block, which is kept
there. -/
structure Filled (ptr : ArgPtr) (heap after : Heap δ) : Prop where
  argvec : after.argvec = heap.argvec
  initialized : after.initialized = heap.initialized
  released : after.released = heap.released
  inspected : after.inspected = heap.inspected
  overrun : after.overrun = heap.overrun
  others : ∀ p, p ≠ ptr → after.memory p = heap.memory p
  kind : (after.memory ptr).arg.hasData = (heap.memory ptr).arg.hasData
  blocks : after.allocated = heap.allocated ∧
      ((after.memory ptr).data = (heap.memory ptr).data ∨ (after.memory ptr).data = none) ∨
    after.allocated = heap.allocated ++ [.data heap.allocated.length] ∧
      (after.memory ptr).data = some (.data heap.allocated.length) ∧
      (heap.memory ptr).arg.hasData = true

theorem Filled.refl (ptr : ArgPtr) (heap : Heap δ) : Filled ptr heap heap :=
  ⟨rfl, rfl, rfl, rfl, rfl, fun _ _ => rfl, rfl, .inl ⟨rfl, .inl rfl⟩⟩

variable {ptr : ArgPtr} {after heap : Heap δ} {arg : Arg δ} {α : Type}

theorem Filled.buffer (filled : Filled ptr heap after)
    (buffer : ReceiveBuffer δ) : Filled ptr heap { after with buffer := buffer } :=
  ⟨filled.argvec, filled.initialized, filled.released, filled.inspected, filled.overrun,
    filled.others, filled.kind, filled.blocks⟩

theorem Filled.setArg (filled : Filled ptr heap after) (kind : arg.hasData = (heap.memory ptr).arg.hasData) :
    Filled ptr heap (after.write ptr { after.memory ptr with arg := arg }) := by
  have here : (after.write ptr { after.memory ptr with arg := arg }).memory ptr =
      { after.memory ptr with arg := arg } := if_pos rfl
  refine ⟨filled.argvec, filled.initialized, filled.released, filled.inspected, filled.overrun,
    fun p away => (if_neg away).trans (filled.others p away), ?_, ?_⟩
  · rw [here]
    exact kind
  · rw [here]
    exact filled.blocks

/-- The outcome of a part of `get`, against its value in the model without memory. -/
structure Gets {α : Type} (ptr : ArgPtr) (heap : Heap δ) (outcome : Heap δ × Option α)
    (value : Option (α × ReceiveBuffer δ)) : Prop where
  filled : Filled ptr heap outcome.1
  result : outcome.2 = value.map Prod.fst
  buffer : ∀ rest ∈ value, outcome.1.buffer = rest.2

theorem Gets.read {α β : Type} {ptr : ArgPtr} {heap start : Heap δ}
    (filled : Filled ptr heap start) (get : Get δ α) {second : α → HeapGet δ β}
    {next : α × ReceiveBuffer δ → Option (β × ReceiveBuffer δ)}
    (then_gets : ∀ a buffer, Gets ptr heap (second a { start with buffer := buffer }) (next (a, buffer))) :
    Gets ptr heap ((HeapGet.read get).andThen second start) ((get start.buffer).bind next) := by
  rw [HeapGet.andThen, HeapGet.read]
  cases get start.buffer with
  | none => exact ⟨filled, rfl, fun _ none => absurd none (not_mem_none _)⟩
  | some rest => exact then_gets rest.1 rest.2

theorem Gets.andThen {β : Type} {first : HeapGet δ α}
    {second : α → HeapGet δ β} {start : Heap δ} {value : Option (α × ReceiveBuffer δ)}
    {next : α × ReceiveBuffer δ → Option (β × ReceiveBuffer δ)} (gets : Gets ptr heap (first start) value)
    (then_gets : ∀ a after, Filled ptr heap after → value = some (a, after.buffer) →
      Gets ptr heap (second a after) (next (a, after.buffer))) :
    Gets ptr heap (first.andThen second start) (value.bind next) := by
  rw [HeapGet.andThen]
  obtain ⟨filled, result, buffer⟩ := gets
  generalize first start = outcome at filled result buffer
  obtain ⟨after, got⟩ := outcome
  cases value with
  | none =>
    simp only at result
    rw [result]
    exact ⟨filled, rfl, fun _ none => absurd none (not_mem_none _)⟩
  | some rest =>
    obtain ⟨a, rest⟩ := rest
    have same : after.buffer = rest := buffer _ rfl
    simp only [map_some] at result
    rw [result, ← same]
    exact then_gets a after filled (by rw [same])

section

variable (filled : Filled ptr heap after)
include filled

theorem Gets.give (a : α) : Gets ptr heap (HeapGet.give a after) (some (a, after.buffer)) :=
  ⟨filled, rfl, fun _ same => by cases same; rfl⟩

theorem Gets.fail : Gets ptr heap ((after, none) : Heap δ × Option α) none :=
  ⟨filled, rfl, fun _ none => absurd none (not_mem_none _)⟩

theorem Gets.setArg (kind : arg.hasData = (heap.memory ptr).arg.hasData) :
    Gets ptr heap (HeapGet.setArg ptr arg after) (some ((), after.buffer)) :=
  ⟨filled.setArg kind, rfl, fun _ same => by cases same; rfl⟩

theorem Gets.setGive (kind : arg.hasData = (heap.memory ptr).arg.hasData) (a : α) :
    Gets ptr heap ((HeapGet.setArg ptr arg).andThen (fun _ => HeapGet.give a) after)
      (some (a, after.buffer)) := by
  rw [HeapGet.andThen, HeapGet.setArg]
  exact ⟨filled.setArg kind, rfl, fun _ same => by cases same; rfl⟩

end

theorem HeapGet.malloc_gets (host : Host)
    (filled : Filled ptr heap after) (none_yet : after.allocated = heap.allocated)
    (kind : (heap.memory ptr).arg.hasData = true) (size : Nat) :
    Gets ptr heap (HeapGet.malloc host ptr size after)
      (if host.malloc size then some ((), after.buffer) else none) := by
  have here : ∀ element, (after.write ptr element).memory ptr = element := fun _ => if_pos rfl
  rw [HeapGet.malloc]
  split
  · refine ⟨⟨filled.argvec, filled.initialized, filled.released, filled.inspected, filled.overrun,
      fun p away => (if_neg away).trans (filled.others p away), ?_, .inr ⟨?_, ?_, kind⟩⟩, rfl,
      fun _ same => by cases same; rfl⟩
    · exact (congrArg (fun e => Arg.hasData (Element.arg e)) (here _)).trans filled.kind
    · simp only [none_yet]
    · exact (congrArg Element.data (here _)).trans (by rw [none_yet])
  · refine ⟨⟨filled.argvec, filled.initialized, filled.released, filled.inspected, filled.overrun,
      fun p away => (if_neg away).trans (filled.others p away), ?_, .inl ⟨none_yet, .inr ?_⟩⟩,
      rfl, fun _ none => absurd none (not_mem_none _)⟩
    · exact (congrArg (fun e => Arg.hasData (Element.arg e)) (here _)).trans filled.kind
    · exact congrArg Element.data (here _)

variable (host : Host) (allocateMemory readValue : Bool)

/-- The outcome of `get`, which gives nothing but the element. -/
abbrev Left {α : Type} (value : Option (α × ReceiveBuffer δ)) : Option (Unit × ReceiveBuffer δ) :=
  value.map fun rest => ((), rest.2)

theorem arrTargetCall_gets [WireType α] [Inhabited α]
    {store : CArray α → Arg δ} (array : CArray α) (dim : UInt32)
    (kind : (heap.memory ptr).arg.hasData = true) (stored : ∀ array, (store array).hasData = true)
    (buffer : ReceiveBuffer δ) : Gets ptr heap
      (arrTargetCall host allocateMemory ptr store array dim { heap with buffer := buffer })
      ((arrTarget host allocateMemory array dim).map (·, buffer)) := by
  have filled := (Filled.refl ptr heap).buffer buffer
  rw [arrTargetCall, arrTarget]
  split
  · split
    · exact .fail filled
    · have malloced := HeapGet.malloc_gets host filled rfl kind (dim.toNat * WireType.size α)
      have value : (Option.map (fun target => (target, buffer))
          (if host.malloc (dim.toNat * WireType.size α) then some (CArray.fresh dim : CArray α)
            else none)) =
          (if host.malloc (dim.toNat * WireType.size α) then some ((), buffer) else none).bind
            fun rest => some (CArray.fresh dim, rest.2) := by
        split <;> rfl
      rw [value]
      exact malloced.andThen fun _ after filled _ =>
        .setGive filled ((stored _).trans kind.symm) _
  · split
    · exact .fail filled
    · exact .give filled array

theorem arrGetCall_gets [WireType α] [Inhabited α] (ptr : ArgPtr) (store : CArray α → Arg δ) (array : CArray α)
    (kind : (heap.memory ptr).arg.hasData = true) (stored : ∀ array, (store array).hasData = true) :
    Gets ptr heap (arrGetCall host allocateMemory readValue ptr store array heap)
      (Left (arrGet host allocateMemory readValue array heap.buffer)) := by
  rw [arrGet_eq, arrGetCall, Left, Option.map_bind]
  refine .read (.refl ptr heap) _ fun dim buffer => ?_
  simp only [Function.comp_def, Option.map_bind]
  refine (arrTargetCall_gets host allocateMemory array dim kind stored buffer).andThen
    fun target after filled _ => ?_
  cases readValue with
  | false => exact .give filled ()
  | true =>
    simp only [if_true, Option.map_map]
    rw [map_eq_bind]
    exact .read filled _ fun bytes buffer => .setArg (filled.buffer buffer) ((stored _).trans kind.symm)

theorem stringGetCall_gets (ptr : ArgPtr) (sval : CString) (kind : (heap.memory ptr).arg.hasData = true) :
    Gets ptr heap (stringGetCall host readValue ptr heap)
      (Left (stringGet host readValue sval heap.buffer)) := by
  rw [stringGetCall, stringGet]
  cases readValue with
  | false => exact .give (.refl ptr heap) ()
  | true =>
    change Gets ptr heap ((HeapGet.read (readOne UInt32)).andThen _ heap)
      (Option.map _ (Option.bind (readOne UInt32 heap.buffer) _))
    rw [Option.map_bind]
    refine .read (.refl ptr heap) _ fun dim buffer => ?_
    have filled := (Filled.refl ptr heap).buffer buffer
    simp only [Function.comp_def]
    split
    · exact .fail filled
    · have malloced := HeapGet.malloc_gets host filled rfl kind (dim.toNat + 1)
      have value : Left ((if !host.malloc (dim.toNat + 1) then failure
          else CString.ofBytes <$> naClSrpcImcRead 1 dim.toNat : Get δ CString) buffer) =
          (if host.malloc (dim.toNat + 1) then some ((), buffer) else none).bind fun rest =>
            (naClSrpcImcRead 1 dim.toNat rest.2).bind fun bytes => some ((), bytes.2) := by
        cases host.malloc (dim.toNat + 1) with
        | false => rfl
        | true =>
          simp only [Bool.not_true, Bool.false_eq_true, if_false, if_true, get_map, Left,
            Option.map_map, bind_some]
          rw [map_eq_bind]
          rfl
      refine Eq.mpr (congrArg _ value) ?_
      exact malloced.andThen fun _ after filled _ => .read filled _ fun bytes buffer =>
        .setArg (filled.buffer buffer) kind.symm

theorem eltGetCall_gets (ptr : ArgPtr) (heap : Heap δ) :
    Gets ptr heap (eltGetCall host allocateMemory readValue ptr heap)
      (Left (eltGet host allocateMemory readValue (heap.memory ptr).arg heap.buffer)) := by
  have basic : ∀ {α : Type} (get : Get δ α) (store : α → Arg δ),
      (∀ a, (store a).hasData = (heap.memory ptr).arg.hasData) →
      Gets ptr heap ((HeapGet.read get).andThen (fun a => .setArg ptr (store a)) heap)
        (Left ((store <$> get) heap.buffer)) := by
    intro α get store stored
    rw [get_map, Left, Option.map_map, map_eq_bind]
    exact .read (.refl ptr heap) get fun a buffer =>
      .setArg ((Filled.refl ptr heap).buffer buffer) (stored a)
  have array : ∀ {α : Type} [WireType α] [Inhabited α] (store : CArray α → Arg δ) (elems : CArray α),
      (heap.memory ptr).arg.hasData = true → (∀ a, (store a).hasData = true) →
      Gets ptr heap (arrGetCall host allocateMemory readValue ptr store elems heap)
        (Left ((store <$> (arrGet host allocateMemory readValue elems : Get δ (CArray α))) heap.buffer)) := by
    intro α _ _ store elems kind stored
    rw [get_map, Left, Option.map_map]
    exact arrGetCall_gets host allocateMemory readValue ptr store elems kind stored
  rw [eltGetCall]
  cases kind : (heap.memory ptr).arg with
  | bool bval => exact basic _ Arg.bool fun _ => by rw [kind]; rfl
  | double dval => exact basic _ Arg.double fun _ => by rw [kind]; rfl
  | handle hval => exact basic _ Arg.handle fun _ => by rw [kind]; rfl
  | int ival => exact basic _ Arg.int fun _ => by rw [kind]; rfl
  | charArray elems => exact array Arg.charArray elems (by rw [kind]; rfl) fun _ => rfl
  | doubleArray elems => exact array Arg.doubleArray elems (by rw [kind]; rfl) fun _ => rfl
  | intArray elems => exact array Arg.intArray elems (by rw [kind]; rfl) fun _ => rfl
  | string sval =>
    simp only [eltGet]
    rw [get_map, Left, Option.map_map]
    exact stringGetCall_gets host readValue ptr sval (by rw [kind]; rfl)
  | invalid => exact .fail (.refl ptr heap)
  | object => exact .fail (.refl ptr heap)
  | variantArray => exact .fail (.refl ptr heap)

end Elements

section Owners

structure Holds (heap : Heap δ) (owners : List (Nat × Nat)) : Prop where
  held : ∀ i block, (heap.memory (.own i)).data = some block ↔
    ∃ number, block = .data number ∧ (i, number) ∈ owners
  kind : ∀ i, (heap.memory (.own i)).data ≠ none → (heap.memory (.own i)).arg.hasData = true
  once : (owners.map Prod.snd).Nodup

def Numbered (owners : List (Nat × Nat)) : Prop := ∀ owner ∈ owners, owner.2 ≤ owners.length

def ownerBlocks (owners : List (Nat × Nat)) : List Block := owners.map fun owner => .data owner.2

variable {i : Nat} {heap : Heap δ} {owners : List (Nat × Nat)} {after : Heap δ}

theorem Holds.nothing (holds : Holds heap owners)
    (free : ∀ owner ∈ owners, owner.1 ≠ i) : (heap.memory (.own i)).data = none := by
  cases data : (heap.memory (.own i)).data with
  | none => rfl
  | some block =>
    obtain ⟨number, -, member⟩ := (holds.held i block).mp data
    exact absurd rfl (free _ member)

theorem Holds.fill (holds : Holds heap owners)
    (numbered : Numbered owners) (free : ∀ owner ∈ owners, owner.1 ≠ i)
    (blocks : heap.allocated = .args :: ownerBlocks owners) (filled : Filled (.own i) heap after) :
    ∃ more, Holds after (owners ++ more) ∧ Numbered (owners ++ more) ∧
      after.allocated = .args :: ownerBlocks (owners ++ more) ∧ ∀ owner ∈ more, owner.1 = i := by
  have others : ∀ j, j ≠ i → after.memory (.own j) = heap.memory (.own j) := fun j away =>
    filled.others _ fun same => away (ArgPtr.own.inj same)
  rcases filled.blocks with ⟨allocated, data⟩ | ⟨allocated, data, kind⟩
  · have nothing : (after.memory (.own i)).data = none := by
      rcases data with same | none
      · exact same.trans (holds.nothing free)
      · exact none
    refine ⟨[], ?_, by rw [append_nil]; exact numbered, ?_, fun owner none => absurd none not_mem_nil⟩
    · rw [append_nil]
      constructor
      · intro j block
        by_cases here : j = i
        · subst here
          rw [nothing]
          constructor
          · intro none
            cases none
          · rintro ⟨number, -, member⟩
            exact absurd rfl (free _ member)
        · rw [others j here]
          exact holds.held j block
      · intro j some_data
        by_cases here : j = i
        · subst here
          exact absurd nothing some_data
        · rw [others j here] at some_data ⊢
          exact holds.kind j some_data
      · exact holds.once
    · rw [append_nil, allocated, blocks]
  · have length : heap.allocated.length = owners.length + 1 := by
      rw [blocks, length_cons, ownerBlocks, length_map]
    refine ⟨[(i, owners.length + 1)], ?_, ?_, ?_, ?_⟩
    · constructor
      · intro j block
        by_cases here : j = i
        · subst here
          rw [data, length]
          constructor
          · intro same
            exact ⟨_, (some.inj same).symm, mem_append_right _ (mem_singleton.mpr rfl)⟩
          · rintro ⟨number, rfl, member⟩
            rcases mem_append.mp member with old | new
            · exact absurd rfl (free _ old)
            · rw [(Prod.mk.inj (mem_singleton.mp new)).2]
        · rw [others j here, holds.held j block]
          constructor
          · rintro ⟨number, same, member⟩
            exact ⟨number, same, mem_append_left _ member⟩
          · rintro ⟨number, same, member⟩
            rcases mem_append.mp member with old | new
            · exact ⟨number, same, old⟩
            · exact absurd (Prod.mk.inj (mem_singleton.mp new)).1 here
      · intro j some_data
        by_cases here : j = i
        · subst here
          rw [filled.kind]
          exact kind
        · rw [others j here] at some_data ⊢
          exact holds.kind j some_data
      · rw [map_append, map_singleton, nodup_append]
        refine ⟨holds.once, by simp, fun number old other new => ?_⟩
        obtain ⟨owner, member, rfl⟩ := List.mem_map.mp old
        have small := numbered owner member
        rw [mem_singleton.mp new]
        omega
    · intro owner member
      rw [length_append, length_singleton]
      rcases mem_append.mp member with old | new
      · have small := numbered owner old
        omega
      · rw [mem_singleton.mp new]
    · rw [allocated, blocks, ownerBlocks, ownerBlocks, map_append]
      simp only [length_cons, length_map, map_cons, map_nil, cons_append]
    · intro owner new
      rw [mem_singleton.mp new]

theorem declared_tag (tag : UInt8) : (Element.declared tag : Element δ).tag = tag := by
  rw [Element.tag, Element.declared]
  by_cases known : (Arg.blank tag : Arg δ).known = false
  · simp only [known, dif_pos, Bool.false_eq_true, if_false]
  · rw [Bool.not_eq_false] at known
    simp only [known, if_true]
    unfold Arg.blank at known ⊢
    split at known <;> first | rfl | cases known

variable (size : SizeT) (malloc : Nat → Nat → Bool) (readValues : Bool)

/-- The number of elements, of those with the given tags, that a message comes to: their tags can be
read and are the declared ones. -/
def begun : List UInt8 → Nat → ReceiveBuffer δ → Nat
  | [], _, _ => 0
  | tag :: tags, i, buffer =>
    match readOne UInt8 buffer with
    | none => 0
    | some (readType, buffer) =>
      if tag ≠ readType then 0
      else
        match eltGet (hostAt size malloc (i + 1)) true readValues (Arg.blank tag : Arg δ) buffer with
        | none => 1
        | some (_, buffer) => begun tags (i + 1) buffer + 1

/-- What the loop leaves of the vector and the memory, when it came to `count` elements. -/
structure Looped (heap after : Heap δ) (i count limit : Nat) (owners : List (Nat × Nat)) : Prop where
  released : after.released = heap.released
  overrun : after.overrun = heap.overrun
  initialized : after.initialized = heap.initialized
  inspected : ∀ ptr ∈ after.inspected, ptr ∈ heap.inspected ∨ ∃ j < limit, ptr = .own j
  length : after.argvec.length = heap.argvec.length
  argvec : ∀ j, after.argvec[j]? =
    if i ≤ j ∧ j < i + count then heap.argvec[j]?.map fun _ => .own j else heap.argvec[j]?
  holds : Holds after owners
  numbered : Numbered owners
  allocated : after.allocated = .args :: ownerBlocks owners
  begun : ∀ owner ∈ owners, owner.1 < i + count

theorem Holds.same (holds : Holds heap owners) (memory : after.memory = heap.memory) : Holds after owners :=
  ⟨by rw [memory]; exact holds.held, by rw [memory]; exact holds.kind, holds.once⟩

theorem Looped.stopped {limit : Nat} (holds : Holds heap owners) (numbered : Numbered owners)
    (blocks : heap.allocated = .args :: ownerBlocks owners)
    (earlier : ∀ owner ∈ owners, owner.1 < i) (memory : after.memory = heap.memory)
    (others : after.argvec = heap.argvec ∧ after.allocated = heap.allocated ∧
      after.released = heap.released ∧ after.overrun = heap.overrun ∧
      after.initialized = heap.initialized)
    (inspected : ∀ ptr ∈ after.inspected, ptr ∈ heap.inspected ∨ ∃ j < limit, ptr = .own j) :
    Looped heap after i 0 limit owners := by
  obtain ⟨argvec, allocated, released, overrun, initialized⟩ := others
  refine ⟨released, overrun, initialized, inspected, by rw [argvec], fun j => ?_,
    holds.same memory, numbered, allocated.trans blocks, earlier⟩
  rw [if_neg (by omega), argvec]

theorem Looped.step {heap second after : Heap δ} {i count limit : Nat} {owners : List (Nat × Nat)}
    (looped : Looped second after (i + 1) count limit owners)
    (argvec : second.argvec = heap.argvec.set i (.own i))
    (others : second.released = heap.released ∧ second.overrun = heap.overrun ∧
      second.initialized = heap.initialized)
    (inspected : second.inspected = heap.inspected ++ [.own i]) (inside : i < limit) :
    Looped heap after i (count + 1) limit owners := by
  obtain ⟨released, overrun, initialized⟩ := others
  refine ⟨looped.released.trans released, looped.overrun.trans overrun,
    looped.initialized.trans initialized, fun ptr member => ?_, ?_, fun j => ?_, looped.holds,
    looped.numbered, looped.allocated, fun owner member => ?_⟩
  · rcases looped.inspected ptr member with before | own
    · rw [inspected] at before
      rcases mem_append.mp before with old | new
      · exact .inl old
      · exact .inr ⟨i, inside, mem_singleton.mp new⟩
    · exact .inr own
  · rw [looped.length, argvec, length_set]
  · rw [looped.argvec j, argvec, List.getElem?_set]
    by_cases here : i = j
    · subst here
      have not_later : ¬ (i + 1 ≤ i ∧ i < i + 1 + count) := by omega
      have first : i ≤ i ∧ i < i + (count + 1) := by omega
      rw [if_pos rfl, if_neg not_later, if_pos first]
      by_cases fits : i < heap.argvec.length
      · rw [if_pos fits, List.getElem?_eq_getElem fits]
        rfl
      · rw [if_neg fits, List.getElem?_eq_none (not_lt.mp fits)]
        rfl
    · rw [if_neg here]
      by_cases later : i + 1 ≤ j ∧ j < i + 1 + count
      · rw [if_pos later, if_pos (by omega)]
      · rw [if_neg later, if_neg (by omega)]
  · have before := looped.begun owner member
    omega

theorem getElements_own (tags : List UInt8)
    (declared : ∀ j tag, tags[j]? = some tag → heap.memory (.own (i + j)) = Element.declared tag)
    (holds : Holds heap owners) (numbered : Numbered owners)
    (blocks : heap.allocated = .args :: ownerBlocks owners) (earlier : ∀ owner ∈ owners, owner.1 < i) :
    ∃ owners', Looped heap (getElements size malloc true readValues (.own 0) tags.length i heap).1 i
      (begun size malloc readValues tags i heap.buffer) (i + tags.length) owners' := by
  induction tags generalizing i heap owners with
  | nil =>
    exact ⟨owners, .stopped holds numbered blocks earlier rfl ⟨rfl, rfl, rfl, rfl, rfl⟩
      fun ptr member => .inl member⟩
  | cons tag tags ih =>
    rw [length_cons, getElements, HeapGet.andThen, HeapGet.read, begun]
    cases readOne UInt8 heap.buffer with
    | none =>
      exact ⟨owners, .stopped holds numbered blocks earlier rfl ⟨rfl, rfl, rfl, rfl, rfl⟩
        fun ptr member => .inl member⟩
    | some read =>
      obtain ⟨readType, buffer⟩ := read
      have here := declared 0 tag rfl
      rw [Nat.add_zero] at here
      simp only [ArgPtr.add, Nat.zero_add]
      have its_tag : (({ heap with buffer := buffer }.inspect (.own i)).memory (.own i)).tag = tag :=
        (congrArg Element.tag here).trans (declared_tag tag)
      rw [its_tag]
      by_cases mismatch : tag ≠ readType
      · rw [if_pos mismatch, if_pos mismatch]
        refine ⟨owners, .stopped holds numbered blocks earlier rfl ⟨rfl, rfl, rfl, rfl, rfl⟩
          fun ptr member => ?_⟩
        rcases mem_append.mp member with old | new
        · exact .inl old
        · exact .inr ⟨i, by omega, mem_singleton.mp new⟩
      · rw [if_neg mismatch, if_neg mismatch]
        generalize second_eq : Heap.setPointer (Heap.inspect { heap with buffer := buffer }
          (ArgPtr.own i)) i (ArgPtr.own i) = second
        have second_memory : second.memory = heap.memory := by rw [← second_eq]; rfl
        have second_buffer : second.buffer = buffer := by rw [← second_eq]; rfl
        have second_allocated : second.allocated = heap.allocated := by rw [← second_eq]; rfl
        obtain ⟨filled, result, rest⟩ :=
          eltGetCall_gets (hostAt size malloc (i + 1)) true readValues (.own i) second
        rw [second_memory, here, second_buffer] at result rest
        rw [HeapGet.andThen]
        generalize eltGetCall (hostAt size malloc (i + 1)) true readValues (.own i) second = got
          at filled result rest
        obtain ⟨after, got⟩ := got
        obtain ⟨more, after_holds, after_numbered, after_blocks, only⟩ := (holds.same second_memory).fill
          numbered (fun owner member same => absurd (earlier owner member) (by omega))
          (second_allocated.trans blocks) filled
        have after_earlier : ∀ owner ∈ owners ++ more, owner.1 < i + 1 := by
          intro owner member
          rcases mem_append.mp member with old | new
          · exact Nat.lt_succ_of_lt (earlier owner old)
          · rw [only owner new]
            exact Nat.lt_succ_self i
        have argvec : after.argvec = heap.argvec.set i (.own i) :=
          filled.argvec.trans (by rw [← second_eq]; rfl)
        have others : after.released = heap.released ∧ after.overrun = heap.overrun ∧
            after.initialized = heap.initialized :=
          ⟨filled.released.trans (by rw [← second_eq]; rfl), filled.overrun.trans (by rw [← second_eq]; rfl),
            filled.initialized.trans (by rw [← second_eq]; rfl)⟩
        have inspected : after.inspected = heap.inspected ++ [.own i] :=
          filled.inspected.trans (by rw [← second_eq]; rfl)
        have first : (Element.declared tag : Element δ).arg = Arg.blank tag := rfl
        rw [first] at result rest
        cases value : eltGet (hostAt size malloc (i + 1)) true readValues (Arg.blank tag : Arg δ)
            buffer with
        | none =>
          rw [value] at result
          simp only [Left, map_none] at result
          rw [result]
          exact ⟨owners ++ more, (Looped.stopped after_holds after_numbered after_blocks after_earlier rfl
            ⟨rfl, rfl, rfl, rfl, rfl⟩ fun ptr member => .inl member).step argvec others inspected
            (by omega)⟩
        | some given =>
          rw [value] at result rest
          have after_buffer : after.buffer = given.2 := rest ((), given.2) rfl
          simp only [Left, map_some] at result
          rw [result]
          have later : ∀ j other, tags[j]? = some other →
              after.memory (.own (i + 1 + j)) = Element.declared other := by
            intro j other there
            have same := declared (j + 1) other there
            rw [filled.others _ (by simp; omega), second_memory, ← same]
            congr 2
            omega
          obtain ⟨owners', looped⟩ := ih later after_holds after_numbered after_blocks after_earlier
          rw [after_buffer] at looped
          refine ⟨owners', ?_⟩
          have limit : i + 1 + tags.length = i + (tags.length + 1) := by omega
          rw [limit] at looped
          exact looped.step argvec others inspected (by omega)

end Owners

section Free

variable {ptr : ArgPtr} {heap : Heap δ}

theorem freeElements_cons (set : ptr ≠ .null) (rest : List ArgPtr) (heap : Heap δ) :
    freeElements (ptr :: rest) heap = freeElements rest ((heap.inspect ptr).freeElement ptr) := by
  cases ptr with
  | null => exact absurd rfl set
  | own i => rfl
  | callers object i => rfl

theorem freeElement_others (heap : Heap δ) (ptr : ArgPtr) :
    (heap.freeElement ptr).inspected = heap.inspected ∧ (heap.freeElement ptr).overrun = heap.overrun ∧
      (heap.freeElement ptr).allocated = heap.allocated ∧
      (heap.freeElement ptr).argvec = heap.argvec ∧
      (heap.freeElement ptr).initialized = heap.initialized := by
  rw [Heap.freeElement]
  split
  · cases (heap.memory ptr).data <;> exact ⟨rfl, rfl, rfl, rfl, rfl⟩
  · exact ⟨rfl, rfl, rfl, rfl, rfl⟩

theorem freeElements_walk (ptrs : List ArgPtr) (heap : Heap δ) :
    (freeElements ptrs heap).inspected = heap.inspected ++ ptrs.takeWhile (· ≠ .null) ∧
      (freeElements ptrs heap).overrun = (heap.overrun || !ptrs.contains .null) ∧
      (freeElements ptrs heap).allocated = heap.allocated ∧
      (freeElements ptrs heap).argvec = heap.argvec ∧
      (freeElements ptrs heap).initialized = heap.initialized := by
  induction ptrs generalizing heap with
  | nil => exact ⟨(append_nil _).symm, (Bool.or_true _).symm, rfl, rfl, rfl⟩
  | cons ptr rest ih =>
    by_cases null : ptr = .null
    · subst null
      refine ⟨?_, ?_, rfl, rfl, rfl⟩
      · rw [takeWhile_cons_of_neg (by decide), append_nil]
        rfl
      · rw [contains_cons]
        simp [freeElements]
    · rw [freeElements_cons null]
      obtain ⟨inspected, overrun, allocated, argvec, initialized⟩ :=
        ih ((heap.inspect ptr).freeElement ptr)
      obtain ⟨step_inspected, step_overrun, step_allocated, step_argvec, step_initialized⟩ :=
        freeElement_others (heap.inspect ptr) ptr
      have other : (ArgPtr.null == ptr) = false := by simpa using fun same => null same.symm
      refine ⟨?_, ?_, allocated.trans step_allocated, argvec.trans step_argvec,
        initialized.trans step_initialized⟩
      · rw [inspected, step_inspected, takeWhile_cons_of_pos (by simpa using null)]
        exact append_assoc _ _ _
      · rw [overrun, step_overrun, contains_cons, other, Bool.false_or]
        rfl

theorem freeElement_none (data : (heap.memory ptr).data = none) :
    (heap.freeElement ptr).memory = heap.memory ∧ (heap.freeElement ptr).released = heap.released := by
  rw [Heap.freeElement, data]
  split
  · refine ⟨funext fun p => ?_, rfl⟩
    by_cases here : p = ptr
    · subst here
      refine (if_pos rfl).trans ?_
      rw [← data]
    · exact if_neg here
  · exact ⟨rfl, rfl⟩

theorem freeElement_some {block : Block}
    (data : (heap.memory ptr).data = some block) (kind : (heap.memory ptr).arg.hasData = true) :
    ((heap.freeElement ptr).memory ptr).data = none ∧
      (∀ p, p ≠ ptr → (heap.freeElement ptr).memory p = heap.memory p) ∧
      (heap.freeElement ptr).released = heap.released ++ [block] := by
  rw [Heap.freeElement, data, if_pos kind]
  exact ⟨congrArg Element.data (if_pos rfl), fun p away => if_neg away, rfl⟩

theorem Holds.free {owners : List (Nat × Nat)} (holds : Holds heap owners) (i : Nat) :
    ∃ rest, Holds (heap.freeElement (.own i)) rest ∧ (∀ owner ∈ rest, owner ∈ owners ∧ owner.1 ≠ i) ∧
      ((heap.freeElement (.own i)).released ++ ownerBlocks rest).Perm (heap.released ++ ownerBlocks owners) := by
  cases data : (heap.memory (.own i)).data with
  | none =>
    obtain ⟨memory, released⟩ := freeElement_none data
    refine ⟨owners, holds.same memory, fun owner member => ⟨member, fun here => ?_⟩, ?_⟩
    · have some_data := (holds.held i _).mpr ⟨owner.2, rfl, here ▸ member⟩
      rw [data] at some_data
      cases some_data
    · rw [released]
  | some block =>
    have kind := holds.kind i (by rw [data]; exact some_ne_none _)
    obtain ⟨nothing, others, released⟩ := freeElement_some data kind
    obtain ⟨number, rfl, member⟩ := (holds.held i block).mp data
    have distinct : owners.Nodup := List.Nodup.of_map _ holds.once
    have only : ∀ other, (i, other) ∈ owners → other = number := by
      intro other also
      have same := (holds.held i _).mpr ⟨other, rfl, also⟩
      rw [data] at same
      exact (Block.data.inj (some.inj same)).symm
    have away : ∀ owner ∈ owners.erase (i, number), owner.1 ≠ i := by
      intro owner kept here
      obtain ⟨different, also⟩ := distinct.mem_erase_iff.mp kept
      exact different (Prod.ext here (only owner.2 (here ▸ also)))
    refine ⟨owners.erase (i, number), ⟨fun j block => ?_, fun j some_data => ?_, ?_⟩,
      fun owner kept => ⟨mem_of_mem_erase kept, away owner kept⟩, ?_⟩
    · by_cases here : j = i
      · subst here
        rw [nothing]
        constructor
        · intro none
          cases none
        · rintro ⟨_, -, kept⟩
          exact absurd rfl (away _ kept)
      · rw [others _ fun same => here (ArgPtr.own.inj same), holds.held j block]
        have kept : ∀ other, (j, other) ∈ owners.erase (i, number) ↔ (j, other) ∈ owners := by
          intro other
          rw [distinct.mem_erase_iff]
          exact and_iff_right fun same => here (Prod.mk.inj same).1
        simp only [kept]
    · by_cases here : j = i
      · subst here
        exact absurd nothing some_data
      · rw [others _ fun same => here (ArgPtr.own.inj same)] at some_data ⊢
        exact holds.kind j some_data
    · exact holds.once.sublist (erase_sublist.map _)
    · rw [released, append_assoc]
      refine .append_left _ ?_
      exact ((perm_cons_erase member).map fun owner => Block.data owner.2).symm

theorem freeElements_own (front : List Nat) (back : List ArgPtr)
    {owners : List (Nat × Nat)} (holds : Holds heap owners) :
    ∃ rest, (∀ owner ∈ rest, owner ∈ owners ∧ owner.1 ∉ front) ∧
      ((freeElements (front.map .own ++ .null :: back) heap).released ++ ownerBlocks rest).Perm
        (heap.released ++ ownerBlocks owners) := by
  induction front generalizing heap owners with
  | nil =>
    exact ⟨owners, fun owner member => ⟨member, not_mem_nil⟩, .refl _⟩
  | cons i front ih =>
    rw [map_cons, cons_append, freeElements_cons (by simp)]
    have inspected : Holds (heap.inspect (.own i)) owners := holds.same rfl
    obtain ⟨middle, middle_holds, kept, released⟩ := inspected.free i
    obtain ⟨rest, rest_kept, rest_released⟩ := ih middle_holds
    refine ⟨rest, fun owner member => ?_, rest_released.trans released⟩
    obtain ⟨in_middle, not_front⟩ := rest_kept owner member
    obtain ⟨in_owners, away⟩ := kept owner in_middle
    exact ⟨in_owners, fun member => (mem_cons.mp member).elim away not_front⟩

end Free

section Cleanup

def ArgPtr.ownBelow (length : Nat) : ArgPtr → Bool
  | .own i => decide (i < length)
  | _ => false

theorem ownBelow_own {length : Nat} {ptr : ArgPtr} (own : ptr.ownBelow length = true) :
    ∃ i < length, ptr = .own i := by
  cases ptr with
  | null => cases own
  | own i => exact ⟨i, of_decide_eq_true own, rfl⟩
  | callers object i => cases own

/-- A heap that is as if nothing had been allocated, and in which nothing was touched but the own
elements. -/
structure Cleaned (heap : Heap δ) : Prop where
  released : heap.released.Perm heap.allocated
  once : heap.allocated.Nodup
  inspected : ∀ ptr ∈ heap.inspected, ptr.ownBelow heap.initialized = true
  overrun : heap.overrun = false

/-- A vector that starts with the block, and in front of a `NULL` has nothing but elements of it. -/
def OwnVector (length : Nat) (argvec : List ArgPtr) : Prop :=
  .null ∈ argvec ∧ argvec.head? = some (.own 0) ∧
    ∀ ptr ∈ argvec.takeWhile (· ≠ .null), ptr.ownBelow length = true

instance (length : Nat) (argvec : List ArgPtr) : Decidable (OwnVector length argvec) := by
  unfold OwnVector
  infer_instance

theorem argsFree_others (heap : Heap δ) :
    (argsFree heap).inspected = heap.inspected ++ heap.argvec.takeWhile (· ≠ .null) ∧
      (argsFree heap).overrun = (heap.overrun || !heap.argvec.contains .null) ∧
      (argsFree heap).allocated = heap.allocated ∧
      (argsFree heap).initialized = heap.initialized ∧
      (argsFree heap).released = (freeElements heap.argvec heap).released ++
        (heap.argvec.headD .null).block.toList := by
  obtain ⟨inspected, overrun, allocated, argvec, initialized⟩ := freeElements_walk heap.argvec heap
  rw [argsFree, argvec]
  cases (heap.argvec.headD .null).block with
  | none => exact ⟨inspected, overrun, allocated, initialized, (append_nil _).symm⟩
  | some block => exact ⟨inspected, overrun, allocated, initialized, rfl⟩

theorem own_front {length : Nat} {argvec : List ArgPtr} (null : .null ∈ argvec)
    (own : ∀ ptr ∈ argvec.takeWhile (· ≠ .null), ptr.ownBelow length = true) :
    ∃ (front : List Nat) (back : List ArgPtr), argvec = front.map .own ++ .null :: back := by
  induction argvec with
  | nil => exact absurd null not_mem_nil
  | cons ptr rest ih =>
    by_cases here : ptr = .null
    · exact ⟨[], rest, by rw [here]; rfl⟩
    · rw [takeWhile_cons_of_pos (by simpa using here)] at own
      obtain ⟨i, -, rfl⟩ := ownBelow_own (own ptr mem_cons_self)
      have later := (mem_cons.mp null).resolve_left fun same => here same.symm
      obtain ⟨front, back, rfl⟩ := ih later fun ptr member => own ptr (mem_cons_of_mem _ member)
      exact ⟨i :: front, back, rfl⟩

theorem args_not_owner (owners : List (Nat × Nat)) : Block.args ∉ ownerBlocks owners := by
  intro member
  obtain ⟨owner, -, same⟩ := List.mem_map.mp member
  cases same

theorem block_args {argvec : List ArgPtr} (block : (argvec.headD .null).block = some .args) :
    argvec.head? = some (.own 0) := by
  cases argvec with
  | nil => cases block
  | cons ptr rest =>
    cases ptr with
    | null => cases block
    | callers object i => cases block
    | own i =>
      cases i with
      | zero => rfl
      | succ i => cases block

theorem in_front {front : List Nat} {back : List ArgPtr} {count : Nat}
    (argvec : ∀ i < count, (front.map ArgPtr.own ++ .null :: back)[i]? = some (.own i)) {i : Nat}
    (early : i < count) : i ∈ front := by
  have inside : i < front.length := by
    by_contra outside
    have there := argvec front.length (by omega)
    rw [List.getElem?_append_right (by simp), length_map, Nat.sub_self] at there
    cases there
  have there := argvec i early
  rw [List.getElem?_append_left (by simpa using inside), List.getElem?_map] at there
  obtain ⟨j, at_i, same⟩ := map_eq_some_iff.mp there
  rw [← ArgPtr.own.inj same]
  exact mem_of_getElem? at_i

theorem argsFree_cleaned {heap : Heap δ} {owners : List (Nat × Nat)} {count : Nat}
    (holds : Holds heap owners) (allocated : heap.allocated = .args :: ownerBlocks owners)
    (released : heap.released = []) (overrun : heap.overrun = false)
    (inspected : ∀ ptr ∈ heap.inspected, ptr.ownBelow heap.initialized = true)
    (earlier : ∀ owner ∈ owners, owner.1 < count) (argvec : ∀ i < count, heap.argvec[i]? = some (.own i)) :
    Cleaned (argsFree heap) ↔ OwnVector heap.initialized heap.argvec := by
  obtain ⟨after_inspected, after_overrun, after_allocated, after_initialized, after_released⟩ :=
    argsFree_others heap
  constructor
  · intro cleaned
    have own : ∀ ptr ∈ heap.argvec.takeWhile (· ≠ .null), ptr.ownBelow heap.initialized = true := by
      intro ptr member
      rw [← after_initialized]
      exact cleaned.inspected ptr (by rw [after_inspected]; exact mem_append_right _ member)
    have null : .null ∈ heap.argvec := by
      have walked := cleaned.overrun
      rw [after_overrun, overrun, Bool.false_or, Bool.not_eq_false', contains_iff_mem] at walked
      exact walked
    refine ⟨null, ?_, own⟩
    -- The block itself is released through the first pointer only.
    obtain ⟨front, back, vector⟩ := own_front null own
    obtain ⟨rest, -, walked⟩ := freeElements_own front back holds
    rw [← vector, released, nil_append] at walked
    have args : Block.args ∈ (argsFree heap).released := by
      rw [cleaned.released.mem_iff, after_allocated, allocated]
      exact mem_cons_self
    rw [after_released] at args
    rcases mem_append.mp args with element | first
    · have owner := walked.mem_iff.mp (mem_append_left _ element)
      exact absurd owner (args_not_owner owners)
    · exact block_args (mem_toList.mp first)
  · rintro ⟨null, head, own⟩
    obtain ⟨front, back, vector⟩ := own_front null own
    obtain ⟨rest, kept, walked⟩ := freeElements_own front back holds
    have nothing : rest = [] := by
      refine eq_nil_iff_forall_not_mem.mpr fun owner member => ?_
      obtain ⟨old, outside⟩ := kept owner member
      rw [vector] at argvec
      exact outside (in_front argvec (earlier owner old))
    have first : (heap.argvec.headD .null).block = some .args := by
      rw [List.headD_eq_head?_getD, head]
      rfl
    rw [nothing, ← vector, released, nil_append] at walked
    simp only [ownerBlocks, map_nil, append_nil] at walked
    refine ⟨?_, ?_, fun ptr member => ?_, ?_⟩
    · rw [after_released, after_allocated, allocated, first]
      exact (perm_append_singleton _ _).trans (walked.cons _)
    · rw [after_allocated, allocated]
      refine nodup_cons.mpr ⟨args_not_owner owners, ?_⟩
      have numbers : (owners.map Prod.snd).map Block.data = ownerBlocks owners := List.map_map ..
      rw [← numbers]
      exact holds.once.map fun number other same => Block.data.inj same
    · rw [after_inspected] at member
      rw [after_initialized]
      exact (mem_append.mp member).elim (inspected ptr) (own ptr)
    · rw [after_overrun, overrun, contains_iff_mem.mpr null]
      rfl

end Cleanup

section Callers

variable (size : SizeT) (malloc : Nat → Nat → Bool) (allocateArgs readValues : Bool)

theorem ownBelow_zero (ptr : ArgPtr) : ptr.ownBelow 0 = false := by
  cases ptr with
  | null => rfl
  | own i => exact decide_eq_false (Nat.not_lt_zero i)
  | callers object i => rfl

theorem Cleaned.untouched {heap : Heap δ} (cleaned : Cleaned heap) (none : heap.initialized = 0)
    (ptr : ArgPtr) : ptr ∉ heap.inspected := by
  intro member
  have own := cleaned.inspected ptr member
  rw [none, ownBelow_zero] at own
  cases own

theorem getElements_keeps (args : ArgPtr) (count i : Nat) (heap : Heap δ) :
    (getElements size malloc allocateArgs readValues args count i heap).1.initialized = heap.initialized ∧
      heap.inspected ⊆ (getElements size malloc allocateArgs readValues args count i heap).1.inspected := by
  induction count generalizing i heap with
  | zero => exact ⟨rfl, List.Subset.refl _⟩
  | succ count ih =>
    rw [getElements, HeapGet.andThen, HeapGet.read]
    cases readOne UInt8 heap.buffer with
    | none => exact ⟨rfl, List.Subset.refl _⟩
    | some read =>
      obtain ⟨readType, buffer⟩ := read
      simp only
      split
      · exact ⟨rfl, subset_append_left _ _⟩
      · generalize second_eq : Heap.setPointer (Heap.inspect { heap with buffer := buffer }
          (args.add i)) i (args.add i) = second
        have inspected : second.inspected = heap.inspected ++ [args.add i] := by
          rw [← second_eq]
          rfl
        have initialized : second.initialized = heap.initialized := by
          rw [← second_eq]
          rfl
        have filled := (eltGetCall_gets (hostAt size malloc (i + 1)) allocateArgs readValues
          (args.add i) second).filled
        rw [HeapGet.andThen]
        generalize eltGetCall (hostAt size malloc (i + 1)) allocateArgs readValues (args.add i)
          second = got at filled
        obtain ⟨after, got⟩ := got
        have kept : heap.inspected ⊆ after.inspected := by
          rw [filled.inspected, inspected]
          exact subset_append_left _ _
        have same : after.initialized = heap.initialized := filled.initialized.trans initialized
        cases got with
        | none => exact ⟨same, kept⟩
        | some _ =>
          obtain ⟨rest_same, rest_kept⟩ := ih (i + 1) after
          exact ⟨rest_same.trans same, List.Subset.trans kept rest_kept⟩

theorem getElements_first (args : ArgPtr) (count : Nat) (heap : Heap δ) : (readOne UInt8 heap.buffer = none ∧
        getElements size malloc allocateArgs readValues args (count + 1) 0 heap = (heap, none)) ∨
      (readOne UInt8 heap.buffer ≠ none ∧ args.add 0 ∈
        (getElements size malloc allocateArgs readValues args (count + 1) 0 heap).1.inspected) := by
  rw [getElements, HeapGet.andThen, HeapGet.read]
  cases readOne UInt8 heap.buffer with
  | none => exact .inl ⟨rfl, rfl⟩
  | some read =>
    obtain ⟨readType, buffer⟩ := read
    refine .inr ⟨some_ne_none _, ?_⟩
    simp only
    split
    · exact mem_append_right _ (mem_singleton.mpr rfl)
    · generalize second_eq : Heap.setPointer (Heap.inspect { heap with buffer := buffer }
        (args.add 0)) 0 (args.add 0) = second
      have here : args.add 0 ∈ second.inspected := by
        rw [← second_eq]
        exact mem_append_right _ (mem_singleton.mpr rfl)
      have filled := (eltGetCall_gets (hostAt size malloc (0 + 1)) allocateArgs readValues
        (args.add 0) second).filled
      rw [HeapGet.andThen]
      generalize eltGetCall (hostAt size malloc (0 + 1)) allocateArgs readValues (args.add 0)
        second = got at filled
      obtain ⟨after, got⟩ := got
      rw [← filled.inspected] at here
      cases got with
      | none => exact here
      | some _ =>
        exact (getElements_keeps size malloc allocateArgs readValues args count 1 after).2 here

end Callers

section Main

variable (size : SizeT) (malloc : Nat → Nat → Bool) (allocateArgs readValues : Bool)

def Heap.before (buffer : ReceiveBuffer δ) (memory : ArgPtr → Element δ) (argvec : List ArgPtr) :
    Heap δ :=
  ⟨buffer, memory, argvec, 0, [], [], [], false⟩

theorem before_cleaned (buffer : ReceiveBuffer δ) (memory : ArgPtr → Element δ)
    (argvec : List ArgPtr) : Cleaned (Heap.before buffer memory argvec) :=
  ⟨.refl _, nodup_nil, fun _ none => absurd none not_mem_nil, rfl⟩

/-- A vector of the caller, of which the loop came to `count` elements. -/
def vectorAt (argvec : List ArgPtr) (count : Nat) : List ArgPtr :=
  (List.range count).map .own ++ argvec.drop count

def FailsClean (argTypes : CString) (buffer : ReceiveBuffer δ) (argvec : List ArgPtr) : Prop :=
  match readOne UInt32 buffer with
  | none => True
  | some (lenu32, buffer) =>
    naclSrpcMaxArgs ≤ lenu32.toNat ∨
      if allocateArgs = true ∧ 0 < lenu32.toNat then
        size.max / size.argSize ≤ lenu32.toNat ∨ malloc 0 (lenu32.toNat * size.argSize) = false ∨
            (declaredArgs argTypes.bytes lenu32.toNat : Option (List (Arg δ))).isSome = true ∧
              OwnVector lenu32.toNat (vectorAt argvec
                (begun size malloc readValues (argTypes.bytes.take lenu32.toNat) 0 buffer))
      else
        lenu32.toNat ≠ argTypes.bytes.length ∨ argvec.headD .null = .null ∧ readOne UInt8 buffer = none

theorem fillArgs_callers {heap : Heap δ} (clean : Cleaned heap) (none : heap.initialized = 0) {length : Nat}
    (failed : (fillArgs size malloc allocateArgs readValues (heap.argvec.headD .null) length heap).2 =
      Option.none) :
    Cleaned (fillArgs size malloc allocateArgs readValues (heap.argvec.headD .null) length heap).1 ↔
      heap.argvec.headD .null = .null ∧ readOne UInt8 heap.buffer = Option.none := by
  cases length with
  | zero => cases failed
  | succ count =>
    have keeps := getElements_keeps size malloc allocateArgs readValues (heap.argvec.headD .null)
      (count + 1) 0 heap
    have first := getElements_first size malloc allocateArgs readValues (heap.argvec.headD .null) count heap
    rw [fillArgs] at failed ⊢
    generalize getElements size malloc allocateArgs readValues (heap.argvec.headD .null)
      (count + 1) 0 heap = outcome at failed keeps first
    obtain ⟨after, got⟩ := outcome
    cases got with
    | some _ => cases failed
    | none =>
      have initialized : after.initialized = 0 := keeps.1.trans none
      simp only
      by_cases null : heap.argvec.headD .null = .null
      · rw [if_pos null]
        rcases first with ⟨unread, same⟩ | ⟨read, here⟩
        · obtain ⟨rfl, -⟩ := Prod.mk.inj same
          exact ⟨fun _ => ⟨null, unread⟩, fun _ => clean⟩
        · exact ⟨fun cleaned => absurd here (cleaned.untouched initialized _), fun meets => absurd meets.2 read⟩
      · rw [if_neg null]
        refine ⟨fun cleaned => ?_, fun meets => absurd meets.1 null⟩
        obtain ⟨freed_inspected, -, -, freed_initialized, -⟩ := argsFree_others after
        have untouched := cleaned.untouched (freed_initialized.trans initialized)
        rw [freed_inspected] at untouched
        rcases first with ⟨-, same⟩ | ⟨-, here⟩
        · obtain ⟨rfl, -⟩ := Prod.mk.inj same
          cases vector : after.argvec with
          | nil =>
            rw [vector] at null
            exact absurd rfl null
          | cons ptr rest =>
            rw [vector] at null untouched
            rw [takeWhile_cons_of_pos (by simpa using null)] at untouched
            exact absurd (mem_append_right _ mem_cons_self) (untouched ptr)
        · exact absurd (mem_append_left _ here) (untouched _)

theorem begun_le (tags : List UInt8) (i : Nat) (buffer : ReceiveBuffer δ) :
    begun size malloc readValues tags i buffer ≤ tags.length := by
  induction tags generalizing i buffer with
  | nil => exact Nat.le_refl 0
  | cons tag tags ih =>
    rw [begun, length_cons]
    cases readOne UInt8 buffer with
    | none => exact Nat.zero_le _
    | some read =>
      simp only
      split
      · exact Nat.zero_le _
      · split
        · exact Nat.le_add_left 1 _
        · exact Nat.succ_le_succ (ih _ _)

theorem Looped.vector {heap after : Heap δ} {count limit : Nat} {owners : List (Nat × Nat)}
    (looped : Looped heap after 0 count limit owners) (room : count ≤ heap.argvec.length) :
    after.argvec = vectorAt heap.argvec count := by
  apply ext_getElem?
  intro j
  rw [looped.argvec j, vectorAt]
  by_cases early : j < count
  · rw [if_pos ⟨Nat.zero_le j, by omega⟩, List.getElem?_append_left (by simpa using early),
      List.getElem?_eq_getElem (by omega), List.getElem?_map, List.getElem?_range early]
    rfl
  · rw [if_neg (by omega), List.getElem?_append_right (by simpa using early), length_map,
      length_range, List.getElem?_drop]
    congr 1
    omega

theorem fillArgs_own (buffer : ReceiveBuffer δ) (memory : ArgPtr → Element δ)
    (argvec : List ArgPtr) (tags : List UInt8) (room : tags.length ≤ argvec.length)
    (failed : (fillArgs size malloc true readValues (.own 0) tags.length
      ((Heap.before buffer memory argvec).newArgs tags)).2 = none) :
    Cleaned (fillArgs size malloc true readValues (.own 0) tags.length
        ((Heap.before buffer memory argvec).newArgs tags)).1 ↔
      OwnVector tags.length (vectorAt argvec (begun size malloc readValues tags 0 buffer)) := by
  generalize block : (Heap.before buffer memory argvec).newArgs tags = heap at failed ⊢
  have declared : ∀ j tag, tags[j]? = some tag → heap.memory (.own (0 + j)) = Element.declared tag := by
    intro j tag there
    rw [← block, Nat.zero_add, Heap.newArgs]
    simp only [getD_eq_getElem?_getD, there, getD_some]
  have holds : Holds heap [] := by
    rw [← block]
    refine ⟨fun i data => ⟨fun same => ?_, fun ⟨_, _, member⟩ => absurd member not_mem_nil⟩,
      fun i data => absurd rfl data, nodup_nil⟩
    cases same
  obtain ⟨owners, looped⟩ := getElements_own size malloc readValues tags declared holds
    (fun owner member => absurd member not_mem_nil) (by rw [← block]; rfl)
    (fun owner member => absurd member not_mem_nil)
  have count_le := begun_le size malloc readValues tags 0 heap.buffer
  have heap_room : tags.length ≤ heap.argvec.length := by
    rw [← block]
    exact room
  have vector := looped.vector (count_le.trans heap_room)
  rw [fillArgs] at failed ⊢
  generalize getElements size malloc true readValues (.own 0) tags.length 0 heap = outcome
    at failed looped vector
  obtain ⟨after, got⟩ := outcome
  cases got with
  | some _ => cases failed
  | none =>
    simp only
    rw [if_neg (by simp)]
    have same_argvec : heap.argvec = argvec := by rw [← block]; rfl
    have same_buffer : heap.buffer = buffer := by rw [← block]; rfl
    have same_length : after.initialized = tags.length :=
      looped.initialized.trans (by rw [← block]; rfl)
    have early : ∀ owner ∈ owners, owner.1 < begun size malloc readValues tags 0 heap.buffer := by
      intro owner member
      have before := looped.begun owner member
      omega
    rw [same_argvec, same_buffer] at vector
    rw [same_buffer] at early
    rw [← vector, ← same_length]
    refine argsFree_cleaned looped.holds looped.allocated (looped.released.trans (by rw [← block]; rfl))
      (looped.overrun.trans (by rw [← block]; rfl)) (fun ptr member => ?_) early fun i inside => ?_
    · rcases looped.inspected ptr member with old | ⟨j, inside, rfl⟩
      · rw [← block] at old
        cases old
      · rw [same_length]
        exact decide_eq_true (by omega)
    · rw [vector, vectorAt, List.getElem?_append_left (by simpa using inside), List.getElem?_map,
        List.getElem?_range inside]
      rfl

/-- Which failures release what was allocated, and touch nothing else. -/
theorem args_cleaned_iff (argTypes : CString) (buffer : ReceiveBuffer δ)
    (memory : ArgPtr → Element δ) (argvec : Fin (naclSrpcMaxArgs + 1) → ArgPtr)
    (failed : (argsGetCall size malloc allocateArgs readValues argTypes
      (.before buffer memory (List.ofFn argvec))).2 = none) :
    Cleaned (argsGetCall size malloc allocateArgs readValues argTypes
        (.before buffer memory (List.ofFn argvec))).1 ↔
      FailsClean size malloc allocateArgs readValues argTypes buffer (List.ofFn argvec) := by
  have start : ∀ rest : ReceiveBuffer δ, ({ Heap.before buffer memory (List.ofFn argvec) with
      buffer := rest } : Heap δ) = .before rest memory (List.ofFn argvec) := fun _ => rfl
  have same_buffer : ∀ rest : ReceiveBuffer δ,
      (Heap.before rest memory (List.ofFn argvec)).buffer = rest := fun _ => rfl
  rw [argsGetCall, HeapGet.andThen, HeapGet.read, same_buffer] at failed ⊢
  rw [FailsClean]
  cases header : readOne UInt32 buffer with
  | none => exact iff_of_true (before_cleaned buffer memory _) trivial
  | some read =>
    obtain ⟨lenu32, rest⟩ := read
    rw [header] at failed
    simp only [start] at failed ⊢
    by_cases many : naclSrpcMaxArgs ≤ lenu32.toNat
    · rw [if_pos many]
      exact iff_of_true (before_cleaned rest memory _) (Or.inl many)
    rw [if_neg many] at failed ⊢
    rw [or_iff_right many]
    by_cases allocate : allocateArgs = true ∧ 0 < lenu32.toNat
    · rw [if_pos allocate] at failed ⊢
      rw [if_pos allocate]
      by_cases large : size.max / size.argSize ≤ lenu32.toNat
      · rw [if_pos large]
        exact iff_of_true (before_cleaned rest memory _) (Or.inl large)
      rw [if_neg large] at failed ⊢
      rw [or_iff_right large]
      cases available : malloc 0 (lenu32.toNat * size.argSize) with
      | false => exact iff_of_true (before_cleaned rest memory _) (Or.inl rfl)
      | true =>
        rw [available] at failed
        simp only [Bool.not_true, Bool.false_eq_true, if_false, Bool.true_eq_false, false_or] at failed ⊢
        cases types : (declaredArgs argTypes.bytes lenu32.toNat : Option (List (Arg δ))) with
        | none =>
          refine iff_of_false (fun cleaned => ?_) fun meets => nomatch meets.1
          have lost := cleaned.released.length_eq
          cases lost
        | some declared =>
          have long : lenu32.toNat ≤ argTypes.bytes.length := by
            rw [declaredArgs] at types
            by_contra short
            rw [if_pos (Or.inl (by omega))] at types
            cases types
          have tags : (argTypes.bytes.take lenu32.toNat).length = lenu32.toNat :=
            List.length_take_of_le long
          rw [types] at failed
          simp only [Option.isNone_some, Bool.false_eq_true, if_false, Option.isSome_some, true_and] at failed ⊢
          have own := fillArgs_own size malloc readValues rest memory (List.ofFn argvec)
            (argTypes.bytes.take lenu32.toNat) (by rw [tags, List.length_ofFn]; omega)
          rw [tags] at own
          rw [allocate.1] at failed ⊢
          exact own failed
    · rw [if_neg allocate] at failed ⊢
      rw [if_neg allocate]
      by_cases count : lenu32.toNat ≠ argTypes.bytes.length
      · rw [if_pos count]
        exact iff_of_true (before_cleaned rest memory _) (Or.inl count)
      · rw [if_neg count] at failed ⊢
        rw [or_iff_right count]
        exact fillArgs_callers size malloc allocateArgs readValues (before_cleaned rest memory _) rfl failed

/-- A message that ends in front of its second integer, for a vector of `NULL`s. -/
theorem short_message_cleaned : Cleaned (argsGetCall .bits64 (fun _ _ => true) true true
    ⟨[105, 105], by decide⟩
    (.before (⟨[2, 0, 0, 0, 105, 7, 0, 0, 0], []⟩ : ReceiveBuffer Unit) (fun _ => Element.declared 88)
      (List.ofFn fun _ : Fin (naclSrpcMaxArgs + 1) => ArgPtr.null))).1 := by
  have meets : FailsClean .bits64 (fun _ _ => true) true true ⟨[105, 105], by decide⟩
      (⟨[2, 0, 0, 0, 105, 7, 0, 0, 0], []⟩ : ReceiveBuffer Unit)
      (List.ofFn fun _ : Fin (naclSrpcMaxArgs + 1) => ArgPtr.null) :=
    Or.inr (Or.inr (Or.inr ⟨rfl, by decide⟩))
  exact (args_cleaned_iff .bits64 (fun _ _ => true) true true ⟨[105, 105], by decide⟩
    ⟨[2, 0, 0, 0, 105, 7, 0, 0, 0], []⟩ (fun _ => Element.declared 88) (fun _ => .null) rfl).mpr meets

/-- A message of two integers for a procedure that declares one leaves its block. -/
theorem mismatch_leaks : ¬ ∀ (size : SizeT) (malloc : Nat → Nat → Bool)
    (allocateArgs readValues : Bool) (argTypes : CString) (buffer : ReceiveBuffer Unit)
    (memory : ArgPtr → Element Unit) (argvec : Fin (naclSrpcMaxArgs + 1) → ArgPtr),
    (argsGetCall size malloc allocateArgs readValues argTypes
      (.before buffer memory (List.ofFn argvec))).2 = none →
    Cleaned (argsGetCall size malloc allocateArgs readValues argTypes
      (.before buffer memory (List.ofFn argvec))).1 := by
  intro claim
  have cleaned := claim .bits64 (fun _ _ => true) true true ⟨[105], by decide⟩
    ⟨[2, 0, 0, 0, 105, 7, 0, 0, 0, 105, 7, 0, 0, 0], []⟩ (fun _ => Element.declared 88)
    (fun _ => .null) rfl
  cases cleaned.released.length_eq

end Main

end Glopen.Srpc
