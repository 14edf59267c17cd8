import Glopen.Srpc.Serialize

/-! `ArgsGet` and `ArgsFree` with the memory that they allocate, inspect and release. -/
namespace Glopen.Srpc

open Wire

inductive ArgPtr where
  | null
  | own (i : Nat)
  | callers (object i : Nat)
deriving DecidableEq

def ArgPtr.add : ArgPtr → Nat → ArgPtr
  | null, _ => null
  | own j, i => own (j + i)
  | callers object j, i => callers object (j + i)

/-- Blocks of memory, by the number of the allocation for the data of an element. A pointer into the
call's own block but not to its start is no block. -/
inductive Block where
  | args
  | inside (i : Nat)
  | data (n : Nat)
  | callers (object : Nat)
deriving DecidableEq

/-- What `free` gets for a pointer to an element. -/
def ArgPtr.block : ArgPtr → Option Block
  | null => none
  | own 0 => some .args
  | own (i + 1) => some (.inside (i + 1))
  | callers object _ => some (.callers object)

def Arg.known {δ : Type} : Arg δ → Bool
  | .invalid => false
  | _ => true

/-- `NaClSrpcArg`, with the block of its array or string. A type that is not known keeps its tag. -/
structure Element (δ : Type) [Inhabited δ] where
  arg : Arg δ
  unknown : { tag : UInt8 // (Arg.blank tag : Arg δ).known = false }
  data : Option Block

section Elements

variable {δ : Type} [Inhabited δ]

def Element.tag (element : Element δ) : UInt8 :=
  if element.arg.known then element.arg.tag else element.unknown

def Element.declared (tag : UInt8) : Element δ :=
  ⟨Arg.blank tag,
    if unknown : (Arg.blank tag : Arg δ).known = false then ⟨tag, unknown⟩ else ⟨88, rfl⟩, none⟩

/-- The types whose `free` releases memory. -/
def Arg.hasData : Arg δ → Bool
  | .charArray _ | .doubleArray _ | .intArray _ | .string _ => true
  | _ => false

end Elements

/-- `initialized` is the number of elements in the call's own block. -/
structure Heap (δ : Type) [Inhabited δ] where
  buffer : ReceiveBuffer δ
  memory : ArgPtr → Element δ
  argvec : List ArgPtr
  initialized : Nat
  allocated : List Block
  released : List Block
  inspected : List ArgPtr
  overrun : Bool

abbrev HeapGet (δ α : Type) [Inhabited δ] := Heap δ → Heap δ × Option α

section Calls

variable {δ α β : Type} [Inhabited δ]

def HeapGet.andThen (first : HeapGet δ α) (second : α → HeapGet δ β) : HeapGet δ β := fun heap =>
  match first heap with
  | (heap, none) => (heap, none)
  | (heap, some a) => second a heap

def HeapGet.give (a : α) : HeapGet δ α := fun heap => (heap, some a)

def HeapGet.done : HeapGet δ Unit := .give ()

def HeapGet.fail : HeapGet δ α := fun heap => (heap, none)

def HeapGet.read (get : Get δ α) : HeapGet δ α := fun heap =>
  match get heap.buffer with
  | none => (heap, none)
  | some (a, buffer) => ({ heap with buffer := buffer }, some a)

def Heap.write (heap : Heap δ) (ptr : ArgPtr) (element : Element δ) : Heap δ :=
  { heap with memory := fun p => if p = ptr then element else heap.memory p }

def HeapGet.setArg (ptr : ArgPtr) (arg : Arg δ) : HeapGet δ Unit := fun heap =>
  (heap.write ptr { heap.memory ptr with arg := arg }, some ())

def HeapGet.malloc (host : Host) (ptr : ArgPtr) (size : Nat) : HeapGet δ Unit := fun heap =>
  if host.malloc size then
    let block := Block.data heap.allocated.length
    ({ heap.write ptr { heap.memory ptr with data := some block } with
      allocated := heap.allocated ++ [block] }, some ())
  else (heap.write ptr { heap.memory ptr with data := none }, none)

def Heap.setPointer (heap : Heap δ) (i : Nat) (ptr : ArgPtr) : Heap δ :=
  { heap with argvec := heap.argvec.set i ptr }

def Heap.inspect (heap : Heap δ) (ptr : ArgPtr) : Heap δ :=
  { heap with inspected := heap.inspected ++ [ptr] }

def Heap.release (heap : Heap δ) : Option Block → Heap δ
  | none => heap
  | some block => { heap with released := heap.released ++ [block] }

section Get

variable (host : Host) (allocateMemory readValue : Bool)

def arrTargetCall [WireType α] [Inhabited α] (ptr : ArgPtr) (store : CArray α → Arg δ)
    (array : CArray α) (dim : UInt32) : HeapGet δ (CArray α) :=
  if allocateMemory then
    if naclAbiSizeTMax / WireType.size α ≤ dim.toNat then .fail
    else
      (HeapGet.malloc host ptr (dim.toNat * WireType.size α)).andThen fun _ =>
        (HeapGet.setArg ptr (store (CArray.fresh dim))).andThen fun _ => .give (CArray.fresh dim)
  else if array.elems.length < dim.toNat then .fail
  else .give array

/-- `ARRAY_TYPE_IO_DECLARE`, with the memory. -/
def arrGetCall [WireType α] [Inhabited α] (ptr : ArgPtr) (store : CArray α → Arg δ)
    (array : CArray α) : HeapGet δ Unit :=
  (HeapGet.read (readOne UInt32)).andThen fun dim =>
    (arrTargetCall host allocateMemory ptr store array dim).andThen fun target =>
      if readValue then
        (HeapGet.read (naClSrpcImcRead (WireType.size α) dim.toNat)).andThen fun bytes =>
          .setArg ptr (store (target.overwrite (unflat (bytes.length / WireType.size α) bytes)))
      else .done

def stringGetCall (ptr : ArgPtr) : HeapGet δ Unit :=
  if readValue then
    (HeapGet.read (readOne UInt32)).andThen fun dim =>
      if naclAbiSizeTMax ≤ dim.toNat then .fail
      else
        (HeapGet.malloc host ptr (dim.toNat + 1)).andThen fun _ =>
          (HeapGet.read (naClSrpcImcRead 1 dim.toNat)).andThen fun bytes =>
            .setArg ptr (.string (CString.ofBytes bytes))
  else .done

/-- `get` of the interface that `ArgsGetEltInterface` selects. -/
def eltGetCall (ptr : ArgPtr) : HeapGet δ Unit := fun heap =>
  match (heap.memory ptr).arg with
  | .bool bval => (HeapGet.read (boolGet readValue bval)).andThen (fun b => .setArg ptr (.bool b)) heap
  | .charArray caval => arrGetCall host allocateMemory readValue ptr .charArray caval heap
  | .double dval =>
    (HeapGet.read (doubleGet readValue dval)).andThen (fun d => .setArg ptr (.double d)) heap
  | .doubleArray daval => arrGetCall host allocateMemory readValue ptr .doubleArray daval heap
  | .handle hval =>
    (HeapGet.read (handleGet readValue hval)).andThen (fun h => .setArg ptr (.handle h)) heap
  | .int ival => (HeapGet.read (intGet readValue ival)).andThen (fun i => .setArg ptr (.int i)) heap
  | .intArray iaval => arrGetCall host allocateMemory readValue ptr .intArray iaval heap
  | .string _ => stringGetCall host readValue ptr heap
  | .invalid | .object | .variantArray => (heap, none)

end Get

/-- `free` of the interface that `ArgsGetEltInterface` selects. -/
def Heap.freeElement (heap : Heap δ) (ptr : ArgPtr) : Heap δ :=
  let element := heap.memory ptr
  if element.arg.hasData then (heap.release element.data).write ptr { element with data := none }
  else heap

/-- The walk up to the first `NULL`. -/
def freeElements : List ArgPtr → Heap δ → Heap δ
  | [], heap => { heap with overrun := true }
  | .null :: _, heap => heap
  | ptr :: rest, heap => freeElements rest ((heap.inspect ptr).freeElement ptr)

def clearPointers : List ArgPtr → List ArgPtr
  | [] => []
  | .null :: rest => .null :: rest
  | _ :: rest => .null :: clearPointers rest

def argsFree (heap : Heap δ) : Heap δ :=
  let heap := freeElements heap.argvec heap
  let heap := heap.release (heap.argvec.headD .null).block
  { heap with argvec := clearPointers heap.argvec }

variable (size : SizeT) (malloc : Nat → Nat → Bool) (allocateArgs readValues : Bool)

/-- `malloc` answers for the block of the elements, and behind that for each of these. -/
def hostAt (n : Nat) : Host := ⟨size, malloc n⟩

/-- The loop over the elements from `i` on. -/
def getElements (args : ArgPtr) : Nat → Nat → HeapGet δ Unit
  | 0, _ => .done
  | count + 1, i =>
    (HeapGet.read (readOne UInt8)).andThen fun readType heap =>
      let heap := heap.inspect (args.add i)
      if (heap.memory (args.add i)).tag ≠ readType then (heap, none)
      else
        ((eltGetCall (hostAt size malloc (i + 1)) allocateArgs readValues (args.add i)).andThen
          fun _ => getElements args count (i + 1)) (heap.setPointer i (args.add i))

def fillArgs (args : ArgPtr) (length : Nat) : HeapGet δ Unit := fun heap =>
  match getElements size malloc allocateArgs readValues args length 0 heap with
  | (heap, some ()) => (heap.setPointer length .null, some ())
  | (heap, none) => (if args = .null then heap else argsFree heap, none)

def Heap.newArgs (heap : Heap δ) (tags : List UInt8) : Heap δ :=
  { heap with
    allocated := heap.allocated ++ [.args]
    initialized := tags.length
    memory := fun p =>
      match p with
      | .own i => Element.declared (tags.getD i 0)
      | p => heap.memory p }

def argsGetCall (argTypes : CString) : HeapGet δ Unit :=
  (HeapGet.read (readOne UInt32)).andThen fun lenu32 heap =>
    let length := lenu32.toNat
    if naclSrpcMaxArgs ≤ length then (heap, none)
    else if allocateArgs ∧ 0 < length then
      if size.max / size.argSize ≤ length then (heap, none)
      else if !malloc 0 (length * size.argSize) then (heap, none)
      else
        let heap := heap.newArgs (argTypes.bytes.take length)
        if (declaredArgs argTypes.bytes length : Option (List (Arg δ))).isNone then (heap, none)
        else fillArgs size malloc allocateArgs readValues (.own 0) length heap
    else if length ≠ argTypes.bytes.length then (heap, none)
    else fillArgs size malloc allocateArgs readValues (heap.argvec.headD .null) length heap

end Calls

end Glopen.Srpc
