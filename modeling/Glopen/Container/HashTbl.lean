import Glopen.Lib.Probing

/-! The hash table of generic_container/container.c. -/
namespace Glopen.Container

open Probing

/-- `OrderCmp` returns zero for equal objects, and equal objects have one hash. -/
structure HashFunctor (α : Type) where
  orderCmp : α → α → Int
  hash : α → Nat
  hash_eq : ∀ datum key, orderCmp datum key = 0 → hash datum = hash key

inductive Slot (α : Type) where
  | unused
  | used (datum : α)
  | deleted
deriving DecidableEq

def Slot.datum? {α : Type} : Slot α → Option α
  | .used datum => some datum
  | _ => none

def Slot.isUnused {α : Type} : Slot α → Bool
  | .unused => true
  | _ => false

structure HashTbl (α : Type) where
  bucket : List (Slot α)
  numEntries : Nat

def hashTableLoadFactor : Nat := 2
def hashTableStride : Nat := 17
def hashTableMinBuckets : Nat := 32

namespace HashTbl

variable {α : Type}

def numBuckets (t : HashTbl α) : Nat := t.bucket.length

def live (t : HashTbl α) : List α := t.bucket.filterMap Slot.datum?

def slotIs (t : HashTbl α) (p : Slot α → Bool) (idx : Nat) : Bool := t.bucket[idx]?.any p

end HashTbl

section Table

variable {α : Type} (f : HashFunctor α)

def naClContainerHashTblMakeBucket (size : Nat) : HashTbl α := ⟨List.replicate size .unused, 0⟩

def naClContainerHashTblCtor (calloc : Nat → Bool) (numBuckets : Nat) : Option (HashTbl α) :=
  let numBuckets := numBuckets % 2 ^ 32
  let numBuckets := if numBuckets < hashTableMinBuckets then hashTableMinBuckets else numBuckets
  let numBuckets :=
    if numBuckets % hashTableStride = 0 then (numBuckets + 1) % 2 ^ 32 else numBuckets
  if calloc numBuckets then some (naClContainerHashTblMakeBucket numBuckets) else none

/-- Doubles the table when it is half full. The entries move with the table's own `insert`. -/
def naClContainerHashTblCheckLoad (insert : HashTbl α → α → Option (HashTbl α × Bool))
    (calloc : Nat → Bool) (t : HashTbl α) : Option (HashTbl α × Bool) :=
  if hashTableLoadFactor * t.numEntries % 2 ^ 32 < t.numBuckets then some (t, true)
  else
    let newSize := 2 * t.numBuckets % 2 ^ 32
    if newSize < t.numBuckets then some (t, false)
    else if !calloc newSize then some (t, false)
    else (t.live.foldlM (fun t datum => (insert t datum).map Prod.fst)
      (naClContainerHashTblMakeBucket newSize)).map fun t => (t, true)

def hashNext (modulus : Nat) : Nat → Nat := stride modulus hashTableStride

/-- A missing result is a search that has not ended within `fuel` places. -/
def naClContainerHashTblInsert (calloc : Nat → Bool) : Nat → HashTbl α → α → Option (HashTbl α × Bool)
  | 0, _, _ => none
  | fuel + 1, t, obj =>
    (firstStop (t.slotIs fun slot => slot.datum?.isNone) (hashNext t.numBuckets) (fuel + 1)
      (f.hash obj % t.numBuckets)).bind fun idx =>
        naClContainerHashTblCheckLoad (naClContainerHashTblInsert calloc fuel) calloc
          ⟨t.bucket.set idx (.used obj), t.numEntries + 1⟩

/-- Where `Find` stops: at a bucket that was never used or at an equal entry. -/
def endsFind (key : α) : Slot α → Bool
  | .unused => true
  | .used datum => f.orderCmp datum key = 0
  | .deleted => false

def naClContainerHashTblFind (fuel : Nat) (t : HashTbl α) (key : α) : Option Nat :=
  (firstStop (t.slotIs (endsFind f key)) (hashNext t.numBuckets) fuel
    (f.hash key % t.numBuckets)).map fun idx =>
      if t.slotIs Slot.isUnused idx then t.numBuckets else idx

def naClContainerHashTblIterAtEnd (t : HashTbl α) (idx : Nat) : Bool := t.numBuckets ≤ idx

def naClContainerHashTblIterStar (t : HashTbl α) (idx : Nat) : Option α :=
  t.bucket[idx]?.bind Slot.datum?

def bury (t : HashTbl α) (idx : Nat) : HashTbl α where
  bucket := t.bucket.set idx .deleted
  numEntries :=
    if (naClContainerHashTblIterStar t idx).isSome then t.numEntries - 1 else t.numEntries

/-- The next used bucket behind `idx`, or the end. -/
def naClContainerHashTblIterIncr (t : HashTbl α) (idx : Nat) : Nat :=
  let behind := (t.bucket.drop (idx + 1)).findIdx fun slot => slot.datum?.isSome
  idx + 1 + behind

def naClContainerHashTblIterErase (t : HashTbl α) (idx : Nat) : HashTbl α × Nat :=
  let erased := bury t idx
  (erased, naClContainerHashTblIterIncr erased idx)

def naClContainerHashTblIterExtract (t : HashTbl α) (idx : Nat) : HashTbl α × Option α × Nat :=
  let extracted := bury t idx
  (extracted, naClContainerHashTblIterStar t idx, naClContainerHashTblIterIncr extracted idx)

/-- What clients do with a table: removals by key find the entry first, removals at an iterator
of any origin need one that is not at its end. -/
inductive Op (α : Type) where
  | insert (obj : α) (calloc : Nat → Bool)
  | find (key : α)
  | extract (key : α)
  | erase (key : α)
  | extractAt (idx : Nat)
  | eraseAt (idx : Nat)

inductive Reply (α : Type) where
  | inserted (success : Bool)
  | entry (datum : α)
  | nothing

def Reply.ofOption : Option α → Reply α
  | some datum => .entry datum
  | none => .nothing

def eraseAt (t : HashTbl α) (idx : Nat) : HashTbl α × Reply α :=
  if naClContainerHashTblIterAtEnd t idx then (t, .nothing)
  else ((naClContainerHashTblIterErase t idx).1, .ofOption (naClContainerHashTblIterStar t idx))

def extractAt (t : HashTbl α) (idx : Nat) : HashTbl α × Reply α :=
  if naClContainerHashTblIterAtEnd t idx then (t, .nothing)
  else
    let (t, datum, _) := naClContainerHashTblIterExtract t idx
    (t, .ofOption datum)

def step (fuel : Nat) (t : HashTbl α) : Op α → Option (HashTbl α × Reply α)
  | .insert obj calloc => (naClContainerHashTblInsert f calloc fuel t obj).map fun (t, success) =>
      (t, .inserted success)
  | .find key => (naClContainerHashTblFind f fuel t key).map fun idx =>
      (t, .ofOption (naClContainerHashTblIterStar t idx))
  | .extract key => (naClContainerHashTblFind f fuel t key).map (extractAt t)
  | .erase key => (naClContainerHashTblFind f fuel t key).map (eraseAt t)
  | .extractAt idx => some (extractAt t idx)
  | .eraseAt idx => some (eraseAt t idx)

def runOps (fuel : Nat) : List (Op α) → HashTbl α → Option (HashTbl α × List (Reply α))
  | [], t => some (t, [])
  | op :: rest, t => do
    let (t, reply) ← step f fuel t op
    let (t, replies) ← runOps fuel rest t
    return (t, reply :: replies)

end Table

end Glopen.Container
