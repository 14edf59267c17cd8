import Mathlib.Algebra.Group.Int.Defs
import Glopen.Lib.Linked

/-! The LRU lists of rankings.cc, with the stores that reach the files in program order. -/
namespace Glopen.Cache

open Linked

abbrev CacheAddr := UInt32

def CacheAddr.isInitialized (addr : CacheAddr) : Bool := addr &&& 0x80000000 ≠ 0

def CacheAddr.isSeparateFile (addr : CacheAddr) : Bool := addr &&& 0x70000000 = 0

inductive RankList
  | noUse | lowUse | highUse | reserved | deleted
deriving DecidableEq

def RankList.all : List RankList := [noUse, lowUse, highUse, reserved, deleted]

structure RankingsNode where
  lastUsed : UInt64
  lastModified : UInt64
  next : CacheAddr
  prev : CacheAddr
  contents : CacheAddr
  dirty : Int
  dummy : Int
deriving DecidableEq

inductive Operation
  | none | insert | remove
deriving DecidableEq

structure LruData where
  sizes : RankList → Int
  heads : RankList → CacheAddr
  tails : RankList → CacheAddr
  transaction : CacheAddr
  operation : Operation
  operationList : RankList

structure Disk where
  control : LruData
  node : CacheAddr → RankingsNode

inductive Store
  | head (list : RankList) (addr : CacheAddr)
  | tail (list : RankList) (addr : CacheAddr)
  | size (list : RankList) (count : Int)
  | operation (op : Operation)
  | operationList (list : RankList)
  | transaction (addr : CacheAddr)
  | node (addr : CacheAddr) (data : RankingsNode)

def Store.apply (disk : Disk) : Store → Disk
  | head list addr =>
    { disk with control.heads := fun l => if l = list then addr else disk.control.heads l }
  | tail list addr =>
    { disk with control.tails := fun l => if l = list then addr else disk.control.tails l }
  | size list count =>
    { disk with control.sizes := fun l => if l = list then count else disk.control.sizes l }
  | operation op => { disk with control.operation := op }
  | operationList list => { disk with control.operationList := list }
  | transaction addr => { disk with control.transaction := addr }
  | node addr data => { disk with node := fun a => if a = addr then data else disk.node a }

structure Iterator where
  block : Nat
  address : CacheAddr
  data : Option RankingsNode
deriving DecidableEq

/-- `openEntries` has the rankings data of the entries that are open, by the address of the node.
`written` are the stores since the object was made. -/
structure Rankings where
  disk : Disk
  written : List Store
  heads : RankList → CacheAddr
  tails : RankList → CacheAddr
  openEntries : CacheAddr → Option RankingsNode
  iterators : List Iterator
  nextBlock : Nat
  countLists : Bool
  currentEntryId : Int
  criticalError : Bool

def Rankings.persist (rankings : Rankings) (store : Store) : Rankings :=
  { rankings with disk := store.apply rankings.disk, written := rankings.written ++ [store] }

inductive Buffer
  | own (data : RankingsNode)
  | shared
deriving DecidableEq

/-- A `CacheRankingsBlock`. Where it does not own its data these are those of an open entry. -/
structure Block where
  address : CacheAddr
  buffer : Buffer
deriving DecidableEq

def Block.data (rankings : Rankings) (block : Block) : RankingsNode :=
  match block.buffer with
  | .own data => data
  | .shared => (rankings.openEntries block.address).getD (rankings.disk.node block.address)

def Block.write (block : Block) (data : RankingsNode) (rankings : Rankings) : Rankings × Block :=
  match block.buffer with
  | .own _ => (rankings, { block with buffer := .own data })
  | .shared =>
    ({ rankings with
      openEntries := fun a => if a = block.address then some data else rankings.openEntries a }, block)

def Block.store (block : Block) (rankings : Rankings) : Rankings :=
  rankings.persist (.node block.address (block.data rankings))

def Block.load (address : CacheAddr) (rankings : Rankings) : Block :=
  ⟨address, .own (rankings.disk.node address)⟩

def Rankings.isHead (rankings : Rankings) (addr : CacheAddr) : Bool :=
  RankList.all.any fun list => addr = rankings.heads list

def Rankings.isTail (rankings : Rankings) (addr : CacheAddr) : Bool :=
  RankList.all.any fun list => addr = rankings.tails list

def Rankings.sanityCheck (rankings : Rankings) (address : CacheAddr) (data : RankingsNode)
    (fromList : Bool) : Bool :=
  if data.contents = 0 then false
  else if fromList && (data.lastUsed = 0 || data.lastModified = 0) then false
  else if (data.next = 0 && data.prev ≠ 0) || (data.next ≠ 0 && data.prev = 0) then false
  else if data.next = 0 && data.prev = 0 && fromList then false
  else if address = data.prev && !rankings.isHead data.prev then false
  else if address = data.next && !rankings.isTail data.next then false
  else true

def Rankings.getRanking (rankings : Rankings) (address : CacheAddr) : Rankings × Option Block :=
  if !address.isInitialized then (rankings, none)
  else
    let data := rankings.disk.node address
    if !rankings.sanityCheck address data true then ({ rankings with criticalError := true }, none)
    else if data.dirty = 0 && data.dummy = 0 then (rankings, some ⟨address, .own data⟩)
    else if rankings.currentEntryId ≠ data.dirty || (rankings.openEntries address).isNone then
      let dirty := rankings.currentEntryId - 1
      (rankings, some ⟨address, .own { data with
        dummy := 0
        dirty := if dirty = 0 then dirty - 1 else dirty }⟩)
    else (rankings, some ⟨address, .shared⟩)

def Rankings.updateIterators (rankings : Rankings) (node : Block) : Rankings :=
  { rankings with iterators := rankings.iterators.map fun it =>
      if it.address = node.address ∧ it.data.isSome then { it with data := node.data rankings }
      else it }

def Rankings.invalidateIterators (rankings : Rankings) (address : CacheAddr) : Rankings :=
  { rankings with iterators := rankings.iterators.map fun it =>
      if it.address = address then { it with data := none } else it }

def Rankings.beginTransaction (rankings : Rankings) (addr : CacheAddr) (op : Operation)
    (list : RankList) : Rankings :=
  ((rankings.persist (.operation op)).persist (.operationList list)).persist (.transaction addr)

def Rankings.endTransaction (rankings : Rankings) : Rankings :=
  ((rankings.persist (.transaction 0)).persist (.operation .none)).persist (.operationList .noUse)

def Rankings.setHead (rankings : Rankings) (list : RankList) (addr : CacheAddr) : Rankings :=
  { rankings with heads := fun l => if l = list then addr else rankings.heads l }

def Rankings.setTail (rankings : Rankings) (list : RankList) (addr : CacheAddr) : Rankings :=
  { rankings with tails := fun l => if l = list then addr else rankings.tails l }

def Rankings.writeHead (rankings : Rankings) (list : RankList) : Rankings :=
  rankings.persist (.head list (rankings.heads list))

def Rankings.writeTail (rankings : Rankings) (list : RankList) : Rankings :=
  rankings.persist (.tail list (rankings.tails list))

def maxSize : Int := 2 ^ 31 - 1

def Rankings.incrementCounter (rankings : Rankings) (list : RankList) : Rankings :=
  if !rankings.countLists then rankings
  else if rankings.disk.control.sizes list < maxSize then
    rankings.persist (.size list (rankings.disk.control.sizes list + 1))
  else rankings

def Rankings.decrementCounter (rankings : Rankings) (list : RankList) : Rankings :=
  if !rankings.countLists then rankings
  else if 0 < rankings.disk.control.sizes list then
    rankings.persist (.size list (rankings.disk.control.sizes list - 1))
  else rankings

def Rankings.linkHead (rankings : Rankings) (address : CacheAddr) (list : RankList) : Option Rankings :=
  match rankings.getRanking (rankings.heads list) with
  | (_, none) => none
  | (rankings, some head) =>
    if (head.data rankings).prev ≠ rankings.heads list ∧ (head.data rankings).prev ≠ address then none
    else
      let (rankings, head) :=
        head.write { head.data rankings with prev := address } rankings
      some ((head.store rankings).updateIterators head)

/-- `Insert` behind the links of the old head. -/
def Rankings.insertNode (node : Block) (modified : Bool) (list : RankList) (now : UInt64)
    (rankings : Rankings) : Rankings × Block :=
  let next := rankings.heads list
  let rankings := rankings.setHead list node.address
  let (rankings, next) :=
    if !(rankings.tails list).isInitialized || rankings.tails list = node.address then
      ((rankings.setTail list node.address).writeTail list, node.address)
    else (rankings, next)
  let data := node.data rankings
  let (rankings, node) := node.write { data with
    next := next
    prev := node.address
    lastUsed := now
    lastModified := if modified then now else data.lastModified } rankings
  ((((node.store rankings).writeHead list).incrementCounter list), node)

def Rankings.insert (node : Block) (modified : Bool) (list : RankList) (now : UInt64)
    (rankings : Rankings) : Rankings × Block :=
  let rankings := rankings.beginTransaction node.address .insert list
  if (rankings.heads list).isInitialized then
    match rankings.linkHead node.address list with
    | none => ({ rankings.endTransaction with criticalError := true }, node)
    | some rankings =>
      let (rankings, node) := rankings.insertNode node modified list now
      (rankings.endTransaction, node)
  else
    let (rankings, node) := rankings.insertNode node modified list now
    (rankings.endTransaction, node)

def Rankings.checkLinks (rankings : Rankings) (address : CacheAddr) (prev next : Block)
    (list : RankList) : Bool :=
  !(((prev.data rankings).next ≠ address && rankings.heads list ≠ address) ||
    ((next.data rankings).prev ≠ address && rankings.tails list ≠ address))

/-- `CheckLinks` for a node that is not linked in the list. -/
def Rankings.notLinked (node prev next : Block) (rankings : Rankings) : Rankings × Block :=
  if (prev.data rankings).next = next.address ∧ (next.data rankings).prev = prev.address then
    let (rankings, node) := node.write { node.data rankings with next := 0, prev := 0 } rankings
    (node.store rankings, node)
  else ({ rankings with criticalError := true }, node)

def Rankings.removeEnd (address : CacheAddr) (prev next : Block) (list : RankList)
    (rankings : Rankings) : Rankings × Block × Block :=
  if address = rankings.heads list ∨ address = rankings.tails list then
    if rankings.heads list = rankings.tails list then
      let rankings := (rankings.setHead list 0).setTail list 0
      ((rankings.writeHead list).writeTail list, prev, next)
    else if address = rankings.heads list then
      let rankings := rankings.setHead list next.address
      let (rankings, next) := next.write { next.data rankings with prev := next.address } rankings
      (rankings.writeHead list, prev, next)
    else
      let rankings := rankings.setTail list prev.address
      let (rankings, prev) := prev.write { prev.data rankings with next := prev.address } rankings
      (prev.store (rankings.writeTail list), prev, next)
  else (rankings, prev, next)

/-- `Remove` inside its transaction. -/
def Rankings.removeNode (node prev next : Block) (list : RankList) (rankings : Rankings) :
    Rankings × Block :=
  let (rankings, prev) := prev.write { prev.data rankings with next := next.address } rankings
  let (rankings, next) := next.write { next.data rankings with prev := prev.address } rankings
  let (rankings, prev, next) := rankings.removeEnd node.address prev next list
  let (rankings, node) := node.write { node.data rankings with next := 0, prev := 0 } rankings
  let rankings := node.store (prev.store (next.store rankings))
  let rankings := rankings.decrementCounter list
  ((rankings.updateIterators next).updateIterators prev, node)

def Rankings.remove (node : Block) (list : RankList) (rankings : Rankings) : Rankings × Block :=
  let rankings := rankings.invalidateIterators node.address
  let nextAddr := (node.data rankings).next
  let prevAddr := (node.data rankings).prev
  if !nextAddr.isInitialized || nextAddr.isSeparateFile || !prevAddr.isInitialized ||
      prevAddr.isSeparateFile then (rankings, node)
  else
    match rankings.getRanking nextAddr with
    | (rankings, none) => (rankings, node)
    | (rankings, some next) =>
      match rankings.getRanking prevAddr with
      | (rankings, none) => (rankings, node)
      | (rankings, some prev) =>
        if !rankings.checkLinks node.address prev next list then rankings.notLinked node prev next
        else
          let rankings := rankings.beginTransaction node.address .remove list
          let (rankings, node) := rankings.removeNode node prev next list
          (rankings.endTransaction, node)

def Rankings.updateRank (node : Block) (modified : Bool) (list : RankList) (now : UInt64)
    (rankings : Rankings) : Rankings × Block :=
  let (rankings, node) := rankings.remove node list
  rankings.insert node modified list now

def Rankings.finishInsert (node : Block) (now : UInt64) (rankings : Rankings) : Rankings :=
  let rankings := (rankings.persist (.transaction 0)).persist (.operation .none)
  let list := rankings.disk.control.operationList
  if rankings.heads list ≠ node.address then
    let (rankings, node) :=
      if rankings.tails list = node.address then
        node.write { node.data rankings with next := rankings.tails list } rankings
      else (rankings, node)
    (rankings.insert node true list now).1
  else rankings

def Rankings.revertEnds (address : CacheAddr) (prev next : Block) (list : RankList)
    (rankings : Rankings) : Rankings × Block × Block :=
  if !(rankings.heads list).isInitialized || !(rankings.tails list).isInitialized then
    let rankings := (rankings.setHead list address).setTail list address
    ((rankings.writeHead list).writeTail list, prev, next)
  else if rankings.heads list = next.address then
    let rankings := rankings.setHead list address
    let (rankings, prev) := prev.write { prev.data rankings with next := next.address } rankings
    (rankings.writeHead list, prev, next)
  else if rankings.tails list = prev.address then
    let rankings := rankings.setTail list address
    let (rankings, next) := next.write { next.data rankings with prev := prev.address } rankings
    (rankings.writeTail list, prev, next)
  else (rankings, prev, next)

def Rankings.revertRemove (node : Block) (rankings : Rankings) : Rankings :=
  let nextAddr := (node.data rankings).next
  let prevAddr := (node.data rankings).prev
  if !nextAddr.isInitialized || !prevAddr.isInitialized then rankings.persist (.transaction 0)
  else if nextAddr.isSeparateFile || prevAddr.isSeparateFile then rankings.persist (.transaction 0)
  else
    let next := Block.load nextAddr rankings
    let prev := Block.load prevAddr rankings
    let (rankings, prev) :=
      if node.address ≠ prevAddr then
        prev.write { prev.data rankings with next := node.address } rankings
      else (rankings, prev)
    let (rankings, next) :=
      if node.address ≠ nextAddr then
        next.write { next.data rankings with prev := node.address } rankings
      else (rankings, next)
    let (rankings, prev, next) :=
      rankings.revertEnds node.address prev next rankings.disk.control.operationList
    let rankings := prev.store (next.store rankings)
    (rankings.persist (.transaction 0)).persist (.operation .none)

def Rankings.completeTransaction (now : UInt64) (rankings : Rankings) : Rankings :=
  let nodeAddr := rankings.disk.control.transaction
  if !nodeAddr.isInitialized || nodeAddr.isSeparateFile then rankings
  else
    let node := Block.load nodeAddr rankings
    let (rankings, node) := node.write { node.data rankings with dummy := 0 } rankings
    let rankings := node.store rankings
    match rankings.disk.control.operation with
    | .insert => rankings.finishInsert node now
    | .remove => rankings.revertRemove node
    | .none => rankings

def Rankings.new (disk : Disk) (countLists : Bool) (currentEntryId : Int) : Rankings :=
  ⟨disk, [], disk.control.heads, disk.control.tails, fun _ => none, [], 0, countLists,
    currentEntryId, false⟩

def Rankings.init (disk : Disk) (countLists : Bool) (currentEntryId : Int) (now : UInt64) : Rankings :=
  let rankings := Rankings.new disk countLists currentEntryId
  if disk.control.transaction ≠ 0 then rankings.completeTransaction now else rankings

def Rankings.loaded (rankings : Rankings) (it : Iterator) : Rankings × RankingsNode :=
  match it.data with
  | some data => (rankings, data)
  | none =>
    let data := rankings.disk.node it.address
    ({ rankings with iterators := rankings.iterators.map fun other =>
        if other.block = it.block then { other with data := data } else other }, data)

def Rankings.follow (rankings : Rankings) (address : CacheAddr) (linked : RankingsNode → Bool) :
    Rankings × Option Iterator :=
  match rankings.getRanking address with
  | (rankings, none) => (rankings, none)
  | (rankings, some block) =>
    let it : Iterator := ⟨rankings.nextBlock, address, some (block.data rankings)⟩
    if !linked (block.data rankings) then ({ rankings with criticalError := true }, none)
    else
      ({ rankings with
        iterators := rankings.iterators ++ [it]
        nextBlock := rankings.nextBlock + 1 }, some it)

def Rankings.getNext (node : Option Iterator) (list : RankList) (rankings : Rankings) :
    Rankings × Option Iterator :=
  match node with
  | none =>
    if !(rankings.heads list).isInitialized then (rankings, none)
    else rankings.follow (rankings.heads list) fun _ => true
  | some node =>
    let (rankings, data) := rankings.loaded node
    if !(rankings.tails list).isInitialized then (rankings, none)
    else if rankings.tails list = node.address then (rankings, none)
    else if data.next = node.address then (rankings, none)
    else rankings.follow data.next fun next => next.prev = node.address

def Rankings.getPrev (node : Option Iterator) (list : RankList) (rankings : Rankings) :
    Rankings × Option Iterator :=
  match node with
  | none =>
    if !(rankings.tails list).isInitialized then (rankings, none)
    else rankings.follow (rankings.tails list) fun _ => true
  | some node =>
    let (rankings, data) := rankings.loaded node
    if !(rankings.heads list).isInitialized then (rankings, none)
    else if rankings.heads list = node.address then (rankings, none)
    else if data.prev = node.address then (rankings, none)
    else rankings.follow data.prev fun prev => prev.next = node.address

def Rankings.freeRankingsBlock (node : Iterator) (rankings : Rankings) : Rankings :=
  { rankings with iterators := rankings.iterators.filter fun it => it.block ≠ node.block }

end Glopen.Cache
