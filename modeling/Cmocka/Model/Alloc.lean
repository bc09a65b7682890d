import Cmocka.Model.State

/-!
# Model — the tracked allocator

`_test_malloc`, `_test_calloc`, `_test_realloc` and `_test_free`, and the leak detector over the
list of allocated blocks.  A call that reaches libc's `malloc` takes libc's answer as an argument
(`none` is `NULL`).  Headers and list nodes are typed cells of the heap, found at the address of
the header; freeing a block takes them out of the heap, so that a later read through a stale
pointer is undefined.  The guard and payload bytes are in `Heap.mem`.

A walk over the list is given the number of allocations so far as a bound on its length.
-/

namespace Cmocka

def mallocGuardSize : Nat := 16
def mallocGuardPattern : BitVec 8 := 0xEF
def mallocAllocPattern : BitVec 8 := 0xBA
def mallocFreePattern : BitVec 8 := 0xCD
def mallocAlignment : Nat := 16

/-- `ALIGN_DOWN`. -/
def alignDown (x a : Nat) : Nat := x - x % a

/-- `memset`. -/
def memset (mem : Addr → BitVec 8) (dst : Addr) (byte : BitVec 8) (n : Nat) : Addr → BitVec 8 :=
  fun a => if dst ≤ a ∧ a < dst + n then byte else mem a

/-- `memcpy`. -/
def memcpy (mem : Addr → BitVec 8) (dst src : Addr) (n : Nat) : Addr → BitVec 8 :=
  fun a => if dst ≤ a ∧ a < dst + n then mem (src + (a - dst)) else mem a

/-! ### Layout of a block -/

/-- `SIZE_MAX + 1`. -/
def Platform.sizeLimit (p : Platform) : Nat := 2 ^ p.sizeBits

/-- `allocate_size` in `_test_malloc`. -/
def Platform.allocateSize (p : Platform) (size : Nat) : Nat :=
  (size + mallocGuardSize * 2 + p.sizeofMallocBlockInfoData + mallocAlignment) % p.sizeLimit

/-- The address `_test_malloc` returns for the region libc returned. -/
def Platform.payload (p : Platform) (block : Addr) : Addr :=
  alignDown (block + mallocGuardSize + p.sizeofMallocBlockInfoData + mallocAlignment)
    mallocAlignment

/-- The header of a payload. -/
def Platform.headerOf (p : Platform) (ptr : Addr) : Addr :=
  ptr - (mallocGuardSize + p.sizeofMallocBlockInfoData)

/-- The payload of a header. -/
def Platform.payloadOf (p : Platform) (info : Addr) : Addr :=
  info + p.sizeofMallocBlockInfoData + mallocGuardSize

/-! ### The list of blocks -/

/-- `get_allocated_blocks_list`: initialise the list at the first use. -/
def Heap.getAllocatedBlocksList (h : Heap) : Heap :=
  match h.nodes .head with
  | some head =>
      if head.value = 0 then
        { h with nodes := ((listInitialize .head h.nodes).modify .head fun n =>
            { n with value := 1 }).getD h.nodes }
      else h
  | none => h

/-- An operation of the heap that may be undefined. -/
def heapOp (f : Heap → Option Heap) : CM Unit := do
  let s ← get
  match f s.globalAllocatedBlocks with
  | some h => set { s with globalAllocatedBlocks := h }
  | none => throw .undefined

/-- The stores of `_test_malloc` into the new region, and `list_add`. -/
def Heap.insertBlock (h : Heap) (p : Platform) (block : Addr) (size : Nat)
    (location : SourceLocation) : Option Heap :=
  let ptr := p.payload block
  let info := p.headerOf ptr
  let mem := memset h.mem (ptr - mallocGuardSize) mallocGuardPattern mallocGuardSize
  let mem := memset mem (ptr + size) mallocGuardPattern mallocGuardSize
  let mem := memset mem ptr mallocAllocPattern size
  let nodes := Function.update h.nodes (.header info)
    (some { value := info, refcount := 0, next := .head, prev := .head })
  (listAdd .head (.header info) nodes).map fun nodes =>
    { h with
      nodes, mem
      info := Function.update h.info info
        (some { block, allocatedSize := p.allocateSize size, size, location
                serial := h.nextSerial })
      nextSerial := h.nextSerial + 1 }

/-- The end of `_test_free`: unlink the node, fill the region and give it back to libc. -/
def Heap.removeBlock (h : Heap) (info : Addr) (data : MallocBlockInfoData) : Option Heap :=
  (listRemove (.header info) h.nodes).map fun nodes =>
    { h with
      nodes := Function.update nodes (.header info) none
      info := Function.update h.info info none
      mem := memset h.mem data.block mallocFreePattern data.allocatedSize }

/-! ### The guards -/

/-- The bytes of the two guards, in the order `_test_free` looks at them. -/
def guardBytes (ptr : Addr) (size : Nat) : List Addr :=
  (List.range mallocGuardSize).map (ptr - mallocGuardSize + ·) ++
    (List.range mallocGuardSize).map (ptr + size + ·)

/-- The first byte whose difference from the pattern, as a `char`, is not zero. -/
def firstCorrupt (mem : Addr → BitVec 8) (ptr : Addr) (size : Nat) : Option Addr :=
  (guardBytes ptr size).find? fun a => mem a - mallocGuardPattern != 0

/-- The report of a corrupt guard. -/
def corruptReport (file : CString) (line : Int) (ptr : Addr) (data : MallocBlockInfoData)
    (byte : Addr) : CString :=
  fmtFileLine file line ++ ": error: Guard block of ".toList ++ fmtP ptr ++ " size=".toList ++
    fmtZu data.size ++ " is corrupt\n".toList ++ fmtLocation data.location ++
    ": note: allocated here at ".toList ++ fmtP byte ++ "\n".toList

/-! ### The allocation functions -/

/-- `_test_malloc`, with libc's answer. -/
def testMalloc (size : Nat) (file : CString) (line : Int) (libc : Option Addr) : CM Addr := do
  modify fun s => { s with globalAllocatedBlocks := s.globalAllocatedBlocks.getAllocatedBlocksList }
  let s ← get
  assertTrue (s.platform.allocateSize size > size) "allocate_size > size".toList 2687
  let block ← assertNonNull libc 2690
  heapOp fun h => h.insertBlock s.platform block size (setSourceLocation file line)
  return s.platform.payload block

/-- `ENOMEM`. -/
def enomem : Int := 12

/-- `_test_calloc`; a return value of `0` is `NULL`. -/
def testCalloc (numberOfElements size : Nat) (file : CString) (line : Int) (libc : Option Addr) :
    CM Addr := do
  let s ← get
  if size > 0 ∧ numberOfElements > (s.platform.sizeLimit - 1) / size then do
    modify fun s => { s with globalAllocatedBlocks :=
      { s.globalAllocatedBlocks with errno := enomem } }
    return 0
  else do
    let total := numberOfElements * size % s.platform.sizeLimit
    let ptr ← testMalloc total file line libc
    modify fun s => { s with globalAllocatedBlocks :=
      { s.globalAllocatedBlocks with mem := memset s.globalAllocatedBlocks.mem ptr 0 total } }
    return ptr

/-- `_test_free`. -/
def testFree (ptr : Addr) (file : CString) (line : Int) : CM Unit := do
  if ptr = 0 then return
  let s ← get
  let info := s.platform.headerOf ptr
  match s.globalAllocatedBlocks.info info with
  | none => throw .undefined
  | some data =>
      match firstCorrupt s.globalAllocatedBlocks.mem ptr data.size with
      | some byte => do
          cmockaPrintError (corruptReport file line ptr data byte)
          fail file line
      | none => heapOp fun h => h.removeBlock info data

/-- `_test_realloc`. -/
def testRealloc (ptr : Addr) (size : Nat) (file : CString) (line : Int) (libc : Option Addr) :
    CM Addr := do
  if ptr = 0 then testMalloc size file line libc
  else if size = 0 then do
    testFree ptr file line
    return 0
  else do
    let newBlock ← testMalloc size file line libc
    let s ← get
    match s.globalAllocatedBlocks.info (s.platform.headerOf ptr) with
    | none => throw .undefined
    | some data => do
        let blockSize := if data.size < size then data.size else size
        set { s with globalAllocatedBlocks :=
          { s.globalAllocatedBlocks with
            mem := memcpy s.globalAllocatedBlocks.mem newBlock ptr blockSize } }
        testFree ptr file line
        return newBlock

/-! ### The leak detector -/

/-- `check_point_allocated_blocks`. -/
def checkPointAllocatedBlocks : CM BlockNode := do
  modify fun s => { s with globalAllocatedBlocks := s.globalAllocatedBlocks.getAllocatedBlocksList }
  let s ← get
  match s.globalAllocatedBlocks.nodes .head with
  | some head => return head.prev
  | none => throw .undefined

/-- The note on one block of `display_allocated_blocks`. -/
def blockNote (data : MallocBlockInfoData) : CString :=
  fmtLocation data.location ++ ": note: block ".toList ++ fmtP data.block ++
    " allocated here\n".toList

/-- The loop of `display_allocated_blocks`, from `node` to the head. -/
def displayLoop : (bound : Nat) → BlockNode → (allocatedBlocks : Nat) → CM Nat
  | 0, _, _ => throw .undefined
  | bound + 1, node, allocatedBlocks =>
      if node = .head then return allocatedBlocks
      else do
        let s ← get
        match s.globalAllocatedBlocks.nodes node with
        | none => throw .undefined
        | some cell =>
            match s.globalAllocatedBlocks.info cell.value with
            | none => throw .undefined
            | some data => do
                if allocatedBlocks = 0 then cmockaPrintError "Blocks allocated...\n".toList
                cmockaPrintError (blockNote data)
                displayLoop bound cell.next (allocatedBlocks + 1)

/-- `display_allocated_blocks`. -/
def displayAllocatedBlocks (checkPoint : BlockNode) : CM Nat := do
  modify fun s => { s with globalAllocatedBlocks := s.globalAllocatedBlocks.getAllocatedBlocksList }
  let s ← get
  match s.globalAllocatedBlocks.nodes checkPoint with
  | none => throw .undefined
  | some cell => displayLoop (s.globalAllocatedBlocks.nextSerial + 1) cell.next 0

/-- The loop of `free_allocated_blocks`, from `node` to the head. -/
def freeLoop : (bound : Nat) → BlockNode → CM Unit
  | 0, _ => throw .undefined
  | bound + 1, node =>
      if node = .head then return ()
      else do
        let s ← get
        match s.globalAllocatedBlocks.nodes node with
        | none => throw .undefined
        | some cell => do
            testFree (s.platform.payloadOf cell.value) cmockaFile 2870
            freeLoop bound cell.next

/-- `free_allocated_blocks`. -/
def freeAllocatedBlocks (checkPoint : BlockNode) : CM Unit := do
  let s ← get
  match s.globalAllocatedBlocks.nodes checkPoint with
  | none => throw .undefined
  | some cell => freeLoop (s.globalAllocatedBlocks.nextSerial + 1) cell.next

/-- `fail_if_blocks_allocated`. -/
def failIfBlocksAllocated (checkPoint : BlockNode) (testName : CString) : CM Unit := do
  let allocatedBlocks ← displayAllocatedBlocks checkPoint
  if allocatedBlocks > 0 then do
    freeAllocatedBlocks checkPoint
    cmockaPrintError ("ERROR: ".toList ++ testName ++ " leaked ".toList ++ fmtZu allocatedBlocks ++
      " block(s)\n".toList)
    exitTest .fail true

end Cmocka
