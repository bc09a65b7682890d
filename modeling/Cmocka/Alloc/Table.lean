import Mathlib.Data.Set.Lattice
import Mathlib.Order.CompletePartialOrder
import Mathlib.Order.Interval.Set.Basic
import Cmocka.Alloc.Links
import Cmocka.Model.Alloc

/-!
# Alloc — the table of live blocks

What the tracked allocator is for: a table of the live blocks in the order of their (re)allocation,
each with the bytes of its payload.  `BlockTable.step` says what a call answers and does to the
table; `BlockTable.Allows` says which calls a program may make, and what libc's `malloc` may return.

`Represents` relates the memory of the allocator to a table: the list of blocks runs through the
headers of the live blocks, in order, and each block has its header, its payload and its two guards
where they belong.
-/

namespace Cmocka

open Ring NodeHeap

/-! ### Bytes in memory -/

/-- The `n` bytes from `a` on. -/
def readBytes (mem : Nat → BitVec 8) (a n : Nat) : List (BitVec 8) :=
  (List.range n).map fun i => mem (a + i)

@[simp] theorem length_readBytes (mem : Nat → BitVec 8) (a n : Nat) :
    (readBytes mem a n).length = n := by
  simp [readBytes]

/-- Bytes that are the same are read as the same. -/
theorem readBytes_congr {mem mem' : Nat → BitVec 8} {a a' n : Nat}
    (h : ∀ i < n, mem' (a' + i) = mem (a + i)) : readBytes mem' a' n = readBytes mem a n :=
  List.map_congr_left fun i hi => h i (List.mem_range.mp hi)

/-- Reading on. -/
theorem readBytes_add (mem : Nat → BitVec 8) (a m n : Nat) :
    readBytes mem a (m + n) = readBytes mem a m ++ readBytes mem (a + m) n := by
  simp [readBytes, List.range_add, Nat.add_assoc]

theorem readBytes_eq_replicate {mem : Nat → BitVec 8} {a n : Nat} {byte : BitVec 8} :
    readBytes mem a n = List.replicate n byte ↔ ∀ i < n, mem (a + i) = byte := by
  simp [readBytes, List.eq_replicate_iff]

/-! ### Layout of a block -/

/-- `allocate_size` before it wraps around. -/
def Platform.regionSize (p : Platform) (size : Nat) : Nat :=
  size + mallocGuardSize * 2 + p.sizeofMallocBlockInfoData + mallocAlignment

/-- A block of that size can be asked for. -/
def Platform.Fits (p : Platform) (size : Nat) : Prop := p.regionSize size < p.sizeLimit

instance (p : Platform) (size : Nat) : Decidable (p.Fits size) := Nat.decLt _ _

/-- A block without payload can be asked for. -/
def Platform.Sized (p : Platform) : Prop := p.regionSize 0 ≤ p.sizeLimit

instance (p : Platform) : Decidable p.Sized := Nat.decLe _ _

/-- `allocate_size > size` is true exactly if the size does not wrap around. -/
theorem Platform.allocateSize_gt_iff {p : Platform} (hp : p.Sized) {size : Nat}
    (hsize : size < p.sizeLimit) : p.allocateSize size > size ↔ p.Fits size := by
  change p.regionSize size % p.sizeLimit > size ↔ p.regionSize size < p.sizeLimit
  constructor
  · intro hgt
    by_contra hle
    have hsum : p.regionSize size = size + p.regionSize 0 := by
      simp only [regionSize]
      omega
    have hwrap : p.regionSize size % p.sizeLimit = p.regionSize size - p.sizeLimit := by
      rw [Nat.mod_eq_sub_mod (Nat.le_of_not_lt hle), Nat.mod_eq_of_lt]
      unfold Sized at hp
      omega
    unfold Sized at hp
    omega
  · intro hlt
    rw [Nat.mod_eq_of_lt hlt]
    simp only [regionSize, mallocGuardSize, mallocAlignment]
    omega

theorem Platform.allocateSize_eq {p : Platform} {size : Nat} (h : p.Fits size) :
    p.allocateSize size = p.regionSize size := Nat.mod_eq_of_lt h

/-- The rounding leaves at least one byte and at most sixteen before the header. -/
theorem Platform.payload_eq (p : Platform) (block : Nat) :
    ∃ slack, 0 < slack ∧ slack ≤ mallocAlignment ∧
      block + slack + mallocGuardSize + p.sizeofMallocBlockInfoData = p.payload block := by
  have hlt := Nat.mod_lt (block + mallocGuardSize + p.sizeofMallocBlockInfoData + mallocAlignment)
    (show 0 < mallocAlignment by decide)
  refine ⟨mallocAlignment - (block + mallocGuardSize + p.sizeofMallocBlockInfoData +
    mallocAlignment) % mallocAlignment, by omega, by omega, ?_⟩
  rw [payload, alignDown]
  omega

/-! ### The table -/

/-- A live block: the region libc returned, where and as which allocation it was made, and the
payload. -/
structure LiveBlock where
  block : Nat
  location : SourceLocation
  serial : Nat
  bytes : List (BitVec 8)

/-- The address the program has for a block. -/
def LiveBlock.ptr (p : Platform) (b : LiveBlock) : Nat := p.payload b.block

/-- Where the header of a block lies. -/
def LiveBlock.info (p : Platform) (b : LiveBlock) : Nat := p.headerOf (b.ptr p)

/-- The addresses of the region of a block. -/
def LiveBlock.region (p : Platform) (b : LiveBlock) : Set Nat :=
  Set.Ico b.block (b.block + p.regionSize b.bytes.length)

/-- Header, front guard, payload and rear guard follow each other inside the region. -/
theorem LiveBlock.layout (p : Platform) (b : LiveBlock) :
    b.block < b.info p ∧ b.info p + p.sizeofMallocBlockInfoData + mallocGuardSize = b.ptr p ∧
    b.ptr p + b.bytes.length + mallocGuardSize ≤ b.block + p.regionSize b.bytes.length := by
  obtain ⟨slack, hpos, hle, hptr⟩ := p.payload_eq b.block
  simp only [info, ptr, Platform.headerOf, ← hptr, Platform.regionSize]
  omega

/-- The live blocks, in the order of their allocation. -/
structure BlockTable where
  live : List LiveBlock
  nextSerial : Nat
  errno : Int

/-- Nothing is allocated. -/
def BlockTable.empty : BlockTable := ⟨[], 0, 0⟩

/-- A call of the allocator, with libc's answer, or a store by the program. -/
inductive AllocOp where
  | malloc (size : Nat) (file : CString) (line : Int) (libc : Option Addr)
  | calloc (numberOfElements size : Nat) (file : CString) (line : Int) (libc : Option Addr)
  | realloc (ptr : Addr) (size : Nat) (file : CString) (line : Int) (libc : Option Addr)
  | free (ptr : Addr) (file : CString) (line : Int)
  | write (dst : Addr) (byte : BitVec 8)

/-- The code of a call; the answer of what returns nothing is `0`. -/
def AllocOp.exec : AllocOp → CM Addr
  | .malloc size file line libc => testMalloc size file line libc
  | .calloc n size file line libc => testCalloc n size file line libc
  | .realloc ptr size file line libc => testRealloc ptr size file line libc
  | .free ptr file line => do
      testFree ptr file line
      return 0
  | .write dst byte => do
      modify fun s => { s with globalAllocatedBlocks :=
        { s.globalAllocatedBlocks with
          mem := Function.update s.globalAllocatedBlocks.mem dst byte } }
      return 0

namespace BlockTable

/-- A new block at the end. -/
def insert (t : BlockTable) (block : Addr) (location : SourceLocation)
    (bytes : List (BitVec 8)) : BlockTable :=
  { t with
    live := t.live ++ [{ block, location, serial := t.nextSerial, bytes }]
    nextSerial := t.nextSerial + 1 }

/-- Without the block at `ptr`. -/
def remove (t : BlockTable) (p : Platform) (ptr : Addr) : BlockTable :=
  { t with live := t.live.eraseP fun b => b.ptr p = ptr }

/-- The payload at `ptr`. -/
def payloadAt (t : BlockTable) (p : Platform) (ptr : Addr) : List (BitVec 8) :=
  ((t.live.find? fun b => b.ptr p = ptr).map LiveBlock.bytes).getD []

/-- A store into a payload. -/
def write (t : BlockTable) (p : Platform) (dst : Addr) (byte : BitVec 8) : BlockTable :=
  { t with live := t.live.map fun b =>
      if b.ptr p ≤ dst ∧ dst < b.ptr p + b.bytes.length then
        { b with bytes := b.bytes.set (dst - b.ptr p) byte }
      else b }

/-- Allocate a block with the given payload: the size must not wrap around, and libc must have the
memory; else the test is over (`none`). -/
def alloc (t : BlockTable) (p : Platform) (location : SourceLocation) (libc : Option Addr)
    (bytes : List (BitVec 8)) : Option Addr × BlockTable :=
  match libc with
  | some block =>
      if p.Fits bytes.length then (some (p.payload block), t.insert block location bytes)
      else (none, t)
  | none => (none, t)

/-- The payload of a reallocated block: the old bytes as far as they fit, then fresh ones. -/
def resized (bytes : List (BitVec 8)) (size : Nat) : List (BitVec 8) :=
  bytes.take size ++ List.replicate (size - bytes.length) mallocAllocPattern

/-- What a call answers, and the table after it. -/
def step (p : Platform) (t : BlockTable) : AllocOp → Option Addr × BlockTable
  | .malloc size file line libc =>
      t.alloc p (setSourceLocation file line) libc (List.replicate size mallocAllocPattern)
  | .calloc n size file line libc =>
      if n * size > p.sizeLimit - 1 then (some 0, { t with errno := enomem })
      else t.alloc p (setSourceLocation file line) libc (List.replicate (n * size) 0)
  | .realloc ptr size file line libc =>
      if ptr = 0 then
        t.alloc p (setSourceLocation file line) libc (List.replicate size mallocAllocPattern)
      else if size = 0 then (some 0, t.remove p ptr)
      else
        match t.alloc p (setSourceLocation file line) libc (resized (t.payloadAt p ptr) size) with
        | (some new, t') => (some new, t'.remove p ptr)
        | (none, t') => (none, t')
  | .free ptr _ _ => (some 0, if ptr = 0 then t else t.remove p ptr)
  | .write dst byte => (some 0, t.write p dst byte)

/-- The answers to a sequence of calls, and the table after it. -/
def run (t : BlockTable) (p : Platform) : List AllocOp → List (Option Addr) × BlockTable
  | [] => ([], t)
  | op :: ops =>
      ((t.step p op).1 :: ((t.step p op).2.run p ops).1, ((t.step p op).2.run p ops).2)

/-- `NULL`, or a live block. -/
def Live (t : BlockTable) (p : Platform) (ptr : Addr) : Prop :=
  ptr = 0 ∨ ∃ b ∈ t.live, b.ptr p = ptr

/-- The region libc's `malloc` returns, if it is called, is disjoint from those of the live
blocks. -/
def Fresh (t : BlockTable) (p : Platform) (size : Nat) (libc : Option Addr) : Prop :=
  ∀ block, libc = some block → p.Fits size →
    ∀ b ∈ t.live, Disjoint (Set.Ico block (block + p.regionSize size)) (b.region p)

/-- The calls a program may make: sizes are of type `size_t`, pointers are `NULL` or valid, and
stores go into live payloads. -/
def Allows (p : Platform) (t : BlockTable) : AllocOp → Prop
  | .malloc size _ _ libc => size < p.sizeLimit ∧ t.Fresh p size libc
  | .calloc n size _ _ libc => n < p.sizeLimit ∧ size < p.sizeLimit ∧ t.Fresh p (n * size) libc
  | .realloc ptr size _ _ libc => size < p.sizeLimit ∧ t.Live p ptr ∧ t.Fresh p size libc
  | .free ptr _ _ => t.Live p ptr
  | .write dst _ => ∃ b ∈ t.live, b.ptr p ≤ dst ∧ dst < b.ptr p + b.bytes.length

/-- Every call of a sequence is allowed where it is made. -/
def AllowsAll (t : BlockTable) (p : Platform) : List AllocOp → Prop
  | [] => True
  | op :: ops => t.Allows p op ∧ (t.step p op).2.AllowsAll p ops

end BlockTable

/-! ### The memory of a table -/

/-- The list of blocks, as the nodes in the headers. -/
def BlockTable.headers (t : BlockTable) (p : Platform) : List BlockNode :=
  t.live.map fun b => .header (b.info p)

/-- What the memory of a live block holds. -/
structure Holds (p : Platform) (h : Heap) (b : LiveBlock) : Prop where
  fits : p.Fits b.bytes.length
  header : h.info (b.info p) = some
    { block := b.block, allocatedSize := p.regionSize b.bytes.length, size := b.bytes.length
      location := b.location, serial := b.serial }
  frontGuard : readBytes h.mem (b.ptr p - mallocGuardSize) mallocGuardSize =
    List.replicate mallocGuardSize mallocGuardPattern
  payload : readBytes h.mem (b.ptr p) b.bytes.length = b.bytes
  rearGuard : readBytes h.mem (b.ptr p + b.bytes.length) mallocGuardSize =
    List.replicate mallocGuardSize mallocGuardPattern

/-- The memory `h` holds the blocks of `t` and no others. -/
structure Represents (p : Platform) (h : Heap) (t : BlockTable) : Prop where
  ring : h.nodes.Rings .head (t.headers p)
  unstarted : h.nodes.valueOf .head = some 0 → t.live = []
  values : ∀ info, h.nodes.valueOf (.header info) =
    if .header info ∈ t.headers p then some info else none
  holds : ∀ b ∈ t.live, Holds p h b
  apart : (t.live.map (LiveBlock.region p)).Pairwise Disjoint
  serials : (t.live.map LiveBlock.serial).Pairwise (· < ·)
  numbered : ∀ n ∈ t.live.map LiveBlock.serial, n < t.nextSerial
  nextSerial : h.nextSerial = t.nextSerial
  errno : h.errno = t.errno

end Cmocka
