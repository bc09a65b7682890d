import Cmocka.Support.Layout
import Cmocka.Alloc.Table

/-!
# Alloc — the layout of a block in words of the machine

The computations of `_test_malloc`, `_test_free`, `_test_realloc` and `free_allocated_blocks` on
sizes and addresses, modulo `2 ^ sizeBits` and with the mask of `ALIGN_DOWN`.  The model of the
allocator computes on numbers.  The two agree on a region that does not wrap around
(`toNat_wordAllocateSize`, `toNat_wordPayload`, `toNat_wordHeaderOf`), and there the four parts of a
block follow each other inside the region (`block_layout`).
-/

namespace Cmocka

namespace Platform

/-! ### The computations in words -/

/-- `size_t` and `uintptr_t`. -/
abbrev Word (p : Platform) := BitVec p.sizeBits

variable (p : Platform)

def wordGuardSize : p.Word := BitVec.ofNat _ mallocGuardSize
def wordAlignment : p.Word := BitVec.ofNat _ mallocAlignment
def wordHeaderSize : p.Word := BitVec.ofNat _ p.sizeofMallocBlockInfoData

/-- `allocate_size` in `_test_malloc`. -/
def wordAllocateSize (size : p.Word) : p.Word :=
  size + p.wordGuardSize * 2 + p.wordHeaderSize + p.wordAlignment

/-- `ALIGN_DOWN` without a builtin. -/
def wordAlignDown (x a : p.Word) : p.Word := x &&& ~~~(a - 1)

/-- The address `_test_malloc` returns. -/
def wordPayload (block : p.Word) : p.Word :=
  p.wordAlignDown (block + p.wordGuardSize + p.wordHeaderSize + p.wordAlignment) p.wordAlignment

/-- `block_info.ptr` in `_test_malloc`, `_test_free` and `_test_realloc`. -/
def wordHeaderOf (ptr : p.Word) : p.Word := ptr - (p.wordGuardSize + p.wordHeaderSize)

/-- What `free_allocated_blocks` frees for the value of a node. -/
def wordPayloadOf (info : p.Word) : p.Word := info + p.wordHeaderSize + p.wordGuardSize

/-! ### The same on numbers -/

variable {p}

theorem toNat_wordAllocateSize (size : p.Word) :
    (p.wordAllocateSize size).toNat = p.allocateSize size.toNat := by
  rw [wordAllocateSize, wordGuardSize, wordHeaderSize, wordAlignment, allocateSize, sizeLimit]
  simp

theorem lt_sizeLimit_of_sized (hp : p.Sized) {n : Nat} (h : n < 48) : n < 2 ^ p.sizeBits := by
  simp only [Sized, regionSize, mallocGuardSize, mallocAlignment, sizeLimit] at hp
  omega

/-- `ALIGN_DOWN` clears the low four bits. -/
theorem toNat_wordAlignDown (hp : p.Sized) (x : p.Word) :
    (p.wordAlignDown x p.wordAlignment).toNat = alignDown x.toNat mallocAlignment := by
  have hbits : 4 ≤ p.sizeBits := by
    by_contra hlt
    have hle : 2 ^ p.sizeBits ≤ 2 ^ 3 := Nat.pow_le_pow_right (by decide) (by omega)
    have h16 := lt_sizeLimit_of_sized hp (n := 16) (by decide)
    omega
  have hmask : p.wordAlignment - 1 = BitVec.ofNat _ (2 ^ 4 - 1) := by
    apply BitVec.eq_of_toNat_eq
    have hone : (1 : p.Word).toNat = 1 := Nat.mod_eq_of_lt (lt_sizeLimit_of_sized hp (by decide))
    have h16 : p.wordAlignment.toNat = 16 := Nat.mod_eq_of_lt (lt_sizeLimit_of_sized hp (by decide))
    have h15 : (BitVec.ofNat p.sizeBits (2 ^ 4 - 1)).toNat = 15 :=
      Nat.mod_eq_of_lt (lt_sizeLimit_of_sized hp (by decide))
    rw [BitVec.toNat_sub_of_le (by rw [BitVec.le_def]; omega), hone, h16, h15]
  rw [wordAlignDown, hmask, Layout.toNat_and_not_mask hbits]
  rfl

/-- The returned address, for a region that does not wrap around. -/
theorem toNat_wordPayload (hp : p.Sized) {block : p.Word}
    (h : block.toNat + p.regionSize 0 < p.sizeLimit) :
    (p.wordPayload block).toNat = p.payload block.toNat := by
  rw [wordPayload, toNat_wordAlignDown hp, payload]
  congr 1
  rw [wordGuardSize, wordHeaderSize, wordAlignment]
  simp only [BitVec.toNat_add, BitVec.toNat_ofNat, Nat.mod_add_mod, Nat.add_mod_mod]
  apply Nat.mod_eq_of_lt
  simp only [regionSize, mallocGuardSize, mallocAlignment, sizeLimit] at h ⊢
  omega

/-- The header of an address far enough from zero. -/
theorem toNat_wordHeaderOf {ptr : p.Word}
    (h : mallocGuardSize + p.sizeofMallocBlockInfoData ≤ ptr.toNat) :
    (p.wordHeaderOf ptr).toNat = p.headerOf ptr.toNat := by
  have hsum : (p.wordGuardSize + p.wordHeaderSize).toNat =
      mallocGuardSize + p.sizeofMallocBlockInfoData := by
    rw [wordGuardSize, wordHeaderSize, ← BitVec.ofNat_add, BitVec.toNat_ofNat]
    exact Nat.mod_eq_of_lt (h.trans_lt ptr.isLt)
  rw [wordHeaderOf, BitVec.toNat_sub_of_le (by rw [BitVec.le_def, hsum]; exact h), hsum, headerOf]

theorem wordPayloadOf_wordHeaderOf (ptr : p.Word) : p.wordPayloadOf (p.wordHeaderOf ptr) = ptr := by
  rw [wordPayloadOf, wordHeaderOf, BitVec.add_assoc, BitVec.add_comm p.wordHeaderSize,
    BitVec.sub_add_cancel]

/-! ### The four parts -/

variable (p) in
/-- Header, front guard, payload and back guard of a block whose address is `ptr`. -/
def parts (ptr size : Nat) : List (Set Nat) :=
  [Set.Ico (ptr - mallocGuardSize - p.sizeofMallocBlockInfoData) (ptr - mallocGuardSize),
    Set.Ico (ptr - mallocGuardSize) ptr, Set.Ico ptr (ptr + size),
    Set.Ico (ptr + size) (ptr + size + mallocGuardSize)]

/-- Where `_test_malloc` puts the parts of a block, and where they are found again. -/
structure LaidOut (p : Platform) (block size : p.Word) : Prop where
  aligned : mallocAlignment ∣ (p.wordPayload block).toNat
  /-- The header does not begin below zero. -/
  room : mallocGuardSize + p.sizeofMallocBlockInfoData ≤ (p.wordPayload block).toNat
  disjoint : (p.parts (p.wordPayload block).toNat size.toNat).Pairwise Disjoint
  inside : ∀ part ∈ p.parts (p.wordPayload block).toNat size.toNat,
    part ⊆ Set.Ico block.toNat (block.toNat + (p.wordAllocateSize size).toNat)
  /-- The header begins where the first part does. -/
  header : (p.wordHeaderOf (p.wordPayload block)).toNat =
    (p.wordPayload block).toNat - mallocGuardSize - p.sizeofMallocBlockInfoData
  /-- The value of the node leads back to the address, and so to the header. -/
  node : p.wordPayloadOf (p.wordHeaderOf (p.wordPayload block)) = p.wordPayload block
  /-- The stores of `_test_malloc` go to that header. -/
  stored : ∀ {h h' : Heap} {location : SourceLocation},
    h.insertBlock p block.toNat size.toNat location = some h' →
      h'.nodes.valueOf (.header (p.wordHeaderOf (p.wordPayload block)).toNat) =
        some (p.wordHeaderOf (p.wordPayload block)).toNat ∧
      (h'.info (p.wordHeaderOf (p.wordPayload block)).toNat).map MallocBlockInfoData.block =
        some block.toNat
  /-- The numbers that `_test_malloc` computes in the model. -/
  computed : p.allocateSize size.toNat = (p.wordAllocateSize size).toNat ∧
    p.payload block.toNat = (p.wordPayload block).toNat
  /-- The header that `_test_free` and `_test_realloc` look at. -/
  looked : p.headerOf (p.wordPayload block).toNat = (p.wordHeaderOf (p.wordPayload block)).toNat
  /-- The address that `free_allocated_blocks` frees. -/
  passed : p.payloadOf (p.wordHeaderOf (p.wordPayload block)).toNat = (p.wordPayload block).toNat

theorem alignment_dvd_payload (block : Nat) : mallocAlignment ∣ p.payload block := by
  rw [payload, alignDown]
  exact Nat.dvd_sub_mod _

/-- The parts of a block that fits. -/
theorem parts_inside (block : Nat) {size : Nat} (hfits : p.Fits size) :
    (p.parts (p.payload block) size).Pairwise Disjoint ∧
      ∀ part ∈ p.parts (p.payload block) size,
        part ⊆ Set.Ico block (block + p.allocateSize size) := by
  obtain ⟨slack, hpos, hle, hslack⟩ := p.payload_eq block
  rw [← hslack]
  generalize hptr : block + slack + mallocGuardSize + p.sizeofMallocBlockInfoData = ptr
  -- the four parts are the pieces between five points
  let points : List Nat := [ptr - mallocGuardSize - p.sizeofMallocBlockInfoData,
    ptr - mallocGuardSize, ptr, ptr + size, ptr + size + mallocGuardSize]
  have hsorted : points.Pairwise (· ≤ ·) := by
    simp [points]
    omega
  refine ⟨Layout.pairwise_disjoint_pieces hsorted, fun part hpart => ?_⟩
  refine (Layout.subset_of_mem_pieces hsorted hpart).trans (Set.Ico_subset_Ico ?_ ?_)
  · omega
  · rw [allocateSize_eq hfits, regionSize]
    simp only [List.getLastD_cons, List.getLastD_nil]
    omega

/-- The header and the node that `_test_malloc` leaves. -/
theorem insertBlock_stored {h h' : Heap} {block size : Nat} {location : SourceLocation}
    (hins : h.insertBlock p block size location = some h') :
    h'.nodes.valueOf (.header (p.headerOf (p.payload block))) =
        some (p.headerOf (p.payload block)) ∧
      (h'.info (p.headerOf (p.payload block))).map MallocBlockInfoData.block = some block := by
  obtain ⟨nodes, hadd, rfl⟩ := Option.map_eq_some_iff.mp hins
  refine ⟨?_, ?_⟩
  · rw [listAdd_valueOf hadd, NodeHeap.valueOf_update, Function.update_self]
    rfl
  · simp only [Function.update_self, Option.map_some]

/-- The words of a region that does not wrap around lay the block out as the numbers do. -/
theorem laidOut_of_fits (hp : p.Sized) {block size : p.Word} (hfits : p.Fits size.toNat)
    (hwrap : block.toNat + (p.wordAllocateSize size).toNat < p.sizeLimit) :
    p.LaidOut block size := by
  obtain ⟨slack, -, -, hslack⟩ := p.payload_eq block.toNat
  have hsize : (p.wordAllocateSize size).toNat = p.regionSize size.toNat := by
    rw [toNat_wordAllocateSize, allocateSize_eq hfits]
  have hptr : (p.wordPayload block).toNat = p.payload block.toNat := by
    refine toNat_wordPayload hp ?_
    simp only [regionSize] at hsize ⊢
    omega
  have hroom : mallocGuardSize + p.sizeofMallocBlockInfoData ≤ (p.wordPayload block).toNat := by
    omega
  have hheader : (p.wordHeaderOf (p.wordPayload block)).toNat =
      p.headerOf (p.payload block.toNat) := by
    rw [toNat_wordHeaderOf hroom, hptr]
  obtain ⟨hdisjoint, hinside⟩ := parts_inside block.toNat hfits
  rw [← hptr] at hdisjoint hinside
  exact
    { aligned := hptr ▸ alignment_dvd_payload _
      room := hroom
      disjoint := hdisjoint
      inside := by rwa [toNat_wordAllocateSize]
      header := by rw [toNat_wordHeaderOf hroom, headerOf, Nat.sub_sub]
      node := wordPayloadOf_wordHeaderOf _
      stored := by
        intro h h' location hins
        rw [hheader]
        exact insertBlock_stored hins
      computed := ⟨(toNat_wordAllocateSize size).symm, hptr.symm⟩
      looked := (toNat_wordHeaderOf hroom).symm
      passed := by
        rw [toNat_wordHeaderOf hroom, payloadOf, headerOf, Nat.add_assoc,
          Nat.add_comm p.sizeofMallocBlockInfoData, Nat.sub_add_cancel hroom] }

/-- **The layout of a block.**  The check of `_test_malloc` fails exactly if the sum is beyond
`SIZE_MAX`; otherwise, in every region that does not wrap around, the parts of the block are where
they belong and every function finds the same header. -/
theorem block_layout (hp : p.Sized) (size : p.Word) :
    (¬p.wordAllocateSize size > size ↔
      size.toNat + 2 * 16 + p.sizeofMallocBlockInfoData + 16 > 2 ^ p.sizeBits - 1) ∧
    (p.wordAllocateSize size > size →
      ∀ block : p.Word, block.toNat + (p.wordAllocateSize size).toNat < 2 ^ p.sizeBits →
        p.LaidOut block size) := by
  have hcheck : p.wordAllocateSize size > size ↔ p.Fits size.toNat := by
    rw [gt_iff_lt, BitVec.lt_def, toNat_wordAllocateSize]
    exact allocateSize_gt_iff hp size.isLt
  refine ⟨?_, fun hgt block hwrap => laidOut_of_fits hp (hcheck.mp hgt) hwrap⟩
  rw [hcheck, Fits, regionSize, sizeLimit, mallocGuardSize, mallocAlignment]
  have hpos := Nat.two_pow_pos p.sizeBits
  omega

/-- A block of ten bytes in the region at `0x1001` of a 64-bit process. -/
theorem block_layout_lp64 :
    lp64.LaidOut (BitVec.ofNat 64 0x1001) (BitVec.ofNat 64 10) :=
  (block_layout (p := lp64) (by decide) (BitVec.ofNat 64 10)).2 (by decide)
    (BitVec.ofNat 64 0x1001) (by decide)

end Platform

end Cmocka
