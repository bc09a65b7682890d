import Cmocka.Model.Display
import Cmocka.Support.Patch

/-!
# Report — the memory dump

What `print_data_diff` prints for each block depends on the two slices alone, but for the skip mark,
which also looks at the block before (`blockItems`).  The loop carries just that in `skipped`, so the
dump is the concatenation over all blocks (`printDataDiff_eq`).  A block that is left out is sixteen
zero bytes on both sides: writing the records over zeroes gives both buffers back (`rebuild`).
-/

namespace Cmocka

open Patch

variable {p : Platform} {buf buf1 buf2 : List (BitVec 8)} {i k : Nat}

/-! ### One block -/

/-- The bytes of a buffer in the block at `i`. -/
def slice (buf : List (BitVec 8)) (i : Nat) : List (BitVec 8) := window buf i 16

/-- The block at `i` is left out: it is neither the first nor the last, and zero in both buffers. -/
def LeftOut (buf1 buf2 : List (BitVec 8)) (i : Nat) : Prop :=
  0 < i ∧ i + 16 < max buf1.length buf2.length ∧ slice buf1 i = List.replicate 16 0 ∧
    slice buf2 i = List.replicate 16 0

instance : Decidable (LeftOut buf1 buf2 i) := inferInstanceAs (Decidable (_ ∧ _ ∧ _ ∧ _))

/-- What the block at `i` prints: the mark where a run of left out blocks begins, one record for
equal slices, else a pair. -/
def blockItems (buf1 buf2 : List (BitVec 8)) (i : Nat) : List DiffItem :=
  if LeftOut buf1 buf2 i then
    if LeftOut buf1 buf2 (i - 16) then [] else [.skipMark]
  else if slice buf1 i = slice buf2 i then [.record "  ".toList i (slice buf1 i)]
  else [.record "- ".toList i (slice buf1 i), .record "+ ".toList i (slice buf2 i)]

theorem length_slice (buf : List (BitVec 8)) (i : Nat) :
    (slice buf i).length = min 16 (buf.length - i) := by
  rw [slice, window, List.length_take, List.length_drop]

theorem thisLen_eq (buf : List (BitVec 8)) (i : Nat) : thisLen buf i = (slice buf i).length := by
  rw [length_slice, thisLen]
  split <;> omega

/-- What is read through `this_buf`. -/
theorem thisBuf_take (buf : List (BitVec 8)) (i : Nat) :
    ((thisBuf buf i).getD []).take (thisLen buf i) = slice buf i := by
  rw [thisLen_eq, length_slice, thisBuf]
  split
  next hi =>
    rw [Option.getD_some, slice, window, ← List.length_drop, ← List.take_eq_take_min]
  next hi => simp [slice, window, List.drop_eq_nil_of_le (Nat.le_of_not_lt hi)]

/-- What equals itself one byte on is the same byte throughout. -/
theorem take_eq_replicate_iff (n : Nat) (t : List (BitVec 8)) :
    (0 :: t).take n = t.take n ↔ t.take n = List.replicate n 0 := by
  induction n generalizing t with
  | zero => simp
  | succ n ih =>
      cases t with
      | nil => simp [List.replicate_succ]
      | cons x t =>
          simp only [List.take_succ_cons, List.replicate_succ, List.cons.injEq]
          constructor
          · rintro ⟨rfl, h⟩
            exact ⟨rfl, (ih t).mp h⟩
          · rintro ⟨rfl, h⟩
            exact ⟨rfl, (ih t).mpr h⟩

theorem allZero_iff (buf : List (BitVec 8)) (len : Nat) :
    allZero (some buf) len = true ↔ buf.take len = List.replicate len 0 := by
  cases len with
  | zero => simp [allZero]
  | succ n =>
      cases buf with
      | nil => simp [allZero, List.replicate_succ]
      | cons x t =>
          simp only [allZero, memcmpEqual, Nat.add_sub_cancel, List.head?_cons,
            List.drop_succ_cons, List.drop_zero, List.take_succ_cons, List.replicate_succ,
            List.cons.injEq, Bool.or_eq_true, Bool.and_eq_true, beq_iff_eq, Option.some.injEq,
            Nat.succ_ne_zero, false_or]
          refine and_congr_right ?_
          rintro rfl
          exact take_eq_replicate_iff n t

/-- **The zero test is right.**  `all_zero` looks at the first byte and compares the buffer with
itself one byte on; it says of every buffer and every length whether all bytes are zero. -/
theorem all_zero_iff_bytes_zero (buf : Option (List (BitVec 8))) (len : Nat) :
    allZero buf len = true ↔
      buf = none ∨ ∃ bytes, buf = some bytes ∧ ∀ i < len, bytes[i]? = some 0 := by
  cases buf with
  | none => exact iff_of_true rfl (.inl rfl)
  | some bytes =>
      rw [allZero_iff]
      constructor
      · intro h
        refine .inr ⟨bytes, rfl, fun i hi => ?_⟩
        rw [← List.getElem?_take_of_lt hi, h, List.getElem?_replicate, if_pos hi]
      · rintro (hnull | ⟨_, hb, hzero⟩)
        · cases hnull
        · cases hb
          refine List.ext_getElem? fun i => ?_
          rw [List.getElem?_take, List.getElem?_replicate]
          split
          case isTrue hi => exact hzero i hi
          case isFalse => rfl

/-- The tests on one buffer: the block is whole, and zero. -/
theorem zeroBlock_iff (buf : List (BitVec 8)) (i : Nat) :
    (thisLen buf i = 16 ∧ allZero (thisBuf buf i) 16 = true) ↔
      slice buf i = List.replicate 16 0 := by
  have hlength : (slice buf i = List.replicate 16 0) → thisLen buf i = 16 := by
    intro h
    rw [thisLen_eq, h, List.length_replicate]
  rw [← and_iff_right_of_imp hlength]
  refine and_congr_right ?_
  intro hlen
  rw [thisLen_eq, length_slice] at hlen
  rw [thisBuf, if_pos (by omega), slice, window]
  exact allZero_iff (buf.drop i) 16

/-- The condition of the first branch. -/
theorem leftOut_iff (buf1 buf2 : List (BitVec 8)) (i : Nat) :
    (true && 0 < i && 16 < max buf1.length buf2.length - i && thisLen buf1 i == 16 &&
      allZero (thisBuf buf1 i) 16 && thisLen buf2 i == 16 && allZero (thisBuf buf2 i) 16) = true ↔
      LeftOut buf1 buf2 i := by
  rw [LeftOut, ← zeroBlock_iff, ← zeroBlock_iff]
  simp only [Bool.and_eq_true, decide_eq_true_eq, beq_iff_eq, true_and, and_assoc]
  rw [show 16 < max buf1.length buf2.length - i ↔ i + 16 < max buf1.length buf2.length by omega]

/-- The condition of the second branch. -/
theorem equal_iff (buf1 buf2 : List (BitVec 8)) (i : Nat) :
    (thisLen buf1 i == thisLen buf2 i && memcmpEqual ((thisBuf buf1 i).getD [])
      ((thisBuf buf2 i).getD []) (thisLen buf1 i)) = true ↔ slice buf1 i = slice buf2 i := by
  rw [Bool.and_eq_true, beq_iff_eq, memcmpEqual, beq_iff_eq, ← thisBuf_take buf1, ← thisBuf_take buf2]
  constructor
  · rintro ⟨hlen, h⟩
    rw [h, hlen]
  · intro h
    have hlen : thisLen buf1 i = thisLen buf2 i := by
      rw [thisBuf_take, thisBuf_take] at h
      rw [thisLen_eq, thisLen_eq, h]
    exact ⟨hlen, h.trans (by rw [hlen])⟩

/-- A block is printed whole: its assertion holds. -/
theorem printDataBlock16_slice (mark : CString) (buf : List (BitVec 8)) (i : Nat) :
    printDataBlock16 mark i (thisBuf buf i) (thisLen buf i) =
      some (.record mark i (slice buf i)) := by
  rw [printDataBlock16, thisBuf_take, if_pos]
  rw [thisLen_eq, length_slice]
  exact Nat.min_le_left _ _

/-- **One block.**  `skipped` says that the block before was left out, and again so after it. -/
theorem printDataDiffBlock_eq (buf1 buf2 : List (BitVec 8)) (i : Nat) :
    printDataDiffBlock buf1 buf2 true i (decide (LeftOut buf1 buf2 (i - 16))) =
      some (blockItems buf1 buf2 i, decide (LeftOut buf1 buf2 i)) := by
  simp only [printDataDiffBlock, leftOut_iff, equal_iff, printDataBlock16_slice, blockItems,
    Option.bind_eq_bind, Option.bind_some, Option.pure_def, decide_eq_true_eq]
  by_cases hleft : LeftOut buf1 buf2 i
  · simp only [hleft, if_true, decide_true]
  · by_cases hequal : slice buf1 i = slice buf2 i
    · simp only [hleft, hequal, if_true, if_false, decide_false]
    · simp only [hleft, hequal, if_false, decide_false]

/-! ### All blocks -/

/-- The number of blocks. -/
def blockCount (buf1 buf2 : List (BitVec 8)) : Nat := (max buf1.length buf2.length + 15) / 16

/-- The loop prints the blocks that are left, in order. -/
theorem printDataDiffLoop_eq (hsize : max buf1.length buf2.length + 16 < p.sizeLimit)
    (bound k : Nat) (hk : k ≤ blockCount buf1 buf2) (hbound : blockCount buf1 buf2 - k ≤ bound) :
    printDataDiffLoop p buf1 buf2 true bound (16 * k)
        (decide (LeftOut buf1 buf2 (16 * k - 16))) =
      some ((List.range' k (blockCount buf1 buf2 - k)).flatMap
        fun k => blockItems buf1 buf2 (16 * k)) := by
  have hmore : 16 * k < max buf1.length buf2.length ↔ k < blockCount buf1 buf2 := by
    unfold blockCount
    omega
  induction bound generalizing k with
  | zero =>
      rw [printDataDiffLoop, if_neg (by omega), Nat.le_zero.mp hbound]
      rfl
  | succ bound ih =>
      rw [printDataDiffLoop]
      split
      next hlt =>
        have hk' : k < blockCount buf1 buf2 := hmore.mp hlt
        -- the index does not wrap round, by the bound on the lengths
        have hnext : (16 * k + 16) % p.sizeLimit = 16 * (k + 1) := by
          rw [Nat.mod_eq_of_lt (by omega)]
          omega
        have hprev : 16 * k = 16 * (k + 1) - 16 := by omega
        have hrest := ih (k + 1) (by omega) (by omega) (by unfold blockCount; omega)
        rw [← hprev] at hrest
        rw [printDataDiffBlock_eq, hnext, Option.bind_eq_bind, Option.bind_some]
        simp only [hrest, Option.bind_eq_bind, Option.bind_some, Option.pure_def]
        rw [show blockCount buf1 buf2 - k = (blockCount buf1 buf2 - (k + 1)) + 1 by omega,
          List.range'_succ, List.flatMap_cons]
      next hge =>
        rw [show blockCount buf1 buf2 - k = 0 by omega]
        rfl

/-- **The dump is the concatenation of its blocks.** -/
theorem printDataDiff_eq (hsize : max buf1.length buf2.length + 16 < p.sizeLimit) :
    printDataDiff p buf1 buf2 true =
      some ((List.range (blockCount buf1 buf2)).flatMap fun k => blockItems buf1 buf2 (16 * k)) := by
  have hbound : blockCount buf1 buf2 - 0 ≤ max buf1.length buf2.length := by
    unfold blockCount
    omega
  have hfirst : decide (LeftOut buf1 buf2 (16 * 0 - 16)) = false := by
    simp [LeftOut]
  have hloop := printDataDiffLoop_eq hsize (max buf1.length buf2.length) 0 (Nat.zero_le _) hbound
  rw [hfirst, Nat.sub_zero, ← List.range_eq_range'] at hloop
  exact hloop

/-! ### Reading the dump back -/

/-- Writes one line of the dump into a buffer; `mark` says which side is read. -/
def DiffItem.writeTo (mark : CString) (buf : List (BitVec 8)) : DiffItem → List (BitVec 8)
  | .record m idx bytes => if m = mark ∨ m = "  ".toList then patch buf idx bytes else buf
  | .skipMark => buf

/-- The buffer of `n` bytes that a dump describes: its records, over zeroes. -/
def rebuild (mark : CString) (n : Nat) (items : List DiffItem) : List (BitVec 8) :=
  items.foldl (DiffItem.writeTo mark) (List.replicate n 0)

/-- What is known of a buffer after `k` blocks. -/
def known (buf : List (BitVec 8)) (k : Nat) : List (BitVec 8) :=
  buf.take (16 * k) ++ List.replicate (buf.length - 16 * k) 0

theorem take_append_slice (buf : List (BitVec 8)) (k : Nat) :
    buf.take (16 * k) ++ slice buf (16 * k) = buf.take (16 * (k + 1)) := by
  rw [slice, window, ← List.take_add]
  rfl

/-- The rest of the zeroes: those of the block, and those after it. -/
theorem known_split (buf : List (BitVec 8)) (k : Nat) :
    known buf k = buf.take (16 * k) ++ List.replicate (slice buf (16 * k)).length 0 ++
      List.replicate (buf.length - 16 * (k + 1)) 0 := by
  rw [known, List.append_assoc, List.replicate_append_replicate, length_slice]
  congr 2
  omega

/-- Writing a slice where the known part ends. -/
theorem patch_known (buf : List (BitVec 8)) (k : Nat) :
    patch (known buf k) (16 * k) (slice buf (16 * k)) = known buf (k + 1) := by
  by_cases hk : 16 * k ≤ buf.length
  · have hlen : 16 * k = (buf.take (16 * k)).length := by
      rw [List.length_take]
      omega
    rw [known_split, patch_parts hlen (List.length_replicate ..), take_append_slice, known]
  · have hnil : slice buf (16 * k) = [] := by
      rw [← List.length_eq_zero_iff, length_slice]
      omega
    have hwhole (j : Nat) (hj : k ≤ j) : known buf j = buf := by
      rw [known, List.take_of_length_le (by omega), show buf.length - 16 * j = 0 by omega]
      exact List.append_nil _
    rw [hnil, patch_nil, hwhole k (Nat.le_refl k), hwhole (k + 1) (Nat.le_succ k)]

/-- A block of zeroes is known before it is read. -/
theorem known_zero (h : slice buf (16 * k) = List.replicate 16 0) :
    known buf (k + 1) = known buf k := by
  rw [known_split buf k, h, List.length_replicate, ← h, take_append_slice, known]

/-- Reading the items of a block, on the side of `buf1`. -/
theorem foldl_blockItems_minus (buf1 buf2 : List (BitVec 8)) (k : Nat) :
    (blockItems buf1 buf2 (16 * k)).foldl (DiffItem.writeTo "- ".toList) (known buf1 k) =
      known buf1 (k + 1) := by
  rw [blockItems]
  split
  next hleft =>
    have hzero := known_zero hleft.2.2.1
    split
    · exact hzero.symm
    · exact hzero.symm
  next hleft =>
    split
    · exact patch_known buf1 k
    · exact patch_known buf1 k

/-- Reading the items of a block, on the side of `buf2`. -/
theorem foldl_blockItems_plus (buf1 buf2 : List (BitVec 8)) (k : Nat) :
    (blockItems buf1 buf2 (16 * k)).foldl (DiffItem.writeTo "+ ".toList) (known buf2 k) =
      known buf2 (k + 1) := by
  rw [blockItems]
  split
  next hleft =>
    have hzero := known_zero hleft.2.2.2
    split
    · exact hzero.symm
    · exact hzero.symm
  next hleft =>
    split
    next hequal =>
      rw [hequal]
      exact patch_known buf2 k
    next hequal => exact patch_known buf2 k

/-- Reading all blocks, when each block is read right. -/
theorem rebuild_eq {mark : CString} {blocks : Nat → List DiffItem} {n : Nat}
    (hstep : ∀ k, (blocks k).foldl (DiffItem.writeTo mark) (known buf k) = known buf (k + 1))
    (hn : buf.length ≤ 16 * n) : rebuild mark buf.length ((List.range n).flatMap blocks) = buf := by
  have hrun (k : Nat) : ((List.range k).flatMap blocks).foldl (DiffItem.writeTo mark)
      (known buf 0) = known buf k := by
    induction k with
    | zero => rfl
    | succ k ih =>
        rw [List.range_succ, List.flatMap_append, List.foldl_append, ih, List.flatMap_cons,
          List.flatMap_nil, List.append_nil, hstep]
  have hend : known buf n = buf := by
    rw [known, List.take_of_length_le hn, show buf.length - 16 * n = 0 by omega]
    exact List.append_nil _
  have hstart : List.replicate buf.length 0 = known buf 0 := by simp [known]
  rw [rebuild, hstart, hrun, hend]

/-! ### The dump as a whole -/

/-- What happens to the block at `i`; `items` is what is printed for it. -/
inductive BlockOutcome (buf1 buf2 : List (BitVec 8)) (i : Nat) : (items : List DiffItem) → Prop
  | runStart (hleft : LeftOut buf1 buf2 i) (hbefore : ¬LeftOut buf1 buf2 (i - 16)) :
      BlockOutcome buf1 buf2 i [.skipMark]
  | runRest (hleft : LeftOut buf1 buf2 i) (hbefore : LeftOut buf1 buf2 (i - 16)) :
      BlockOutcome buf1 buf2 i []
  | equal (hleft : ¬LeftOut buf1 buf2 i) (hequal : slice buf1 i = slice buf2 i) :
      BlockOutcome buf1 buf2 i [.record "  ".toList i (slice buf1 i)]
  | differs (hleft : ¬LeftOut buf1 buf2 i) (hdiffers : slice buf1 i ≠ slice buf2 i) :
      BlockOutcome buf1 buf2 i
        [.record "- ".toList i (slice buf1 i), .record "+ ".toList i (slice buf2 i)]

theorem blockItems_outcome (buf1 buf2 : List (BitVec 8)) (i : Nat) :
    BlockOutcome buf1 buf2 i (blockItems buf1 buf2 i) := by
  rw [blockItems]
  split
  next hleft =>
    split
    next hbefore => exact .runRest hleft hbefore
    next hbefore => exact .runStart hleft hbefore
  next hleft =>
    split
    next hequal => exact .equal hleft hequal
    next hequal => exact .differs hleft hequal

/-- The byte at `j` of each buffer, on the line of its block. -/
def ShownApart (buf1 buf2 : List (BitVec 8)) (items : List DiffItem) (j : Nat) : Prop :=
  ∃ bytes1 bytes2, .record "- ".toList (16 * (j / 16)) bytes1 ∈ items ∧
    .record "+ ".toList (16 * (j / 16)) bytes2 ∈ items ∧
    bytes1[j % 16]? = buf1[j]? ∧ bytes2[j % 16]? = buf2[j]?

theorem shownApart_of_ne {j : Nat} (h : buf1[j]? ≠ buf2[j]?) :
    ShownApart buf1 buf2
      ((List.range (blockCount buf1 buf2)).flatMap fun k => blockItems buf1 buf2 (16 * k)) j := by
  have hbyte (buf : List (BitVec 8)) : (slice buf (16 * (j / 16)))[j % 16]? = buf[j]? := by
    rw [slice, getElem?_window (Nat.mod_lt _ (by decide)), Nat.div_add_mod]
  have hdiffers : slice buf1 (16 * (j / 16)) ≠ slice buf2 (16 * (j / 16)) := by
    intro hequal
    apply h
    rw [← hbyte buf1, hequal, hbyte buf2]
  have hleft : ¬LeftOut buf1 buf2 (16 * (j / 16)) := by
    rintro ⟨-, -, h1, h2⟩
    exact hdiffers (h1.trans h2.symm)
  have hlt : j < max buf1.length buf2.length := by
    by_contra hge
    apply h
    rw [List.getElem?_eq_none (by omega), List.getElem?_eq_none (by omega)]
  have hblock : j / 16 ∈ List.range (blockCount buf1 buf2) := by
    rw [List.mem_range, blockCount]
    omega
  have hitems : blockItems buf1 buf2 (16 * (j / 16)) =
      [.record "- ".toList (16 * (j / 16)) (slice buf1 (16 * (j / 16))),
        .record "+ ".toList (16 * (j / 16)) (slice buf2 (16 * (j / 16)))] := by
    rw [blockItems, if_neg hleft, if_neg hdiffers]
  refine ⟨_, _, List.mem_flatMap.mpr ⟨_, hblock, ?_⟩, List.mem_flatMap.mpr ⟨_, hblock, ?_⟩,
    hbyte buf1, hbyte buf2⟩
  · rw [hitems]
    exact List.mem_cons_self
  · rw [hitems]
    exact List.mem_cons_of_mem _ List.mem_cons_self

/-- **The dump is complete and lossless.**  It has one part for each block, in order, with the
outcome of that block; bytes that differ are shown apart; and each buffer can be read back from the
dump and its length. -/
theorem data_diff_lossless (p : Platform) (buf1 buf2 : List (BitVec 8))
    (hsize : max buf1.length buf2.length + 16 < p.sizeLimit) :
    ∃ blocks : List (List DiffItem),
      printDataDiff p buf1 buf2 true = some blocks.flatten ∧
      (∀ k, k < blocks.length ↔ 16 * k < max buf1.length buf2.length) ∧
      (∀ k items, blocks[k]? = some items → BlockOutcome buf1 buf2 (16 * k) items) ∧
      (∀ j, buf1[j]? ≠ buf2[j]? → ShownApart buf1 buf2 blocks.flatten j) ∧
      rebuild "- ".toList buf1.length blocks.flatten = buf1 ∧
      rebuild "+ ".toList buf2.length blocks.flatten = buf2 := by
  have hcount (buf : List (BitVec 8)) (h : buf.length ≤ max buf1.length buf2.length) :
      buf.length ≤ 16 * blockCount buf1 buf2 := by
    unfold blockCount
    omega
  refine ⟨(List.range (blockCount buf1 buf2)).map fun k => blockItems buf1 buf2 (16 * k), ?_, ?_, ?_,
    ?_, ?_, ?_⟩
  · rw [printDataDiff_eq hsize, List.flatMap_def]
  · intro k
    rw [List.length_map, List.length_range, blockCount]
    omega
  · intro k items hitems
    rw [List.getElem?_map] at hitems
    obtain ⟨k', hk', rfl⟩ := Option.map_eq_some_iff.mp hitems
    obtain ⟨-, rfl⟩ := List.getElem?_eq_some_iff.mp hk'
    rw [List.getElem_range]
    exact blockItems_outcome buf1 buf2 _
  · intro j hj
    rw [← List.flatMap_def]
    exact shownApart_of_ne hj
  · rw [← List.flatMap_def]
    exact rebuild_eq (foldl_blockItems_minus buf1 buf2) (hcount buf1 (Nat.le_max_left _ _))
  · rw [← List.flatMap_def]
    exact rebuild_eq (foldl_blockItems_plus buf1 buf2) (hcount buf2 (Nat.le_max_right _ _))

/-- Two zero blocks in the middle are left out, and are there again when the dump is read. -/
theorem zero_blocks_read_back :
    ∃ items, printDataDiff Platform.lp64 (List.replicate 64 0) (List.replicate 63 0 ++ [7]) true =
        some items ∧
      .skipMark ∈ items ∧ rebuild "- ".toList 64 items = List.replicate 64 0 := by
  obtain ⟨blocks, hprint, -, -, -, hminus, -⟩ :=
    data_diff_lossless Platform.lp64 (List.replicate 64 0) (List.replicate 63 0 ++ [7])
      (by decide)
  refine ⟨blocks.flatten, hprint, ?_, hminus⟩
  have hdump : (printDataDiff Platform.lp64 (List.replicate 64 0)
      (List.replicate 63 0 ++ [7]) true).any (·.contains .skipMark) = true := by decide +kernel
  rw [hprint] at hdump
  simpa using hdump

/-- A comparison that fails shows a pair of lines. -/
theorem memoryEqualDisplayError_shows {a b : List (BitVec 8)} (hlen : a.length = b.length)
    (hsize : a.length + 16 < p.sizeLimit) (hne : a ≠ b) :
    ∃ items j, memoryEqualDisplayError p a b =
        some ("Memory is not equal:\n\n".toList :: items.map DiffItem.text ++ ["\n".toList],
          false) ∧
      a[j]? ≠ b[j]? ∧ ShownApart a b items j := by
  have hmem : memcmpEqual a b a.length = false := by
    rw [memcmpEqual, List.take_length, hlen, List.take_length]
    exact beq_false_of_ne hne
  have hdiff : ∃ j : Nat, a[j]? ≠ b[j]? := by
    by_contra hall
    push Not at hall
    exact hne (List.ext_getElem? hall)
  obtain ⟨j, hj⟩ := hdiff
  have hprint : printDataDiff p a b true = _ := printDataDiff_eq (by omega)
  refine ⟨_, j, ?_, hj, shownApart_of_ne hj⟩
  simp only [memoryEqualDisplayError, hmem, hprint, Option.bind_eq_bind, Option.bind_some,
    Option.pure_def, Bool.false_eq_true, if_false]

end Cmocka
