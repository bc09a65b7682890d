import Cmocka.Alloc.Heap
import Cmocka.Runner.Frames

/-!
# Alloc — the allocator refines the table

Each call of the tracked allocator, from a state whose memory represents a table, gives the answer
`BlockTable.step` gives and ends in a state whose memory represents the table after it; a call the
table ends the test at ends in `exit_test`, with the table unchanged (`Answers`).  The bytes of a
region change only if the call is about its block.

By induction a whole sequence of calls refines the run of the table
(`tracked_allocator_refines_table`).  A call that ends a test leaves its state to whatever runs
next, so a sequence goes on after it.
-/

namespace Cmocka

open Runs Ring NodeHeap

variable {s : Globals} {t : BlockTable}

/-! ### Failing -/

/-- The test ends, and only prints before. -/
def Stops {α : Type} (s : Globals) (r : EStateM.Result Exit Globals α) : Prop :=
  ∃ cmErrorMessage envChecked globalMsgOutput, r = .error (s.exitOf .fail)
    { s with cmErrorMessage, envChecked, globalMsgOutput }

theorem stops_print {α : Type} {x : CM α} (hx : ∀ s, Stops s (x s)) (text : CString)
    (s : Globals) : Stops s ((cmockaPrintError text >>= fun _ => x) s) := by
  obtain ⟨m, e, o, he⟩ := hx { s with cmErrorMessage := vcmockaPrintError s.cmErrorMessage text }
  exact ⟨m, e, o, he⟩

theorem stops_ite {α : Type} {c : Prop} [Decidable c] {x y : CM α} (hx : ∀ s, Stops s (x s))
    (hy : ∀ s, Stops s (y s)) (s : Globals) : Stops s ((if c then x else y) s) := by
  split
  · exact hx s
  · exact hy s

/-- `_fail` exits. -/
theorem stops_fail {α : Type} (file : CString) (line : Int) (s : Globals) :
    Stops s ((fail file line : CM α) s) := by
  have hexit : ∀ s : Globals, Stops s ((exitTest .fail true >>= fun _ =>
      (throw .exitFailure : CM α)) s) := by
    intro s
    rw [exitTest_bind]
    exact ⟨_, _, _, rfl⟩
  have hsecond : ∀ (output : BitVec 32) (s : Globals), Stops s ((do
      if hasOutput output cmOutputSubunit || hasOutput output cmOutputTap ||
          hasOutput output cmOutputXml then
        cmockaPrintError (fmtFileLine file line ++ ": error: Failure!".toList)
      exitTest .fail true
      throw .exitFailure : CM α) s) := fun _ => stops_ite (stops_print hexit _) hexit
  obtain ⟨output, e, o, houtput⟩ : ∃ output e o,
      getOutput s = .ok output { s with envChecked := e, globalMsgOutput := o } := ⟨_, _, _, rfl⟩
  obtain ⟨m, e', o', he⟩ := stops_ite (c := hasOutput output cmOutputStandard = true)
    (stops_print (hsecond output) _) (hsecond output)
    { s with envChecked := e, globalMsgOutput := o }
  exact ⟨m, e', o', (bind_of_ok houtput _).trans he⟩

theorem stops_assertTrue {result : Bool} (h : result = false) (expression : CString) (line : Int)
    (s : Globals) : Stops s (assertTrue result expression line s) := by
  subst h
  exact stops_print (stops_fail cmockaFile line) _ s

theorem stops_assertNonNull {β : Type} (line : Int) (s : Globals) :
    Stops s (assertNonNull (none : Option β) line s) :=
  stops_print (stops_fail cmockaFile line) _ s

theorem Stops.bind {α β : Type} {s₀ : Globals} {x : CM α} (h : Stops s₀ (x s)) (f : α → CM β) :
    Stops s₀ ((x >>= f) s) := by
  obtain ⟨m, e, o, he⟩ := h
  exact ⟨m, e, o, bind_of_error he f⟩

/-! ### `_test_malloc` -/

/-- The state with another memory of the allocator. -/
def Globals.withHeap (s : Globals) (h : Heap) : Globals := { s with globalAllocatedBlocks := h }

/-- The memory of a state represents `t`. -/
abbrev Globals.Has (s : Globals) (t : BlockTable) : Prop :=
  Represents s.platform s.globalAllocatedBlocks t

/-- An operation on the list of blocks that is defined. -/
theorem heapOp_ok {f : Heap → Option Heap} {h : Heap} (hf : f s.globalAllocatedBlocks = some h) :
    heapOp f s = .ok () (s.withHeap h) := by
  rw [heapOp, bind_apply]
  dsimp only [get_apply]
  rw [hf]
  rfl

/-- **`_test_malloc`** with an address that is free: the block is inserted, and the others stay. -/
theorem testMalloc_ok (hp : s.platform.Sized) (hs : s.Has t) {size : Nat}
    (hsize : size < s.platform.sizeLimit) (hfits : s.platform.Fits size) (file : CString)
    (line : Int) {block : Nat} (hfresh : t.Fresh s.platform size (some block)) :
    ∃ h, testMalloc size file line (some block) s = .ok (s.platform.payload block) (s.withHeap h) ∧
      Represents s.platform h (t.insert block (setSourceLocation file line)
        (List.replicate size mallocAllocPattern)) ∧
      ∀ a ∉ Set.Ico block (block + s.platform.regionSize size),
        h.mem a = s.globalAllocatedBlocks.mem a := by
  obtain ⟨hlist, hstarted, hmem⟩ := hs.getAllocatedBlocksList
  obtain ⟨h, hins, hrep, hframe⟩ := hlist.insertBlock hstarted hfits (setSourceLocation file line)
    (hfresh block rfl hfits)
  rw [hmem] at hframe
  refine ⟨h, ?_, hrep, hframe⟩
  have hgt : decide (s.platform.allocateSize size > size) = true :=
    decide_eq_true ((Platform.allocateSize_gt_iff hp hsize).mpr hfits)
  unfold testMalloc
  rw [bind_apply]
  dsimp only [modify_apply]
  rw [bind_apply]
  dsimp only [get_apply]
  rw [hgt]
  exact bind_of_ok (heapOp_ok hins) _

/-- Where the size wraps around or libc has no memory, the test ends before anything is stored. -/
theorem testMalloc_stops (hp : s.platform.Sized) {size : Nat} (hsize : size < s.platform.sizeLimit)
    (file : CString) (line : Int) {libc : Option Addr}
    (h : ¬s.platform.Fits size ∨ libc = none) :
    Stops (s.withHeap s.globalAllocatedBlocks.getAllocatedBlocksList)
      (testMalloc size file line libc s) := by
  unfold testMalloc
  rw [bind_apply]
  dsimp only [modify_apply]
  rw [bind_apply]
  dsimp only [get_apply]
  by_cases hfits : s.platform.Fits size
  · have hgt : decide (s.platform.allocateSize size > size) = true :=
      decide_eq_true ((Platform.allocateSize_gt_iff hp hsize).mpr hfits)
    obtain rfl := h.resolve_left (not_not_intro hfits)
    rw [hgt]
    exact Stops.bind (stops_assertNonNull 2690 _) _
  · have hle : decide (s.platform.allocateSize size > size) = false :=
      decide_eq_false (mt (Platform.allocateSize_gt_iff hp hsize).mp hfits)
    rw [hle]
    exact Stops.bind (stops_assertTrue rfl _ 2687 _) _

/-! ### Answers -/

/-- The run `r` of a call from `s` gives the answer of the table and leaves the memory of the
table after it; it changes the regions of those blocks of `t` only that it is about. -/
structure Answers (s : Globals) (t : BlockTable) (about : LiveBlock → Prop)
    (r : EStateM.Result Exit Globals Addr) (answer : Option Addr × BlockTable) : Prop where
  outcome : outcome r = answer.1.elim (.error (s.exitOf .fail)) .ok
  inert : Inert s (final r)
  represents : (final r).Has answer.2
  frame : ∀ b ∈ t.live, ¬about b → ∀ a ∈ b.region s.platform,
    (final r).globalAllocatedBlocks.mem a = s.globalAllocatedBlocks.mem a

variable {about : LiveBlock → Prop} {r : EStateM.Result Exit Globals Addr}

theorem answers_of_ok {h : Heap} {answer : Addr} {t' : BlockTable}
    (hr : r = .ok answer (s.withHeap h)) (hrep : Represents s.platform h t')
    (hframe : ∀ b ∈ t.live, ¬about b → ∀ a ∈ b.region s.platform,
      h.mem a = s.globalAllocatedBlocks.mem a) :
    Answers s t about r (some answer, t') := by
  subst hr
  exact ⟨rfl, ⟨_, _, _, _, rfl⟩, hrep, hframe⟩

/-- A call that exits has no answer, and changes no block. -/
theorem answers_of_stops (hs : s.Has t)
    (hr : Stops (s.withHeap s.globalAllocatedBlocks.getAllocatedBlocksList) r) :
    Answers s t about r (none, t) := by
  obtain ⟨m, e, o, rfl⟩ := hr
  obtain ⟨hrep, -, hmem⟩ := hs.getAllocatedBlocksList
  exact ⟨rfl, ⟨_, _, _, _, rfl⟩, hrep, fun b _ _ a _ => congrFun hmem a⟩

/-- The table cannot allocate where `_test_malloc` ends the test. -/
theorem alloc_eq_none {p : Platform} {location : SourceLocation} {libc : Option Addr}
    {bytes : List (BitVec 8)} (h : ¬p.Fits bytes.length ∨ libc = none) :
    t.alloc p location libc bytes = (none, t) := by
  cases libc with
  | none => rfl
  | some block => exact if_neg (h.resolve_right nofun)

theorem alloc_eq_some {p : Platform} {location : SourceLocation} {block : Addr}
    {bytes : List (BitVec 8)} (h : p.Fits bytes.length) :
    t.alloc p location (some block) bytes =
      (some (p.payload block), t.insert block location bytes) := if_pos h

/-- Bytes outside a fresh region include those of every live block. -/
theorem BlockTable.Fresh.frame {p : Platform} {size : Nat} {block : Addr} {mem mem' : Nat → BitVec 8}
    (hfresh : t.Fresh p size (some block)) (hfits : p.Fits size)
    (hframe : ∀ a ∉ Set.Ico block (block + p.regionSize size), mem' a = mem a) :
    ∀ b ∈ t.live, ∀ a ∈ b.region p, mem' a = mem a := fun b hb a ha =>
  hframe a fun hin => Set.disjoint_left.mp (hfresh block rfl hfits b hb) hin ha

/-- `_test_malloc`, and what its caller does with the new block. -/
theorem answers_malloc_then (hp : s.platform.Sized) (hs : s.Has t) {size : Nat}
    (hsize : size < s.platform.sizeLimit) {file : CString} {line : Int} {libc : Option Addr}
    (hfresh : t.Fresh s.platform size libc) {f : Addr → CM Addr} {bytes : List (BitVec 8)}
    {g : BlockTable → BlockTable} (hlen : bytes.length = size)
    (hf : ∀ block h, libc = some block → s.platform.Fits size →
      Represents s.platform h (t.insert block (setSourceLocation file line)
        (List.replicate size mallocAllocPattern)) →
      (∀ b ∈ t.live, ∀ a ∈ b.region s.platform, h.mem a = s.globalAllocatedBlocks.mem a) →
      ∃ h', f (s.platform.payload block) (s.withHeap h) =
          .ok (s.platform.payload block) (s.withHeap h') ∧
        Represents s.platform h'
          (g (t.insert block (setSourceLocation file line) bytes)) ∧
        ∀ b ∈ t.live, ¬about b → ∀ a ∈ b.region s.platform, h'.mem a = h.mem a) :
    Answers s t about ((testMalloc size file line libc >>= f) s)
      (match t.alloc s.platform (setSourceLocation file line) libc bytes with
        | (some new, t₁) => (some new, g t₁)
        | (none, t₁) => (none, t₁)) := by
  by_cases hfits : s.platform.Fits size
  · cases libc with
    | none =>
        rw [alloc_eq_none (.inr rfl)]
        exact answers_of_stops hs ((testMalloc_stops hp hsize file line (.inr rfl)).bind f)
    | some block =>
        rw [alloc_eq_some (hlen.symm ▸ hfits)]
        obtain ⟨h, hok, hrep, hframe⟩ := testMalloc_ok hp hs hsize hfits file line hfresh
        have hkept := hfresh.frame hfits hframe
        obtain ⟨h', hok', hrep', hframe'⟩ := hf block h rfl hfits hrep hkept
        refine answers_of_ok ((bind_of_ok hok f).trans hok') hrep' fun b hb hab a ha => ?_
        rw [hframe' b hb hab a ha, hkept b hb a ha]
  · rw [alloc_eq_none (.inl (hlen.symm ▸ hfits))]
    exact answers_of_stops hs ((testMalloc_stops hp hsize file line (.inl hfits)).bind f)

/-- The last block of a table is filled anew. -/
theorem Represents.refill {p : Platform} {h : Heap} {block : Nat} {location : SourceLocation}
    {old bytes : List (BitVec 8)} (hr : Represents p h (t.insert block location old))
    {mem : Nat → BitVec 8} {ptr : Nat} (hptr : ptr = p.payload block)
    (hlen : bytes.length = old.length)
    (hoff : ∀ a, a < ptr ∨ ptr + old.length ≤ a → mem a = h.mem a)
    (hon : readBytes mem ptr bytes.length = bytes) :
    Represents p { h with mem } (t.insert block location bytes) ∧
      ∀ b ∈ t.live, ∀ a ∈ b.region p, mem a = h.mem a := by
  subst hptr
  have hl : (t.insert block location old).live =
      t.live ++ LiveBlock.mk block location t.nextSerial old :: [] := rfl
  refine ⟨hr.store hl hlen hoff hon, fun b hb a ha => hoff a ?_⟩
  have hdisjoint := hr.apart_rest hl b (by rwa [List.append_nil])
  by_contra hin
  obtain ⟨hlo, hhi⟩ := not_or.mp hin
  exact Set.disjoint_left.mp hdisjoint
    (LiveBlock.mem_region ((Nat.sub_le _ _).trans (Nat.le_of_not_lt hlo))
      ((Nat.lt_of_not_le hhi).trans_le (Nat.le_add_right _ _))) ha

/-- The overflow test of `_test_calloc`. -/
theorem calloc_overflow_iff (p : Platform) (n size : Nat) :
    size > 0 ∧ n > (p.sizeLimit - 1) / size ↔ n * size > p.sizeLimit - 1 := by
  rcases Nat.eq_zero_or_pos size with rfl | hpos
  · simp
  · simp only [hpos, true_and, gt_iff_lt, Nat.div_lt_iff_lt_mul hpos]

/-- Nothing is done to the table after the allocation. -/
theorem Answers.of_match {x : Option Addr × BlockTable}
    (h : Answers s t about r (match x with
      | (some new, t₁) => (some new, id t₁)
      | (none, t₁) => (none, t₁))) : Answers s t about r x := by
  rcases x with ⟨- | new, t₁⟩
  · exact h
  · exact h

/-- `_test_malloc` against the table. -/
theorem answers_malloc (hp : s.platform.Sized) (hs : s.Has t) {size : Nat}
    (hsize : size < s.platform.sizeLimit) (file : CString) (line : Int) {libc : Option Addr}
    (hfresh : t.Fresh s.platform size libc) :
    Answers s t about (testMalloc size file line libc s)
      (t.alloc s.platform (setSourceLocation file line) libc
        (List.replicate size mallocAllocPattern)) := by
  rw [← bind_pure (testMalloc size file line libc)]
  exact (answers_malloc_then hp hs hsize hfresh List.length_replicate
    fun block h _ _ hrep _ => ⟨h, rfl, hrep, fun _ _ _ _ _ => rfl⟩).of_match

theorem answers_calloc (hp : s.platform.Sized) (hs : s.Has t) {n size : Nat} (file : CString)
    (line : Int) {libc : Option Addr} (hfresh : t.Fresh s.platform (n * size) libc) :
    Answers s t about (testCalloc n size file line libc s)
      (t.step s.platform (.calloc n size file line libc)) := by
  have hpos : 0 < s.platform.sizeLimit := Nat.two_pow_pos _
  unfold testCalloc BlockTable.step
  rw [bind_apply]
  dsimp only [get_apply]
  by_cases hover : n * size > s.platform.sizeLimit - 1
  · rw [if_pos hover, if_pos ((calloc_overflow_iff s.platform n size).mpr hover)]
    refine answers_of_ok (h := { s.globalAllocatedBlocks with errno := enomem }) rfl ?_
      fun _ _ _ _ _ => rfl
    exact ⟨hs.ring, hs.unstarted, hs.values, fun b hb => (hs.holds b hb).frame rfl fun _ _ => rfl,
      hs.apart, hs.serials, hs.numbered, hs.nextSerial, rfl⟩
  · have hlt : n * size < s.platform.sizeLimit := by omega
    rw [if_neg hover, if_neg (mt (calloc_overflow_iff s.platform n size).mp hover),
      Nat.mod_eq_of_lt hlt]
    refine (answers_malloc_then hp hs hlt hfresh List.length_replicate ?_).of_match
    intro block h _ _ hrep _
    have hoff : ∀ a, a < s.platform.payload block ∨ s.platform.payload block +
        (List.replicate (n * size) mallocAllocPattern).length ≤ a →
        memset h.mem (s.platform.payload block) 0 (n * size) a = h.mem a := by
      intro a ha
      rw [List.length_replicate] at ha
      exact memset_off ha
    have hon : readBytes (memset h.mem (s.platform.payload block) 0 (n * size))
        (s.platform.payload block) (List.replicate (n * size) (0 : BitVec 8)).length =
        List.replicate (n * size) 0 := by
      rw [List.length_replicate]
      exact readBytes_eq_replicate.mpr fun i hi =>
        memset_on (Nat.le_add_right _ i) (Nat.add_lt_add_left hi _)
    obtain ⟨hrep', hframe'⟩ := hrep.refill rfl (by simp) hoff hon
    exact ⟨_, rfl, hrep', fun b hb _ => hframe' b hb⟩

/-! ### `_test_free` -/

/-- The block at a valid pointer. -/
theorem BlockTable.exists_split {p : Platform} {ptr : Nat} (h : ∃ b ∈ t.live, b.ptr p = ptr) :
    ∃ l b l', t.live = l ++ b :: l' ∧ b.ptr p = ptr ∧ (t.remove p ptr).live = l ++ l' ∧
      t.payloadAt p ptr = b.bytes := by
  obtain ⟨c, hc, hcp⟩ := h
  obtain ⟨b, l, l', hl, hb, hlive, herase⟩ :=
    List.exists_of_eraseP (p := fun b : LiveBlock => decide (b.ptr p = ptr)) hc (decide_eq_true hcp)
  refine ⟨l, b, l', hlive, of_decide_eq_true hb, herase, ?_⟩
  have hfind : t.live.find? (fun b => decide (b.ptr p = ptr)) = some b := by
    rw [hlive, List.find?_append, List.find?_eq_none.mpr hl, Option.none_or]
    exact List.find?_cons_of_pos hb
  rw [payloadAt, hfind]
  rfl

/-- No guard of a live block is corrupt. -/
theorem firstCorrupt_eq_none {p : Platform} {h : Heap} {b : LiveBlock} (hb : Holds p h b) :
    firstCorrupt h.mem (b.ptr p) b.bytes.length = none := by
  have hfront := readBytes_eq_replicate.mp hb.frontGuard
  have hrear := readBytes_eq_replicate.mp hb.rearGuard
  refine List.find?_eq_none.mpr fun a ha => ?_
  simp only [guardBytes, List.mem_append, List.mem_map, List.mem_range] at ha
  rcases ha with ⟨i, hi, rfl⟩ | ⟨i, hi, rfl⟩
  · rw [hfront i hi]
    simp
  · rw [hrear i hi]
    simp

section Free

variable {ptr : Nat} {data : MallocBlockInfoData} (hptr : ptr ≠ 0)
  (hinfo : s.globalAllocatedBlocks.info (s.platform.headerOf ptr) = some data)

include hptr hinfo

/-- A block with both guards as they were is given back. -/
theorem testFree_intact (hc : firstCorrupt s.globalAllocatedBlocks.mem ptr data.size = none)
    (file : CString) (line : Int) :
    testFree ptr file line s =
      heapOp (fun h => h.removeBlock (s.platform.headerOf ptr) data) s := by
  rw [testFree, if_neg hptr, bind_apply]
  simp only [get_apply, hinfo, hc]

/-- A block with a corrupt guard is reported. -/
theorem testFree_corrupt {byte : Addr}
    (hc : firstCorrupt s.globalAllocatedBlocks.mem ptr data.size = some byte) (file : CString)
    (line : Int) :
    testFree ptr file line s =
      (cmockaPrintError (corruptReport file line ptr data byte) >>= fun _ => fail file line) s := by
  rw [testFree, if_neg hptr, bind_apply]
  simp only [get_apply, hinfo, hc]

end Free

/-- The block at `b` is given back. -/
theorem testFree_split (hs : s.Has t) {l l' : List LiveBlock} {b : LiveBlock}
    (hl : t.live = l ++ b :: l') (file : CString) (line : Int) :
    ∃ h, testFree (b.ptr s.platform) file line s = .ok () (s.withHeap h) ∧
      Represents s.platform h { t with live := l ++ l' } ∧
      ∀ a ∉ b.region s.platform, h.mem a = s.globalAllocatedBlocks.mem a := by
  have hb : Holds s.platform s.globalAllocatedBlocks b :=
    hs.holds b (hl ▸ List.mem_append_right l List.mem_cons_self)
  obtain ⟨h, hrem, hrep, hframe⟩ := hs.removeBlock hl hb.header
  refine ⟨h, ?_, hrep, hframe⟩
  rw [testFree_intact LiveBlock.ptr_pos.ne' hb.header (firstCorrupt_eq_none hb)]
  exact heapOp_ok hrem

/-- **`_test_free`** of a live block: it is removed, and the others stay. -/
theorem testFree_ok (hs : s.Has t) {ptr : Nat} (hptr : ∃ b ∈ t.live, b.ptr s.platform = ptr)
    (file : CString) (line : Int) :
    ∃ h, testFree ptr file line s = .ok () (s.withHeap h) ∧
      Represents s.platform h (t.remove s.platform ptr) ∧
      ∀ b ∈ t.live, b.ptr s.platform ≠ ptr → ∀ a ∈ b.region s.platform,
        h.mem a = s.globalAllocatedBlocks.mem a := by
  obtain ⟨l, b, l', hl, rfl, hremove, -⟩ := BlockTable.exists_split hptr
  obtain ⟨h, hfree, hrep, hframe⟩ := testFree_split hs hl file line
  rw [← hremove] at hrep
  refine ⟨h, hfree, hrep, fun c hc hne a ha => hframe a fun hin => ?_⟩
  have hcl : c ∈ l ++ l' := by
    rw [hl, List.mem_append, List.mem_cons] at hc
    rcases hc with hc | rfl | hc
    · exact List.mem_append_left l' hc
    · exact absurd rfl hne
    · exact List.mem_append_right l hc
  exact Set.disjoint_left.mp (hs.apart_rest hl c hcl) hin ha

/-! ### `_test_realloc` -/

theorem length_resized (bytes : List (BitVec 8)) (size : Nat) :
    (BlockTable.resized bytes size).length = size := by
  rw [BlockTable.resized, List.length_append, List.length_take, List.length_replicate]
  omega

theorem readBytes_memcpy (mem : Nat → BitVec 8) (dst src n : Nat) :
    readBytes (memcpy mem dst src n) dst n = readBytes mem src n :=
  readBytes_congr fun _ hi => memcpy_on hi

/-- The copy of `_test_realloc` into a fresh payload. -/
theorem readBytes_copied {mem : Nat → BitVec 8} {dst src size : Nat} {bytes : List (BitVec 8)}
    (hsrc : readBytes mem src bytes.length = bytes)
    (hdst : readBytes mem dst size = List.replicate size mallocAllocPattern) :
    readBytes (memcpy mem dst src (if bytes.length < size then bytes.length else size)) dst size =
      BlockTable.resized bytes size := by
  unfold BlockTable.resized
  split
  case isTrue hlt =>
    have hsize : size = bytes.length + (size - bytes.length) := by omega
    have hfresh := readBytes_eq_replicate.mp hdst
    conv_lhs => rw [hsize]
    rw [readBytes_add, readBytes_memcpy, hsrc, List.take_of_length_le hlt.le]
    congr 1
    refine readBytes_eq_replicate.mpr fun i hi => ?_
    rw [memcpy_off (.inr (Nat.le_add_right _ i)), Nat.add_assoc]
    exact hfresh _ (by omega)
  case isFalse hge =>
    have hlen : bytes.length = size + (bytes.length - size) := by omega
    rw [hlen, readBytes_add] at hsrc
    rw [readBytes_memcpy, Nat.sub_eq_zero_of_le (Nat.le_of_not_lt hge), List.replicate_zero,
      List.append_nil, ← hsrc, List.take_left' (length_readBytes _ _ _)]

/-- `_test_realloc` against the table. -/
theorem answers_realloc (hp : s.platform.Sized) (hs : s.Has t) {ptr size : Nat}
    (hsize : size < s.platform.sizeLimit) (hlive : t.Live s.platform ptr) (file : CString)
    (line : Int) {libc : Option Addr} (hfresh : t.Fresh s.platform size libc) :
    Answers s t (fun b => b.ptr s.platform = ptr) (testRealloc ptr size file line libc s)
      (t.step s.platform (.realloc ptr size file line libc)) := by
  unfold testRealloc BlockTable.step
  dsimp only
  by_cases hnull : ptr = 0
  · rw [if_pos hnull, if_pos hnull]
    exact answers_malloc hp hs hsize file line hfresh
  have hptr := hlive.resolve_left hnull
  rw [if_neg hnull, if_neg hnull]
  by_cases hzero : size = 0
  · rw [if_pos hzero, if_pos hzero]
    obtain ⟨h, hfree, hrep, hframe⟩ := testFree_ok hs hptr file line
    exact answers_of_ok (bind_of_ok hfree _) hrep hframe
  rw [if_neg hzero, if_neg hzero]
  obtain ⟨l, b, l', hl, hbptr, -, hbytes⟩ := BlockTable.exists_split hptr
  have hbt : b ∈ t.live := hl ▸ List.mem_append_right l List.mem_cons_self
  rw [hbytes]
  refine answers_malloc_then hp hs hsize hfresh (length_resized b.bytes size) ?_
  intro block h _ _ hrep _
  have hb : Holds s.platform h b := hrep.holds b (List.mem_append_left _ hbt)
  have hnew : readBytes h.mem (s.platform.payload block) size =
      List.replicate size mallocAllocPattern := by
    have hpayload := (hrep.holds _ (List.mem_append_right _ List.mem_cons_self)).payload
    rwa [List.length_replicate] at hpayload
  have hheader : h.info (s.platform.headerOf ptr) = some
      { block := b.block, allocatedSize := s.platform.regionSize b.bytes.length
        size := b.bytes.length, location := b.location, serial := b.serial } := by
    rw [← hbptr]
    exact hb.header
  -- the copy
  obtain ⟨n, hn⟩ : ∃ n, n = if b.bytes.length < size then b.bytes.length else size := ⟨_, rfl⟩
  have hon := readBytes_copied hb.payload hnew
  rw [← hn, hbptr] at hon
  have hoff : ∀ a, a < s.platform.payload block ∨ s.platform.payload block +
      (List.replicate size mallocAllocPattern).length ≤ a →
      memcpy h.mem (s.platform.payload block) ptr n a = h.mem a := by
    intro a ha
    rw [List.length_replicate] at ha
    have hle : n ≤ size := by
      rw [hn]
      split <;> omega
    exact memcpy_off (ha.imp_right (Nat.le_trans (Nat.add_le_add_left hle _)))
  have hlen : (BlockTable.resized b.bytes size).length =
      (List.replicate size mallocAllocPattern).length := by
    rw [length_resized, List.length_replicate]
  obtain ⟨hrep', hframe'⟩ := hrep.refill rfl hlen hoff (by rw [length_resized]; exact hon)
  -- the old block is given back
  have hs' : (s.withHeap { h with mem := memcpy h.mem (s.platform.payload block) ptr n }).Has
      (t.insert block (setSourceLocation file line) (BlockTable.resized b.bytes size)) := hrep'
  obtain ⟨h'', hfree, hrep'', hframe''⟩ := testFree_ok hs'
    ⟨b, List.mem_append_left _ hbt, hbptr⟩ file line
  refine ⟨h'', ?_, hrep'', fun c hc hne a ha => ?_⟩
  · rw [bind_apply]
    dsimp only [get_apply]
    rw [show (s.withHeap h).globalAllocatedBlocks.info ((s.withHeap h).platform.headerOf ptr) = _
      from hheader]
    dsimp only
    rw [← hn]
    exact bind_of_ok hfree _
  · rw [hframe'' c (List.mem_append_left _ hc) hne a ha]
    exact hframe' c hc a ha

theorem answers_free (hs : s.Has t) {ptr : Nat} (hlive : t.Live s.platform ptr) (file : CString)
    (line : Int) :
    Answers s t (fun b => b.ptr s.platform = ptr) ((AllocOp.free ptr file line).exec s)
      (t.step s.platform (.free ptr file line)) := by
  unfold AllocOp.exec BlockTable.step
  dsimp only
  by_cases hnull : ptr = 0
  · rw [if_pos hnull, testFree, if_pos hnull]
    exact answers_of_ok rfl hs fun _ _ _ _ _ => rfl
  · rw [if_neg hnull]
    obtain ⟨h, hfree, hrep, hframe⟩ := testFree_ok hs (hlive.resolve_left hnull) file line
    exact answers_of_ok (bind_of_ok hfree _) hrep hframe

/-! ### Stores of the program -/

theorem readBytes_update (mem : Nat → BitVec 8) (a n i : Nat) (byte : BitVec 8) :
    readBytes (Function.update mem (a + i) byte) a n = (readBytes mem a n).set i byte := by
  refine List.ext_getElem (by simp) fun j hj _ => ?_
  simp [readBytes, List.getElem_set, Function.update_apply, eq_comm]

/-- A store into one block of the table. -/
theorem BlockTable.write_live {p : Platform} {l l' : List LiveBlock} {b : LiveBlock} {dst : Nat}
    (hl : t.live = l ++ b :: l') (hrest : ∀ c ∈ l ++ l', dst ∉ c.region p)
    (hin : b.ptr p ≤ dst ∧ dst < b.ptr p + b.bytes.length) (byte : BitVec 8) :
    t.write p dst byte =
      { t with live := l ++ { b with bytes := b.bytes.set (dst - b.ptr p) byte } :: l' } := by
  have hout : ∀ c ∈ l ++ l', ¬(c.ptr p ≤ dst ∧ dst < c.ptr p + c.bytes.length) := by
    rintro c hc ⟨hlo, hhi⟩
    exact hrest c hc (LiveBlock.mem_region (by omega) (by omega))
  have hid : ∀ m : List LiveBlock, (∀ c ∈ m, c ∈ l ++ l') → m.map (fun c =>
      if c.ptr p ≤ dst ∧ dst < c.ptr p + c.bytes.length then
        { c with bytes := c.bytes.set (dst - c.ptr p) byte } else c) = m := by
    intro m hm
    conv_rhs => rw [← List.map_id m]
    exact List.map_congr_left fun c hc => if_neg (hout c (hm c hc))
  unfold write
  rw [hl, List.map_append, List.map_cons, if_pos hin, hid l fun c => List.mem_append_left l',
    hid l' fun c => List.mem_append_right l]

/-- A store into a block against the table. -/
theorem answers_write (hs : s.Has t) {dst : Nat} (byte : BitVec 8)
    (hin : ∃ b ∈ t.live, b.ptr s.platform ≤ dst ∧ dst < b.ptr s.platform + b.bytes.length) :
    Answers s t (fun b => dst ∈ b.region s.platform) ((AllocOp.write dst byte).exec s)
      (t.step s.platform (.write dst byte)) := by
  obtain ⟨b, hb, hlo, hhi⟩ := hin
  obtain ⟨l, l', hl⟩ := List.append_of_mem hb
  have hdst : dst ∈ b.region s.platform := LiveBlock.mem_region (by omega) (by omega)
  have hrest : ∀ c ∈ l ++ l', dst ∉ c.region s.platform := fun c hc =>
    Set.disjoint_left.mp (hs.apart_rest hl c hc) hdst
  have hoff : ∀ a, a < b.ptr s.platform ∨ b.ptr s.platform + b.bytes.length ≤ a →
      Function.update s.globalAllocatedBlocks.mem dst byte a = s.globalAllocatedBlocks.mem a := by
    intro a ha
    have hne : a ≠ dst := by
      rintro rfl
      omega
    exact Function.update_of_ne hne _ _
  have hon : readBytes (Function.update s.globalAllocatedBlocks.mem dst byte) (b.ptr s.platform)
      (b.bytes.set (dst - b.ptr s.platform) byte).length =
      b.bytes.set (dst - b.ptr s.platform) byte := by
    have hsplit : dst = b.ptr s.platform + (dst - b.ptr s.platform) := by omega
    rw [List.length_set]
    conv_lhs => rw [hsplit]
    rw [readBytes_update, (hs.holds b hb).payload]
  have hrep := hs.store hl (List.length_set ..) hoff hon
  have hstep : t.step s.platform (.write dst byte) = (some 0, _) :=
    congrArg (Prod.mk (some 0)) (BlockTable.write_live hl hrest ⟨hlo, hhi⟩ byte)
  rw [hstep]
  refine answers_of_ok rfl hrep fun c _ hout a ha => ?_
  refine Function.update_of_ne ?_ _ _
  rintro rfl
  exact hout ha

/-! ### Sequences of calls -/

/-- The blocks whose memory a call is about. -/
def AllocOp.About (p : Platform) : AllocOp → LiveBlock → Prop
  | .malloc .., _ => False
  | .calloc .., _ => False
  | .realloc ptr .., b => b.ptr p = ptr
  | .free ptr .., b => b.ptr p = ptr
  | .write dst _, b => dst ∈ b.region p

/-- How the calls of a sequence end, and the state after it. -/
def runCalls : List AllocOp → Globals → List (Except Exit Addr) × Globals
  | [], s => ([], s)
  | op :: ops, s =>
      (outcome (op.exec s) :: (runCalls ops (final (op.exec s))).1,
        (runCalls ops (final (op.exec s))).2)

/-- Every call refines its step of the table. -/
theorem answers_exec (hp : s.platform.Sized) (hs : s.Has t) {op : AllocOp}
    (hallowed : t.Allows s.platform op) :
    Answers s t (op.About s.platform) (op.exec s) (t.step s.platform op) := by
  cases op with
  | malloc size file line libc => exact answers_malloc hp hs hallowed.1 file line hallowed.2
  | calloc n size file line libc => exact answers_calloc hp hs file line hallowed.2.2
  | realloc ptr size file line libc =>
      exact answers_realloc hp hs hallowed.1 hallowed.2.1 file line hallowed.2.2
  | free ptr file line => exact answers_free hs hallowed file line
  | write dst byte => exact answers_write hs byte hallowed

/-- Printing and allocating do not decide where `exit_test` goes. -/
theorem Inert.exitOf_eq {s s' : Globals} (h : Inert s s') (reason : Reason) :
    s'.exitOf reason = s.exitOf reason := by
  obtain ⟨_, _, _, _, rfl⟩ := h
  rfl

theorem Inert.platform_eq {s s' : Globals} (h : Inert s s') : s'.platform = s.platform := by
  obtain ⟨_, _, _, _, rfl⟩ := h
  rfl

theorem runCalls_refines (hp : s.platform.Sized) (hs : s.Has t) {ops : List AllocOp}
    (hallowed : t.AllowsAll s.platform ops) :
    (runCalls ops s).1 =
        (t.run s.platform ops).1.map (·.elim (.error (s.exitOf .fail)) .ok) ∧
      Inert s (runCalls ops s).2 ∧ (runCalls ops s).2.Has (t.run s.platform ops).2 := by
  induction ops generalizing s t with
  | nil => exact ⟨rfl, refl_of Inert s, hs⟩
  | cons op ops ih =>
      obtain ⟨hop, hrest⟩ := hallowed
      have hans := answers_exec hp hs hop
      have hplatform := hans.inert.platform_eq
      obtain ⟨hout, hinert, hrep⟩ := ih (hplatform ▸ hp) hans.represents (hplatform ▸ hrest)
      rw [hplatform, hans.inert.exitOf_eq] at hout
      rw [hplatform] at hrep
      refine ⟨?_, trans_of Inert hans.inert hinert, hrep⟩
      change _ :: _ = _ :: List.map _ _
      rw [hans.outcome, hout]

/-- The zeroed list of blocks represents the empty table. -/
theorem represents_zeroed (p : Platform) :
    Represents p (Globals.initial p).globalAllocatedBlocks .empty where
  ring := ⟨List.nodup_singleton _, rfl, rfl⟩
  unstarted _ := rfl
  values _ := rfl
  holds _ hb := by cases hb
  apart := .nil
  serials := .nil
  numbered _ hn := by cases hn
  nextSerial := rfl
  errno := rfl

/-- `_test_calloc` returns `NULL` exactly if the product of its arguments is no `size_t`. -/
theorem calloc_null_iff (hp : s.platform.Sized) (hs : s.Has t) {n size : Nat} {file : CString}
    {line : Int} {libc : Option Addr}
    (hallowed : t.Allows s.platform (.calloc n size file line libc)) :
    outcome ((AllocOp.calloc n size file line libc).exec s) = .ok 0 ↔
      n * size > s.platform.sizeLimit - 1 := by
  rw [(answers_exec hp hs hallowed).outcome, BlockTable.step]
  by_cases hover : n * size > s.platform.sizeLimit - 1
  · simp [hover]
  · rw [if_neg hover]
    refine iff_of_false ?_ hover
    by_cases hfits : s.platform.Fits (List.replicate (n * size) (0 : BitVec 8)).length
    · cases libc with
      | none => exact nofun
      | some block =>
          rw [alloc_eq_some hfits]
          intro he
          have hpos := LiveBlock.ptr_pos (p := s.platform)
            (b := ⟨block, initializeSourceLocation, 0, []⟩)
          exact hpos.ne' (Except.ok.inj he)
    · rw [alloc_eq_none (.inl hfits)]
      exact nofun

/-- **The tracked allocator refines the table of live blocks**: from the start of the process, a
sequence of calls on valid pointers and of stores into live payloads gets the answers of the table
and leaves the memory of its last state.  There, no call changes a byte of the region of a block it
is not about, and `_test_calloc` returns `NULL` exactly on overflow. -/
theorem tracked_allocator_refines_table (s : Globals) (hp : s.platform.Sized)
    (hs : s.globalAllocatedBlocks = (Globals.initial s.platform).globalAllocatedBlocks)
    (ops : List AllocOp) (hops : BlockTable.empty.AllowsAll s.platform ops) :
    (runCalls ops s).1 =
        (BlockTable.empty.run s.platform ops).1.map (·.elim (.error (s.exitOf .fail)) .ok) ∧
    Represents s.platform (runCalls ops s).2.globalAllocatedBlocks
        (BlockTable.empty.run s.platform ops).2 ∧
    (∀ op, (BlockTable.empty.run s.platform ops).2.Allows s.platform op →
      ∀ b ∈ (BlockTable.empty.run s.platform ops).2.live, ¬op.About s.platform b →
      ∀ a ∈ b.region s.platform,
        (final (op.exec (runCalls ops s).2)).globalAllocatedBlocks.mem a =
          (runCalls ops s).2.globalAllocatedBlocks.mem a) ∧
    ∀ n size file line libc,
      (BlockTable.empty.run s.platform ops).2.Allows s.platform (.calloc n size file line libc) →
      (outcome ((AllocOp.calloc n size file line libc).exec (runCalls ops s).2) = .ok 0 ↔
        n * size > s.platform.sizeLimit - 1) := by
  have hempty : s.Has .empty := by
    change Represents _ _ _
    rw [hs]
    exact represents_zeroed s.platform
  obtain ⟨hout, hinert, hrep⟩ := runCalls_refines hp hempty hops
  have hplatform := hinert.platform_eq
  refine ⟨hout, hplatform ▸ hrep, fun op hop b hb hab a ha => ?_,
    fun n size file line libc hallowed => ?_⟩
  · have hans := answers_exec (hplatform ▸ hp) hrep (by rwa [hplatform])
    exact hans.frame b hb (by rwa [hplatform]) a (by rwa [hplatform])
  · rw [← hplatform]
    exact calloc_null_iff (hplatform ▸ hp) hrep (by rwa [hplatform])

/-- The process makes, fills, enlarges and gives back a block. -/
def enlargingCalls : List AllocOp :=
  [.malloc 2 "t.c".toList 1 (some 4096), .write 4193 7, .realloc 4192 3 "t.c".toList 3 (some 8192),
    .calloc 2 (2 ^ 63) "t.c".toList 4 none, .free 8288 "t.c".toList 5]

theorem enlargingCalls_refine :
    BlockTable.empty.AllowsAll .lp64 enlargingCalls ∧
      (runCalls enlargingCalls (.initial .lp64)).1 =
        [.ok 4192, .ok 0, .ok 8288, .ok 0, .ok 0] := by
  have hallowed : BlockTable.empty.AllowsAll .lp64 enlargingCalls := by
    refine ⟨⟨by decide, fun _ _ _ b hb => by cases hb⟩,
      ⟨_, List.mem_cons_self, by decide, by decide⟩,
      ⟨by decide, .inr ⟨_, List.mem_cons_self, by decide⟩, ?_⟩, ⟨by decide, by decide, nofun⟩,
      .inr ⟨_, List.mem_cons_self, by decide⟩, trivial⟩
    rintro block ⟨⟩ - b hb
    obtain rfl := List.mem_singleton.mp hb
    refine Set.disjoint_left.mpr fun a hnew hold => ?_
    exact absurd (hold.2.trans_le (by decide)) (Nat.not_lt.mpr hnew.1)
  refine ⟨hallowed, ?_⟩
  have hrun := (tracked_allocator_refines_table (.initial .lp64) (by decide) rfl enlargingCalls
    hallowed).1
  rw [hrun]
  decide +kernel

end Cmocka
