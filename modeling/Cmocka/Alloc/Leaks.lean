import Mathlib.Data.List.Perm.Subperm
import Cmocka.Alloc.Refinement

/-!
# Alloc — the leak detector

A check point is the node of the block that was allocated last, or the head of an empty list.  Later
blocks come after that node, so a walk from it meets the blocks allocated since — as long as the
node is there.  Once its block is freed or reallocated the check point is a stale pointer: the walk
is undefined, or, if a later block got the same address, starts behind that block and misses it.
So the detector is exact if and only if the last block of the check point is still live
(`leak_check_exact_iff`).
-/

namespace Cmocka

open Runs Ring NodeHeap

variable {p : Platform} {h : Heap} {s : Globals} {t t' : BlockTable} {l l' : List LiveBlock}

/-! ### What is left of an earlier table -/

/-- `t'` is a later table than `t`: a block of it that is not new is a block of `t`. -/
structure BlockTable.Later (t t' : BlockTable) : Prop where
  nextSerial : t.nextSerial ≤ t'.nextSerial
  old : ∀ c ∈ t'.live, c.serial < t.nextSerial →
    ∃ b ∈ t.live, b.serial = c.serial ∧ b.block = c.block

namespace BlockTable

theorem Later.refl (t : BlockTable) : t.Later t := ⟨le_rfl, fun c hc _ => ⟨c, hc, rfl, rfl⟩⟩

theorem Later.trans {t₁ : BlockTable} (h : t.Later t₁) (h' : t₁.Later t') : t.Later t' where
  nextSerial := h.nextSerial.trans h'.nextSerial
  old := by
    intro c hc hserial
    obtain ⟨b', hb', hserial', hblock'⟩ := h'.old c hc (hserial.trans_le h.nextSerial)
    obtain ⟨b, hb, hbs, hbb⟩ := h.old b' hb' (hserial' ▸ hserial)
    exact ⟨b, hb, hbs.trans hserial', hbb.trans hblock'⟩

theorem Later.insert (t : BlockTable) (block : Addr) (location : SourceLocation)
    (bytes : List (BitVec 8)) : t.Later (t.insert block location bytes) where
  nextSerial := Nat.le_succ _
  old := by
    intro c hc hserial
    rcases List.mem_append.mp hc with hc | hc
    · exact ⟨c, hc, rfl, rfl⟩
    · obtain rfl := List.mem_singleton.mp hc
      exact absurd hserial (Nat.lt_irrefl _)

theorem Later.remove (t : BlockTable) (p : Platform) (ptr : Addr) : t.Later (t.remove p ptr) where
  nextSerial := le_rfl
  old c hc _ := ⟨c, List.mem_of_mem_eraseP hc, rfl, rfl⟩

theorem Later.write (t : BlockTable) (p : Platform) (dst : Addr) (byte : BitVec 8) :
    t.Later (t.write p dst byte) where
  nextSerial := le_rfl
  old := by
    intro c hc _
    obtain ⟨b, hb, rfl⟩ := List.mem_map.mp hc
    refine ⟨b, hb, ?_, ?_⟩ <;> split <;> rfl

theorem Later.alloc (t : BlockTable) (p : Platform) (location : SourceLocation)
    (libc : Option Addr) (bytes : List (BitVec 8)) :
    t.Later (t.alloc p location libc bytes).2 := by
  unfold BlockTable.alloc
  split
  · split
    · exact .insert t _ _ _
    · exact .refl t
  · exact .refl t

theorem Later.step (t : BlockTable) (p : Platform) (op : AllocOp) : t.Later (t.step p op).2 := by
  cases op with
  | malloc size file line libc => exact .alloc ..
  | calloc n size file line libc =>
      dsimp only [BlockTable.step]
      split
      · exact ⟨le_rfl, fun c hc _ => ⟨c, hc, rfl, rfl⟩⟩
      · exact .alloc ..
  | realloc ptr size file line libc =>
      dsimp only [BlockTable.step]
      split
      · exact .alloc ..
      · split
        · exact .remove ..
        · have halloc := Later.alloc t p (setSourceLocation file line) libc
            (resized (t.payloadAt p ptr) size)
          split
          case h_1 heq =>
            rw [heq] at halloc
            exact halloc.trans (.remove ..)
          case h_2 heq =>
            rw [heq] at halloc
            exact halloc
  | free ptr file line =>
      dsimp only [BlockTable.step]
      split
      · exact .refl t
      · exact .remove ..
  | write dst byte => exact .write ..

theorem Later.run (t : BlockTable) (p : Platform) (ops : List AllocOp) :
    t.Later (t.run p ops).2 := by
  induction ops generalizing t with
  | nil => exact .refl t
  | cons op ops ih => exact (Later.step t p op).trans (ih _)

end BlockTable

/-! ### Walking the list -/

/-- The nodes of a list of blocks. -/
def nodesOf (p : Platform) (l : List LiveBlock) : List BlockNode :=
  l.map fun b => .header (b.info p)

/-- The node between the first blocks of a table and the rest. -/
theorem Represents.cell_at (hr : Represents p h t) (hl : t.live = l ++ l') :
    ∃ cell, h.nodes ((nodesOf p l).getLastD .head) = some cell ∧
      cell.next = (nodesOf p l').headD .head := by
  have hring := hr.ring
  rw [BlockTable.headers, hl, List.map_append] at hring
  have hnext : h.nodes.nextOf ((nodesOf p l).getLastD .head) =
      some ((nodesOf p l').headD .head) := by
    rcases List.eq_nil_or_concat' l with rfl | ⟨k, b, rfl⟩
    · exact hring.forward.first
    · have hring' : h.nodes.Rings .head
          (nodesOf p k ++ .header (b.info p) :: nodesOf p l') := by
        simpa [nodesOf] using hring
      have hlast : (nodesOf p (k ++ [b])).getLastD .head = .header (b.info p) := by
        rw [nodesOf, List.map_append]
        exact List.getLastD_concat ..
      rw [hlast]
      exact hring'.neighbours.2
  exact Option.map_eq_some_iff.mp hnext

/-- The node of a block, its value and its successor. -/
theorem Represents.cell (hr : Represents p h t) {b : LiveBlock} (hl : t.live = l ++ b :: l') :
    ∃ cell, h.nodes (.header (b.info p)) = some cell ∧ cell.value = b.info p ∧
      cell.next = (nodesOf p l').headD .head := by
  have hl' : t.live = (l ++ [b]) ++ l' := by rw [hl, List.append_assoc, List.singleton_append]
  obtain ⟨cell, hcell, hnext⟩ := hr.cell_at hl'
  have hlast : (nodesOf p (l ++ [b])).getLastD .head = .header (b.info p) := by
    rw [nodesOf, List.map_append]
    exact List.getLastD_concat ..
  rw [hlast] at hcell
  refine ⟨cell, hcell, ?_, hnext⟩
  have hvalue := hr.values (b.info p)
  have hmem : .header (b.info p) ∈ t.headers p :=
    List.mem_map_of_mem (hl ▸ List.mem_append_right l List.mem_cons_self)
  rw [if_pos hmem, valueOf, hcell] at hvalue
  exact Option.some.inj hvalue

/-- There are at most as many live blocks as there were allocations. -/
theorem Represents.length_le (hr : Represents p h t) : t.live.length ≤ h.nextSerial := by
  rw [hr.nextSerial, ← List.length_map LiveBlock.serial, ← List.length_range (n := t.nextSerial)]
  refine (List.Nodup.subperm (hr.serials.imp Nat.ne_of_lt) fun n hn => ?_).length_le
  exact List.mem_range.mpr (hr.numbered n hn)

/-- The loop of `display_allocated_blocks` counts the blocks it meets. -/
theorem displayLoop_counts (hs : s.Has t) (hl : t.live = l ++ l') {bound : Nat}
    (hbound : l'.length < bound) (n : Nat) :
    ∃ cmErrorMessage, displayLoop bound ((nodesOf s.platform l').headD .head) n s =
      .ok (n + l'.length) { s with cmErrorMessage } := by
  induction l' generalizing s l bound n with
  | nil =>
      obtain ⟨bound, rfl⟩ := Nat.exists_eq_succ_of_ne_zero hbound.ne'
      exact ⟨_, rfl⟩
  | cons b l' ih =>
      obtain ⟨bound, rfl⟩ := Nat.exists_eq_succ_of_ne_zero (Nat.ne_of_gt (Nat.zero_lt_of_lt hbound))
      obtain ⟨cell, hcell, hvalue, hnext⟩ := hs.cell hl
      have hb := (hs.holds b (hl ▸ List.mem_append_right l List.mem_cons_self)).header
      have hl' : t.live = (l ++ [b]) ++ l' := by rw [hl, List.append_assoc, List.singleton_append]
      have hrest : ∀ text cmErrorMessage, ∃ m, (do
          cmockaPrintError text
          displayLoop bound cell.next (n + 1) : CM Nat) { s with cmErrorMessage } =
          .ok (n + (l'.length + 1)) { s with cmErrorMessage := m } := by
        intro text cmErrorMessage
        obtain ⟨m, hm⟩ := ih
          (s := { s with cmErrorMessage := vcmockaPrintError cmErrorMessage text }) hs hl'
          (Nat.lt_of_succ_lt_succ hbound) (n + 1)
        refine ⟨m, ?_⟩
        rw [hnext, Nat.add_comm l'.length 1, ← Nat.add_assoc]
        exact hm
      change ∃ m, displayLoop (bound + 1) (.header (b.info s.platform)) n s = _
      rw [displayLoop, if_neg nofun, bind_apply]
      dsimp only [get_apply]
      rw [hcell]
      dsimp only
      rw [hvalue, hb]
      dsimp only
      -- the heading is printed before the first block only; the count is the same
      by_cases hn : n = 0
      · rw [if_pos hn]
        exact hrest _ _
      · rw [if_neg hn]
        exact hrest _ _

/-- From the node between the first blocks and the rest, the rest is counted. -/
theorem displayAllocatedBlocks_at (hs : s.Has t) (hl : t.live = l ++ l') :
    ∃ cmErrorMessage, displayAllocatedBlocks ((nodesOf s.platform l).getLastD .head) s =
      .ok l'.length { s.withHeap s.globalAllocatedBlocks.getAllocatedBlocksList with
        cmErrorMessage } := by
  obtain ⟨hrep, -, -⟩ := hs.getAllocatedBlocksList
  obtain ⟨cell, hcell, hnext⟩ := hrep.cell_at hl
  have hbound : l'.length < s.globalAllocatedBlocks.getAllocatedBlocksList.nextSerial + 1 := by
    have hle := hrep.length_le
    rw [hl, List.length_append] at hle
    omega
  obtain ⟨m, hm⟩ := displayLoop_counts
    (s := s.withHeap s.globalAllocatedBlocks.getAllocatedBlocksList) hrep hl hbound 0
  refine ⟨m, ?_⟩
  rw [displayAllocatedBlocks, bind_apply]
  dsimp only [modify_apply]
  rw [bind_apply]
  dsimp only [get_apply]
  rw [hcell]
  dsimp only
  rw [Nat.zero_add] at hm
  rw [hnext]
  exact hm

/-- The loop of `free_allocated_blocks` frees the blocks it meets. -/
theorem freeLoop_frees (hs : s.Has t) (hl : t.live = l ++ l') {bound : Nat}
    (hbound : l'.length < bound) :
    ∃ h, freeLoop bound ((nodesOf s.platform l').headD .head) s = .ok () (s.withHeap h) ∧
      Represents s.platform h { t with live := l } := by
  induction l' generalizing s t bound with
  | nil =>
      obtain ⟨bound, rfl⟩ := Nat.exists_eq_succ_of_ne_zero hbound.ne'
      rw [List.append_nil] at hl
      refine ⟨s.globalAllocatedBlocks, rfl, ?_⟩
      rw [← hl]
      exact hs
  | cons b l' ih =>
      obtain ⟨bound, rfl⟩ := Nat.exists_eq_succ_of_ne_zero (Nat.ne_of_gt (Nat.zero_lt_of_lt hbound))
      obtain ⟨cell, hcell, hvalue, hnext⟩ := hs.cell hl
      have hptr : s.platform.payloadOf cell.value = b.ptr s.platform := by
        rw [hvalue]
        exact (b.layout s.platform).2.1
      obtain ⟨h, hfree, hrep, -⟩ := testFree_split hs hl cmockaFile 2870
      obtain ⟨h', hloop, hrep'⟩ := ih (s := s.withHeap h) hrep rfl (Nat.lt_of_succ_lt_succ hbound)
      refine ⟨h', ?_, hrep'⟩
      change freeLoop (bound + 1) (.header (b.info s.platform)) s = _
      rw [freeLoop, if_neg nofun, bind_apply]
      dsimp only [get_apply]
      rw [hcell]
      dsimp only
      rw [hptr, bind_of_ok hfree, hnext]
      exact hloop

/-- From the node between the first blocks and the rest, the rest is freed. -/
theorem freeAllocatedBlocks_frees (hs : s.Has t) (hl : t.live = l ++ l') :
    ∃ h, freeAllocatedBlocks ((nodesOf s.platform l).getLastD .head) s = .ok () (s.withHeap h) ∧
      Represents s.platform h { t with live := l } := by
  obtain ⟨cell, hcell, hnext⟩ := hs.cell_at hl
  have hbound : l'.length < s.globalAllocatedBlocks.nextSerial + 1 := by
    have hle := hs.length_le
    rw [hl, List.length_append] at hle
    omega
  obtain ⟨h, hloop, hrep⟩ := freeLoop_frees hs hl hbound
  refine ⟨h, ?_, hrep⟩
  rw [freeAllocatedBlocks, bind_apply]
  dsimp only [get_apply]
  rw [hcell]
  dsimp only
  rw [hnext, hloop]

/-- The leak check from that node leaves the first blocks. -/
theorem failIfBlocksAllocated_at (hs : s.Has t) (hl : t.live = l ++ l') (testName : CString) :
    (final (failIfBlocksAllocated ((nodesOf s.platform l).getLastD .head) testName s)).Has
      { t with live := l } := by
  obtain ⟨m, hcount⟩ := displayAllocatedBlocks_at hs hl
  obtain ⟨hrep, -, -⟩ := hs.getAllocatedBlocksList
  rw [failIfBlocksAllocated, bind_of_ok hcount]
  by_cases hnone : l'.length > 0
  · obtain ⟨s₁, hs₁, hplatform, hhas⟩ : ∃ s₁, s₁ =
        { s.withHeap s.globalAllocatedBlocks.getAllocatedBlocksList with cmErrorMessage := m } ∧
        s₁.platform = s.platform ∧ s₁.Has t := ⟨_, rfl, rfl, hrep⟩
    rw [if_pos hnone, ← hs₁, ← hplatform]
    obtain ⟨h, hfree, hrep'⟩ := freeAllocatedBlocks_frees hhas hl
    rw [bind_of_ok hfree, bind_apply]
    dsimp only [cmockaPrintError, modify_apply]
    rw [exitTest_apply]
    exact hrep'
  · obtain rfl := List.eq_nil_of_length_eq_zero (Nat.eq_zero_of_not_pos hnone)
    rw [List.append_nil] at hl
    rw [if_neg hnone, ← hl]
    exact hrep

/-! ### Check points -/

/-- A check point is the node of the last block, or the head. -/
theorem checkPointAllocatedBlocks_eq (hs : s.Has t) :
    checkPointAllocatedBlocks s = .ok ((nodesOf s.platform t.live).getLastD .head)
      (s.withHeap s.globalAllocatedBlocks.getAllocatedBlocksList) := by
  obtain ⟨hrep, -, -⟩ := hs.getAllocatedBlocksList
  obtain ⟨cell, hcell, hprev⟩ := Option.map_eq_some_iff.mp hrep.ring.back.first
  rw [headD_reverse] at hprev
  rw [checkPointAllocatedBlocks, bind_apply]
  dsimp only [modify_apply]
  rw [bind_apply]
  dsimp only [get_apply]
  rw [hcell]
  dsimp only
  rw [hprev]
  rfl

/-- The leak check of `checkPoint` in a state with the blocks of `t`, of which those from the `n`-th
allocation on are new: the check point is in the list, the number of new blocks is reported, and
exactly they are freed. -/
structure LeakCheckExact (checkPoint : BlockNode) (testName : CString) (s : Globals)
    (t : BlockTable) (n : Nat) : Prop where
  inList : checkPoint ∈ .head :: t.headers s.platform
  counted : ∃ s', displayAllocatedBlocks checkPoint s =
    .ok (t.live.countP fun b => n ≤ b.serial) s'
  freed : (final (failIfBlocksAllocated checkPoint testName s)).Has
    { t with live := t.live.filter fun b => b.serial < n }

/-- A check point between the old blocks and the new ones is exact. -/
theorem leakCheckExact_of_split (hs : s.Has t) (hl : t.live = l ++ l') {n : Nat}
    (hold : ∀ b ∈ l, b.serial < n) (hnew : ∀ b ∈ l', n ≤ b.serial) (testName : CString) :
    LeakCheckExact ((nodesOf s.platform l).getLastD .head) testName s t n where
  inList := by
    have hmem := getLastD_mem (nodesOf s.platform l) .head
    rw [BlockTable.headers, hl, List.map_append]
    exact List.mem_append_left _ hmem
  counted := by
    obtain ⟨m, hm⟩ := displayAllocatedBlocks_at hs hl
    have hzero : l.countP (fun b => n ≤ b.serial) = 0 :=
      List.countP_eq_zero.mpr fun b hb => by simpa using hold b hb
    have hall : l'.countP (fun b => n ≤ b.serial) = l'.length :=
      List.countP_eq_length.mpr fun b hb => by simpa using hnew b hb
    rw [hl, List.countP_append, hzero, hall, Nat.zero_add]
    exact ⟨_, hm⟩
  freed := by
    have hfilter : t.live.filter (fun b => b.serial < n) = l := by
      rw [hl, List.filter_append, List.filter_eq_self.mpr fun b hb => by simpa using hold b hb,
        List.filter_eq_nil_iff.mpr fun b hb => by simpa using hnew b hb, List.append_nil]
    rw [hfilter]
    exact failIfBlocksAllocated_at hs hl testName

/-- The serial numbers around a block. -/
theorem Represents.serials_split (hr : Represents p h t) {c : LiveBlock}
    (hl : t.live = l ++ c :: l') :
    (∀ b ∈ l, b.serial < c.serial) ∧ ∀ b ∈ l', c.serial < b.serial := by
  have hserials := hr.serials
  rw [hl, List.map_append, List.map_cons, List.pairwise_append, List.pairwise_cons] at hserials
  obtain ⟨-, ⟨hafter, -⟩, hbefore⟩ := hserials
  exact ⟨fun b hb => hbefore _ (List.mem_map_of_mem hb) _ List.mem_cons_self,
    fun b hb => hafter _ (List.mem_map_of_mem hb)⟩

/-- Blocks of a table are told apart by their serial numbers. -/
theorem Represents.eq_of_serial (hr : Represents p h t) {b c : LiveBlock} (hb : b ∈ t.live)
    (hc : c ∈ t.live) (heq : b.serial = c.serial) : b = c := by
  have hnodup : (t.live.map LiveBlock.serial).Nodup := hr.serials.imp Nat.ne_of_lt
  exact List.inj_on_of_nodup_map hnodup hb hc heq

/-- Blocks of a table are told apart by their headers. -/
theorem Represents.eq_of_info (hr : Represents p h t) {b c : LiveBlock} (hb : b ∈ t.live)
    (hc : c ∈ t.live) (heq : b.info p = c.info p) : b = c := by
  have hnodup : (t.live.map fun b => BlockNode.header (b.info p)).Nodup :=
    (List.nodup_cons.mp hr.ring.nodup).2
  exact List.inj_on_of_nodup_map hnodup hb hc (congrArg BlockNode.header heq)

/-- While the last block of the check point is live, the later blocks come after it. -/
theorem leakCheckExact_of_live (hs : s.Has t') {h₀ : Heap} (hr : Represents s.platform h₀ t)
    (hlater : t.Later t') (testName : CString)
    (hlast : ∀ b, t.live.getLast? = some b → ∃ c ∈ t'.live, c.serial = b.serial) :
    LeakCheckExact ((nodesOf s.platform t.live).getLastD .head) testName s t' t.nextSerial := by
  rcases List.eq_nil_or_concat' t.live with hnil | ⟨k, b, hk⟩
  · rw [hnil]
    refine leakCheckExact_of_split (l := []) hs rfl (by simp) (fun c hc => ?_) testName
    by_contra hlt
    obtain ⟨b, hb, -⟩ := hlater.old c hc (Nat.lt_of_not_le hlt)
    rw [hnil] at hb
    cases hb
  · have hbt : b ∈ t.live := hk ▸ List.mem_append_right k List.mem_cons_self
    have hbn : b.serial < t.nextSerial := hr.numbered _ (List.mem_map_of_mem hbt)
    obtain ⟨c, hc, hcb⟩ := hlast b (by rw [hk, List.getLast?_concat])
    -- the block still lies where it was
    obtain ⟨b', hb', hserial, hblock⟩ := hlater.old c hc (hcb.trans_lt hbn)
    obtain rfl := hr.eq_of_serial hb' hbt (hserial.trans hcb)
    have hinfo : c.info s.platform = b'.info s.platform := by
      rw [LiveBlock.info, LiveBlock.info, LiveBlock.ptr, LiveBlock.ptr, hblock]
    obtain ⟨l, l', hl⟩ := List.append_of_mem hc
    obtain ⟨hbefore, hafter⟩ := hs.serials_split hl
    have hnode : (nodesOf s.platform t.live).getLastD .head =
        (nodesOf s.platform (l ++ [c])).getLastD .head := by
      rw [hk, nodesOf, nodesOf, List.map_append, List.map_append, List.map_singleton,
        List.map_singleton, List.getLastD_concat, List.getLastD_concat, hinfo]
    rw [hnode]
    refine leakCheckExact_of_split hs (by rw [hl, List.append_assoc, List.singleton_append])
      (fun x hx => ?_) (fun x hx => ?_) testName
    · rcases List.mem_append.mp hx with hx | hx
      · exact (hbefore x hx).trans (hcb.trans_lt hbn)
      · exact List.mem_singleton.mp hx ▸ hcb.trans_lt hbn
    · by_contra hlt
      obtain ⟨y, hy, hys, -⟩ := hlater.old x (hl ▸ List.mem_append_right l (.tail c hx))
        (Nat.lt_of_not_le hlt)
      have hle : y.serial ≤ b'.serial := by
        rw [hk] at hy
        rcases List.mem_append.mp hy with hy | hy
        · exact ((hr.serials_split hk).1 y hy).le
        · rw [List.mem_singleton.mp hy]
      have hgt := hafter x hx
      omega

/-- Once it is not, the check point is stale: it is not in the list, or it is the node of a newer
block, which the walk misses. -/
theorem live_of_leakCheckExact (hs : s.Has t') {h₀ : Heap} (hr : Represents s.platform h₀ t)
    (hlater : t.Later t') {testName : CString} (hexact : LeakCheckExact
      ((nodesOf s.platform t.live).getLastD .head) testName s t' t.nextSerial)
    {b : LiveBlock} (hb : t.live.getLast? = some b) : ∃ c ∈ t'.live, c.serial = b.serial := by
  obtain ⟨k, hk⟩ := List.getLast?_eq_some_iff.mp hb
  have hbt : b ∈ t.live := hk ▸ List.mem_append_right k List.mem_cons_self
  have hnode : (nodesOf s.platform t.live).getLastD .head = .header (b.info s.platform) := by
    rw [hk, nodesOf, List.map_append, List.map_singleton, List.getLastD_concat]
  have hin := hexact.inList
  rw [hnode, BlockTable.headers, List.mem_cons, List.mem_map] at hin
  obtain ⟨c, hc, hcb⟩ := hin.resolve_left BlockNode.noConfusion
  have hinfo : c.info s.platform = b.info s.platform := by
    injection hcb
  by_cases hold : c.serial < t.nextSerial
  · obtain ⟨b', hb', hserial, hblock⟩ := hlater.old c hc hold
    have hinfo' : b'.info s.platform = b.info s.platform := by
      rw [← hinfo, LiveBlock.info, LiveBlock.info, LiveBlock.ptr, LiveBlock.ptr, hblock]
    obtain rfl := hr.eq_of_info hb' hbt hinfo'
    exact ⟨c, hc, hserial.symm⟩
  · -- the walk starts behind `c`, which is new itself
    exfalso
    obtain ⟨l, l', hl⟩ := List.append_of_mem hc
    have hl' : t'.live = (l ++ [c]) ++ l' := by rw [hl, List.append_assoc, List.singleton_append]
    obtain ⟨-, hafter⟩ := hs.serials_split hl
    obtain ⟨m, hm⟩ := displayAllocatedBlocks_at hs hl'
    obtain ⟨s', hcount⟩ := hexact.counted
    have hnode' : (nodesOf s.platform (l ++ [c])).getLastD .head = .header (b.info s.platform) := by
      rw [nodesOf, List.map_append, List.map_singleton, List.getLastD_concat, hinfo]
    rw [hnode', ← hnode, hcount] at hm
    have hlen : t'.live.countP (fun b => t.nextSerial ≤ b.serial) = l'.length := by
      injection hm
    have hall : (c :: l').countP (fun b => t.nextSerial ≤ b.serial) = (c :: l').length := by
      refine List.countP_eq_length.mpr fun x hx => ?_
      rcases List.mem_cons.mp hx with rfl | hx
      · simpa using hold
      · simpa using (Nat.le_of_not_lt hold).trans (hafter x hx).le
    rw [hl, List.countP_append, hall, List.length_cons] at hlen
    omega

/-- **The leak detector** is exact, for every check point and every later sequence of calls, if and
only if the block that was last when the check point was taken has not been freed or reallocated
since. -/
theorem leak_check_exact_iff (s : Globals) (t : BlockTable) (hp : s.platform.Sized) (hs : s.Has t)
    (ops : List AllocOp) (hops : t.AllowsAll s.platform ops) (testName : CString) :
    ∃ checkPoint s₁, checkPointAllocatedBlocks s = .ok checkPoint s₁ ∧
      (LeakCheckExact checkPoint testName (runCalls ops s₁).2 (t.run s.platform ops).2
          t.nextSerial ↔
        ∀ b, t.live.getLast? = some b →
          ∃ c ∈ (t.run s.platform ops).2.live, c.serial = b.serial) := by
  obtain ⟨s₁, hs₁, hplatform₁, hhas₁⟩ : ∃ s₁, s₁ =
      s.withHeap s.globalAllocatedBlocks.getAllocatedBlocksList ∧ s₁.platform = s.platform ∧
      s₁.Has t := ⟨_, rfl, rfl, hs.getAllocatedBlocksList.1⟩
  refine ⟨_, s₁, hs₁ ▸ checkPointAllocatedBlocks_eq hs, ?_⟩
  rw [← hplatform₁] at hp hops ⊢
  obtain ⟨-, hinert, hhas₂⟩ := runCalls_refines hp hhas₁ hops
  have hlater := BlockTable.Later.run t s₁.platform ops
  have hr : Represents (runCalls ops s₁).2.platform s₁.globalAllocatedBlocks t := by
    rw [hinert.platform_eq]
    exact hhas₁
  have hnodes : nodesOf s₁.platform t.live = nodesOf (runCalls ops s₁).2.platform t.live := by
    rw [hinert.platform_eq]
  rw [hnodes]
  constructor
  · exact fun hexact b hb => live_of_leakCheckExact hhas₂ hr hlater hexact hb
  · exact fun hlast => leakCheckExact_of_live hhas₂ hr hlater testName hlast

/-- `malloc(1)` in a setup function. -/
def setupMalloc : AllocOp := .malloc 1 "test.c".toList 12 (some 4096)

/-- `free(*state)` in the test. -/
def bodyFree : AllocOp := .free 4192 "test.c".toList 27

theorem setupMalloc_detected :
    Platform.lp64.Sized ∧ (Globals.initial .lp64).Has .empty ∧
      BlockTable.empty.AllowsAll .lp64 [setupMalloc] ∧
      ∃ checkPoint s₁, checkPointAllocatedBlocks (.initial .lp64) = .ok checkPoint s₁ ∧
        LeakCheckExact checkPoint "test".toList (runCalls [setupMalloc] s₁).2
          (BlockTable.empty.run .lp64 [setupMalloc]).2 0 := by
  have hallowed : BlockTable.empty.AllowsAll .lp64 [setupMalloc] :=
    ⟨⟨by decide, fun _ _ _ b hb => by cases hb⟩, trivial⟩
  have hempty : (Globals.initial .lp64).Has .empty := represents_zeroed .lp64
  obtain ⟨checkPoint, s₁, hcheck, hiff⟩ := leak_check_exact_iff (.initial .lp64) .empty (by decide)
    hempty [setupMalloc] hallowed "test".toList
  exact ⟨by decide, hempty, hallowed, checkPoint, s₁, hcheck, hiff.mpr nofun⟩

/-- A test that frees the block its setup function allocated leaves a stale check point. -/
theorem freed_block_check_point_stale :
    BlockTable.empty.AllowsAll .lp64 [setupMalloc, bodyFree] ∧
      ∃ checkPoint s₁, checkPointAllocatedBlocks (runCalls [setupMalloc] (.initial .lp64)).2 =
          .ok checkPoint s₁ ∧
        ¬LeakCheckExact checkPoint "test".toList (runCalls [bodyFree] s₁).2
          (BlockTable.empty.run .lp64 [setupMalloc, bodyFree]).2 1 := by
  refine ⟨⟨⟨by decide, fun _ _ _ b hb => by cases hb⟩,
    .inr ⟨_, List.mem_cons_self, by decide⟩, trivial⟩, .header 4104, _,
    eq_ok_of_value (by decide +kernel), fun hexact => ?_⟩
  obtain ⟨s', hcount⟩ := hexact.counted
  have hnone : value (displayAllocatedBlocks (.header 4104) (runCalls [bodyFree]
      (final (checkPointAllocatedBlocks (runCalls [setupMalloc] (.initial .lp64)).2))).2) =
      none := by
    decide +kernel
  rw [hcount] at hnone
  cases hnone

end Cmocka
