import Mathlib.Data.BitVec
import Cmocka.Alloc.Refinement

/-!
# Alloc — the guards

`_test_free` compares the sixteen bytes on either side of a payload with the pattern `_test_malloc`
left there, by a subtraction narrowed to `char`.  The guards are found from the size in the header,
which stores around the payload do not reach; so after any of them the comparison sees exactly the
bytes of the guards of its block, whichever sign `char` has (`guard_check_exact`).
-/

namespace Cmocka

open Runs Ring NodeHeap

variable {p : Platform} {s : Globals} {t : BlockTable}

/-! ### The comparison -/

/-- The value of a `char`. -/
def charValue (signed : Bool) (byte : BitVec 8) : Int :=
  if signed then byte.toInt else byte.toNat

/-- `const char diff = guard[j] - MALLOC_GUARD_PATTERN`: the operands are promoted to `int`, and the
difference is narrowed to `char`. -/
def charDiff (signed : Bool) (byte : BitVec 8) : Int :=
  charValue signed (BitVec.ofInt 8 (charValue signed byte - mallocGuardPattern.toNat))

/-- `firstCorrupt`, with the comparison as the compiler makes it. -/
def firstCorruptChar (signed : Bool) (mem : Addr → BitVec 8) (ptr : Addr) (size : Nat) :
    Option Addr :=
  (guardBytes ptr size).find? fun a => charDiff signed (mem a) != 0

theorem charValue_eq_zero (signed : Bool) (byte : BitVec 8) :
    charValue signed byte = 0 ↔ byte = 0 := by
  cases signed with
  | true => simp [charValue, ← BitVec.toInt_inj]
  | false => simp [charValue, BitVec.toNat_eq]

theorem ofInt_charValue (signed : Bool) (byte : BitVec 8) :
    BitVec.ofInt 8 (charValue signed byte) = byte := by
  cases signed with
  | true => exact BitVec.ofInt_toInt
  | false => simp [charValue]

/-- The narrowed difference is zero for the pattern and nothing else. -/
theorem charDiff_eq_zero (signed : Bool) (byte : BitVec 8) :
    charDiff signed byte = 0 ↔ byte = mallocGuardPattern := by
  rw [charDiff, charValue_eq_zero, Int.sub_eq_add_neg, BitVec.ofInt_add, BitVec.ofInt_neg,
    ofInt_charValue, BitVec.ofInt_natCast, BitVec.ofNat_toNat, BitVec.setWidth_eq,
    ← BitVec.sub_eq_add_neg]
  exact sub_eq_zero

/-- **The sign of `char` does not matter.** -/
theorem firstCorruptChar_eq (signed : Bool) (mem : Addr → BitVec 8) (ptr : Addr) (size : Nat) :
    firstCorruptChar signed mem ptr size = firstCorrupt mem ptr size := by
  have hdiff : ∀ byte, (charDiff signed byte != 0) = (byte - mallocGuardPattern != 0) := by
    intro byte
    rw [Bool.eq_iff_iff, bne_iff_ne, bne_iff_ne]
    exact (charDiff_eq_zero signed byte).not.trans sub_ne_zero.symm
  simp only [firstCorruptChar, firstCorrupt, hdiff]

/-- The addresses of the guards of the payload of `size` bytes at `ptr`. -/
def guards (ptr size : Nat) : Set Nat :=
  Set.Ico (ptr - mallocGuardSize) ptr ∪ Set.Ico (ptr + size) (ptr + size + mallocGuardSize)

theorem mem_guardBytes {ptr size a : Nat} (hptr : mallocGuardSize ≤ ptr) :
    a ∈ guardBytes ptr size ↔ a ∈ guards ptr size := by
  simp only [guardBytes, guards, List.mem_append, List.mem_map, List.mem_range, Set.mem_union,
    Set.mem_Ico]
  constructor
  · rintro (⟨i, hi, rfl⟩ | ⟨i, hi, rfl⟩) <;> omega
  · rintro (⟨hlo, hhi⟩ | ⟨hlo, hhi⟩)
    · exact .inl ⟨a - (ptr - mallocGuardSize), by omega, by omega⟩
    · exact .inr ⟨a - (ptr + size), by omega, by omega⟩

/-- A corrupt byte is found if and only if there is one. -/
theorem firstCorrupt_isSome {mem : Nat → BitVec 8} {ptr size : Nat} (hptr : mallocGuardSize ≤ ptr) :
    (firstCorrupt mem ptr size).isSome ↔ ∃ a ∈ guards ptr size, mem a ≠ mallocGuardPattern := by
  rw [firstCorrupt, List.find?_isSome]
  constructor
  · rintro ⟨a, ha, hne⟩
    exact ⟨a, (mem_guardBytes hptr).mp ha, sub_ne_zero.mp (bne_iff_ne.mp hne)⟩
  · rintro ⟨a, ha, hne⟩
    exact ⟨a, (mem_guardBytes hptr).mpr ha, bne_iff_ne.mpr (sub_ne_zero.mpr hne)⟩

/-! ### A returned block -/

/-- The size a call asks for. -/
def AllocOp.requests : AllocOp → Option Nat
  | .malloc size .. => some size
  | .calloc n size .. => some (n * size)
  | .realloc _ size .. => some size
  | _ => none

theorem alloc_live {location : SourceLocation} {libc : Option Addr} {bytes : List (BitVec 8)}
    {ptr : Nat} (h : (t.alloc p location libc bytes).1 = some ptr) :
    ∃ block, ptr = p.payload block ∧
      t.alloc p location libc bytes = (some ptr, t.insert block location bytes) := by
  cases libc with
  | none => cases h
  | some block =>
      by_cases hfits : p.Fits bytes.length
      · rw [alloc_eq_some hfits] at h ⊢
        cases h
        exact ⟨block, rfl, rfl⟩
      · rw [alloc_eq_none (.inl hfits)] at h
        cases h

/-- A call that returns a pointer leaves a block of the requested size there. -/
theorem step_returns_block {op : AllocOp} {size ptr : Nat} (hallowed : t.Allows p op)
    (hreq : op.requests = some size) (h : (t.step p op).1 = some ptr) (hptr : ptr ≠ 0) :
    ∃ b ∈ (t.step p op).2.live, b.ptr p = ptr ∧ b.bytes.length = size := by
  have hnew : ∀ {location : SourceLocation} {libc : Option Addr} {bytes : List (BitVec 8)},
      (t.alloc p location libc bytes).1 = some ptr → bytes.length = size →
      ∃ b ∈ (t.alloc p location libc bytes).2.live, b.ptr p = ptr ∧ b.bytes.length = size := by
    intro location libc bytes ha hlen
    obtain ⟨block, hblock, he⟩ := alloc_live ha
    rw [he]
    exact ⟨_, List.mem_append_right _ List.mem_cons_self, hblock.symm, hlen⟩
  cases op with
  | malloc size' file line libc =>
      cases hreq
      exact hnew h List.length_replicate
  | calloc n size' file line libc =>
      cases hreq
      simp only [BlockTable.step] at h ⊢
      split at h
      · cases h
        exact absurd rfl hptr
      case isFalse hfits =>
        rw [if_neg hfits]
        exact hnew h List.length_replicate
  | realloc old size' file line libc =>
      cases hreq
      simp only [BlockTable.step] at h ⊢
      split at h
      case isTrue hnull =>
        rw [if_pos hnull]
        exact hnew h List.length_replicate
      case isFalse hnull =>
        rw [if_neg hnull]
        split at h
        · cases h
          exact absurd rfl hptr
        case isFalse hzero =>
          rw [if_neg hzero]
          cases ha : (t.alloc p (setSourceLocation file line) libc
              (BlockTable.resized (t.payloadAt p old) size)).1 with
          | none =>
              rw [← Prod.eta (t.alloc p (setSourceLocation file line) libc
                (BlockTable.resized (t.payloadAt p old) size)), ha] at h
              cases h
          | some new =>
              obtain ⟨block, hblock, he⟩ := alloc_live ha
              rw [he] at h ⊢
              cases h
              -- the old block comes before the new one, so that one is taken out
              obtain ⟨b, hb, hbptr⟩ := hallowed.2.1.resolve_left hnull
              refine ⟨⟨block, setSourceLocation file line, t.nextSerial,
                BlockTable.resized (t.payloadAt p old) size⟩, ?_, hblock.symm, length_resized _ _⟩
              dsimp only [BlockTable.remove, BlockTable.insert]
              rw [List.eraseP_append_left (p := fun b : LiveBlock => decide (b.ptr p = old))
                (decide_eq_true hbptr) _ hb]
              exact List.mem_append_right _ List.mem_cons_self
  | free ptr' file line => cases hreq
  | write dst byte => cases hreq

/-! ### Stores around a payload -/

/-- The stores `ws`, in order. -/
def stores (mem : Nat → BitVec 8) (ws : List (Nat × BitVec 8)) : Nat → BitVec 8 :=
  ws.foldl (fun mem w => Function.update mem w.1 w.2) mem

/-- The program stores bytes. -/
def storeCalls (ws : List (Nat × BitVec 8)) : List AllocOp := ws.map fun w => .write w.1 w.2

theorem runCalls_stores (ws : List (Nat × BitVec 8)) (s : Globals) :
    (runCalls (storeCalls ws) s).2 = s.withHeap
      { s.globalAllocatedBlocks with mem := stores s.globalAllocatedBlocks.mem ws } := by
  induction ws generalizing s with
  | nil => rfl
  | cons w ws ih => exact ih _

theorem stores_off {mem : Nat → BitVec 8} {ws : List (Nat × BitVec 8)} {a : Nat}
    (h : ∀ w ∈ ws, w.1 ≠ a) : stores mem ws a = mem a := by
  induction ws generalizing mem with
  | nil => rfl
  | cons w ws ih =>
      refine (ih fun w' hw' => h w' (by simp [hw'])).trans ?_
      exact Function.update_of_ne (Ne.symm (h w (by simp))) _ _

/-- A store that is not undone. -/
theorem stores_last {mem : Nat → BitVec 8} {ws ws' : List (Nat × BitVec 8)} {a : Nat}
    {byte : BitVec 8} (h : ∀ w ∈ ws', w.1 ≠ a) : stores mem (ws ++ (a, byte) :: ws') a = byte := by
  rw [stores, List.foldl_append]
  exact (stores_off h).trans (Function.update_self _ _ _)

/-- `_test_free` reports a corrupt guard and ends the test. -/
structure SignalsCorruption (ptr : Addr) (file : CString) (line : Int) (s : Globals) : Prop where
  reported : ∃ data byte, testFree ptr file line s = (do
    cmockaPrintError (corruptReport file line ptr data byte)
    fail file line) s
  stops : Stops s (testFree ptr file line s)

/-- What `_test_free` does with a block, whatever the bytes around it are. -/
theorem testFree_guards (hs : s.Has t) {b : LiveBlock} (hb : b ∈ t.live) (mem : Nat → BitVec 8)
    (file : CString) (line : Int) {s' : Globals}
    (hs' : s' = s.withHeap { s.globalAllocatedBlocks with mem }) :
    ((∃ a ∈ guards (b.ptr s.platform) b.bytes.length, mem a ≠ mallocGuardPattern) ∧
      SignalsCorruption (b.ptr s.platform) file line s') ∨
    ((∀ a ∈ guards (b.ptr s.platform) b.bytes.length, mem a = mallocGuardPattern) ∧
      ∃ s'', testFree (b.ptr s.platform) file line s' = .ok () s'') := by
  subst hs'
  have hheld := hs.holds b hb
  have hptr : b.ptr s.platform ≠ 0 := LiveBlock.ptr_pos.ne'
  have hguard : mallocGuardSize ≤ b.ptr s.platform := by
    obtain ⟨-, hptr, -⟩ := b.layout s.platform
    omega
  cases hc : firstCorrupt mem (b.ptr s.platform) b.bytes.length with
  | some byte =>
      have hfree := testFree_corrupt
        (s := s.withHeap { s.globalAllocatedBlocks with mem }) hptr hheld.header hc file line
      refine .inl ⟨(firstCorrupt_isSome hguard).mp (by rw [hc]; rfl), ⟨_, byte, hfree⟩, ?_⟩
      rw [hfree]
      exact stops_print (stops_fail file line) _ _
  | none =>
      have hfree := testFree_intact
        (s := s.withHeap { s.globalAllocatedBlocks with mem }) hptr hheld.header hc file line
      refine .inr ⟨fun a ha => ?_, ?_⟩
      · by_contra hne
        have hsome := (firstCorrupt_isSome hguard).mpr ⟨a, ha, hne⟩
        rw [hc] at hsome
        cases hsome
      · obtain ⟨l, l', hl⟩ := List.append_of_mem hb
        -- the list of blocks is as it was
        obtain ⟨h, hrem, -, -⟩ := hs.removeBlock hl hheld.header
        obtain ⟨nodes, hnodes, -⟩ := Option.map_eq_some_iff.mp hrem
        obtain ⟨h', hrem'⟩ : ∃ h', Heap.removeBlock { s.globalAllocatedBlocks with mem }
            (b.info s.platform)
            { block := b.block, allocatedSize := s.platform.regionSize b.bytes.length
              size := b.bytes.length, location := b.location, serial := b.serial } = some h' :=
          ⟨_, congrArg (Option.map _) hnodes⟩
        exact ⟨_, hfree.trans (heapOp_ok hrem')⟩

/-- **Guard checking has no false alarms and no misses.**  Take any pointer `_test_malloc`,
`_test_calloc` or `_test_realloc` returned for `size` bytes, and any stores into the payload and the
guards; none of them reaches the header.  `_test_free` then reports a corruption and ends the test
if and only if a byte of a guard differs from the pattern, and returns otherwise; so it returns
after stores into the payload alone, and reports any store of another byte into a guard that is not
undone.  The sign of `char` is not relevant. -/
theorem guard_check_exact (hp : s.platform.Sized) (hs : s.Has t) {op : AllocOp}
    (hallowed : t.Allows s.platform op) {size ptr : Nat} (hreq : op.requests = some size)
    {s₁ : Globals} (hop : op.exec s = .ok ptr s₁) (hptr : ptr ≠ 0) (ws : List (Nat × BitVec 8))
    (hws : ∀ w ∈ ws, w.1 ∈ Set.Ico (ptr - mallocGuardSize) (ptr + size + mallocGuardSize))
    (file : CString) (line : Int) {s₂ : Globals} (hs₂ : s₂ = (runCalls (storeCalls ws) s₁).2) :
    (∀ w ∈ ws, s.platform.headerOf ptr + s.platform.sizeofMallocBlockInfoData ≤ w.1) ∧
    (SignalsCorruption ptr file line s₂ ↔
      ∃ a ∈ guards ptr size, s₂.globalAllocatedBlocks.mem a ≠ mallocGuardPattern) ∧
    (¬SignalsCorruption ptr file line s₂ → ∃ s₃, testFree ptr file line s₂ = .ok () s₃) ∧
    ((∀ w ∈ ws, w.1 ∈ Set.Ico ptr (ptr + size)) →
      ∃ s₃, testFree ptr file line s₂ = .ok () s₃) ∧
    (∀ before a byte after, ws = before ++ (a, byte) :: after → a ∈ guards ptr size →
      byte ≠ mallocGuardPattern → (∀ w ∈ after, w.1 ≠ a) →
      SignalsCorruption ptr file line s₂) ∧
    ∀ signed, firstCorruptChar signed s₂.globalAllocatedBlocks.mem ptr size =
      firstCorrupt s₂.globalAllocatedBlocks.mem ptr size := by
  have hans := answers_exec hp hs hallowed
  have hout := hans.outcome
  have hhas : s₁.Has (t.step s.platform op).2 := by
    have hrep := hans.represents
    rwa [hop] at hrep
  have hplatform : s₁.platform = s.platform := by
    have hi := hans.inert.platform_eq
    rwa [hop] at hi
  have hans₁ : (t.step s.platform op).1 = some ptr := by
    rw [hop] at hout
    cases hstep : (t.step s.platform op).1 with
    | none =>
        rw [hstep] at hout
        cases hout
    | some q =>
        rw [hstep] at hout
        cases hout
        rfl
  obtain ⟨b, hb, hbptr, hblen⟩ := step_returns_block hallowed hreq hans₁ hptr
  rw [runCalls_stores] at hs₂
  have hcases := testFree_guards hhas hb _ file line hs₂
  have hmem : s₂.globalAllocatedBlocks.mem = stores s₁.globalAllocatedBlocks.mem ws := by
    rw [hs₂]
    rfl
  rw [hplatform, hbptr, hblen, ← hmem] at hcases
  -- reporting and returning exclude each other
  have hexcl : SignalsCorruption ptr file line s₂ →
      ¬∃ s₃, testFree ptr file line s₂ = .ok () s₃ := by
    rintro ⟨-, m, e, o, hstop⟩ ⟨s₃, hok⟩
    cases hstop.symm.trans hok
  have hiff : SignalsCorruption ptr file line s₂ ↔
      ∃ a ∈ guards ptr size, s₂.globalAllocatedBlocks.mem a ≠ mallocGuardPattern := by
    rcases hcases with ⟨hbad, hsig⟩ | ⟨hgood, hok⟩
    · exact ⟨fun _ => hbad, fun _ => hsig⟩
    · refine ⟨fun hsig => absurd hok (hexcl hsig), fun ⟨a, ha, hne⟩ => absurd (hgood a ha) hne⟩
  have hreturns : ¬SignalsCorruption ptr file line s₂ →
      ∃ s₃, testFree ptr file line s₂ = .ok () s₃ := by
    intro hno
    rcases hcases with ⟨-, hsig⟩ | ⟨-, hok⟩
    · exact absurd hsig hno
    · exact hok
  have hroom : mallocGuardSize + s.platform.sizeofMallocBlockInfoData ≤ ptr := by
    obtain ⟨-, hlayout, -⟩ := b.layout s.platform
    omega
  refine ⟨fun w hw => ?_, hiff, hreturns, fun hin => hreturns fun hsig => ?_, ?_,
    fun signed => firstCorruptChar_eq signed _ ptr size⟩
  · obtain ⟨hlo, -⟩ := hws w hw
    change ptr - (mallocGuardSize + s.platform.sizeofMallocBlockInfoData) +
      s.platform.sizeofMallocBlockInfoData ≤ w.1
    omega
  · -- the guards are as `_test_malloc` left them
    obtain ⟨a, ha, hne⟩ := hiff.mp hsig
    rw [hmem, stores_off fun w hw he => ?_] at hne
    · have hheld := hhas.holds b hb
      rw [hplatform] at hheld
      have hclean := firstCorrupt_eq_none hheld
      rw [hbptr, hblen] at hclean
      have hsome := (firstCorrupt_isSome (by omega)).mpr ⟨a, ha, hne⟩
      rw [hclean] at hsome
      cases hsome
    · obtain ⟨hlo, hhi⟩ := hin w hw
      simp only [guards, Set.mem_union, Set.mem_Ico] at ha
      omega
  · rintro before a byte after rfl ha hne hafter
    refine hiff.mpr ⟨a, ha, ?_⟩
    rw [hmem, stores_last hafter]
    exact hne

/-- One byte is stored behind a payload of one byte. -/
theorem overrun_signalled :
    SignalsCorruption 4192 "t.c".toList 3 (runCalls (storeCalls [(4193, 0)])
      (final ((AllocOp.malloc 1 "t.c".toList 1 (some 4096)).exec (.initial .lp64)))).2 := by
  have hallowed : BlockTable.empty.Allows .lp64 (.malloc 1 "t.c".toList 1 (some 4096)) :=
    ⟨by decide, fun _ _ _ b hb => by cases hb⟩
  have hexact := guard_check_exact (s := .initial .lp64) (by decide) (represents_zeroed .lp64)
    hallowed rfl (eq_ok_of_value (a := 4192) (by decide +kernel)) (by decide) [(4193, 0)]
    (by simp [mallocGuardSize]) "t.c".toList 3 rfl
  exact hexact.2.2.2.2.1 [] 4193 0 [] rfl (by simp [guards, mallocGuardSize]) (by decide) (by simp)

end Cmocka
