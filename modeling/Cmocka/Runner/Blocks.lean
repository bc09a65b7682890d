import Cmocka.Alloc.Leaks
import Cmocka.Runner.Callback

/-!
# Runner — the blocks of a test

The leak check stands behind the call of the test function, on the way of a normal return.  A test
that ends by `stop()` comes back by `cm_longjmp`, where only the leftover values are looked at.  So
a test that passes has given back its blocks, unless it called `stop()` while some were live
(`passing_test_freed_iff`).
-/

namespace Cmocka

open Runs Ring NodeHeap

variable {p : Platform} {s : Globals} {t : BlockTable}

/-! ### The calls of a body -/

/-- The call, as one a callback makes. -/
def AllocOp.toOp : AllocOp → Op
  | .malloc size file line libc => .testMalloc size file line libc
  | .calloc n size file line libc => .testCalloc n size file line libc
  | .realloc ptr size file line libc => .testRealloc ptr size file line libc
  | .free ptr file line => .testFree ptr file line
  | .write dst byte => .storeByte dst byte

theorem toOp_exec (op : AllocOp) (s : Globals) :
    op.toOp.exec s = match op.exec s with
      | .ok _ s' => .ok () s'
      | .error e s' => .error e s' := by
  have hdiscard : ∀ x : CM Addr, (do let _ ← x : CM Unit) s = match x s with
      | .ok _ s' => .ok () s'
      | .error e s' => .error e s' := by
    intro x
    rw [bind_apply]
    cases x s <;> rfl
  cases op with
  | malloc size file line libc => exact hdiscard _
  | calloc n size file line libc => exact hdiscard _
  | realloc ptr size file line libc => exact hdiscard _
  | free ptr file line =>
      change testFree ptr file line s = _
      rw [AllocOp.exec, bind_apply]
      cases testFree ptr file line s <;> rfl
  | write dst byte => rfl

namespace BlockTable

/-- The table after the calls of a body up to the first that ends the test, and whether there was
none. -/
def runBody (t : BlockTable) (p : Platform) : List AllocOp → Bool × BlockTable
  | [] => (true, t)
  | op :: ops =>
      match t.step p op with
      | (some _, t') => t'.runBody p ops
      | (none, t') => (false, t')

/-- Every call a body gets to is allowed where it is made. -/
def AllowsBody (t : BlockTable) (p : Platform) : List AllocOp → Prop
  | [] => True
  | op :: ops => t.Allows p op ∧ ((t.step p op).1.isSome → (t.step p op).2.AllowsBody p ops)

theorem Later.runBody (t : BlockTable) (p : Platform) (ops : List AllocOp) :
    t.Later (t.runBody p ops).2 := by
  induction ops generalizing t with
  | nil => exact .refl t
  | cons op ops ih =>
      have hstep := Later.step t p op
      unfold BlockTable.runBody
      split
      case h_1 t' he =>
        rw [he] at hstep
        exact hstep.trans (ih t')
      case h_2 t' he =>
        rw [he] at hstep
        exact hstep

end BlockTable

/-- **The calls of a body** go as the table says: all return, or one ends the test. -/
theorem execOps_runBody (hp : s.platform.Sized) (hs : s.Has t) {ops : List AllocOp}
    (hallowed : t.AllowsBody s.platform ops) :
    ∃ s', Inert s s' ∧ s'.Has (t.runBody s.platform ops).2 ∧
      execOps (ops.map AllocOp.toOp) s =
        if (t.runBody s.platform ops).1 then .ok () s' else .error (s.exitOf .fail) s' := by
  induction ops generalizing s t with
  | nil => exact ⟨s, refl_of Inert s, hs, rfl⟩
  | cons op ops ih =>
      obtain ⟨hop, hrest⟩ := hallowed
      have hans := answers_exec hp hs hop
      have hplatform := hans.inert.platform_eq
      have hexec := toOp_exec op s
      rcases hstep : t.step s.platform op with ⟨- | answer, t'⟩
      · -- the test ends here
        rw [hstep] at hans
        rw [eq_error_of_outcome hans.outcome] at hexec
        refine ⟨final (op.exec s), hans.inert, ?_, ?_⟩
        · rw [BlockTable.runBody, hstep]
          exact hans.represents
        · rw [BlockTable.runBody, hstep]
          exact bind_of_error hexec _
      · -- the call returned, and the rest goes on from the table it left
        rw [hstep] at hans hrest
        rw [eq_ok_of_outcome hans.outcome] at hexec
        obtain ⟨s', hi, hhas, he⟩ := ih (s := final (op.exec s)) (hplatform ▸ hp) hans.represents
          (hplatform ▸ hrest rfl)
        rw [hplatform, hans.inert.exitOf_eq] at he
        rw [hplatform] at hhas
        refine ⟨s', trans_of Inert hans.inert hi, ?_, ?_⟩
        · rw [BlockTable.runBody, hstep]
          exact hhas
        · rw [BlockTable.runBody, hstep]
          exact (bind_of_ok hexec _).trans he

/-! ### The memory of the allocator after the callback -/

theorem heap_hasLeftoverValues (s : Globals) :
    (final (hasLeftoverValues s)).globalAllocatedBlocks = s.globalAllocatedBlocks ∧
      (final (hasLeftoverValues s)).platform = s.platform := ⟨rfl, rfl⟩

/-- A test that returned passed the leak check, and nothing was allocated or given back after it. -/
theorem runCallback_test_ok {functionName : CString} {f : UserFn} {checkPoint : BlockNode}
    {s s₁ : Globals} {b : Int × Ending}
    (h : runCallback functionName f .test checkPoint s = .ok b s₁) :
    ∃ code s₂ s₃, f.script.exec (s.calling f) = .ok code s₂ ∧
      failIfBlocksAllocated checkPoint functionName s₂ = .ok () s₃ ∧
      s₁.globalAllocatedBlocks = s₃.globalAllocatedBlocks ∧ s₁.platform = s₃.platform := by
  obtain ⟨code, s₂, h₂, h⟩ := bind_eq_ok.mp h
  obtain ⟨_, s₃, h₃, h⟩ := bind_eq_ok.mp h
  obtain ⟨_, s₄, h₄, h⟩ := bind_eq_ok.mp h
  cases h
  obtain ⟨leftover, s₅, h₅, h₆⟩ := bind_eq_ok.mp h₄
  have hheap := heap_hasLeftoverValues s₃
  rw [h₅] at hheap
  refine ⟨code, s₂, s₃, h₂, h₃, ?_⟩
  cases leftover with
  | true => cases (exitTest_apply .fail s₅).symm.trans h₆
  | false =>
      cases h₆
      exact hheap

/-- Nothing is allocated or given back after a `cm_longjmp`. -/
theorem runAfterLongjmp_heap {reason : Reason} {s s₁ : Globals} {b : Int × Ending}
    (h : runAfterLongjmp reason s = .ok b s₁) :
    s₁.globalAllocatedBlocks = s.globalAllocatedBlocks ∧ s₁.platform = s.platform := by
  obtain ⟨_, s₂, h₂, h⟩ := bind_eq_ok.mp h
  cases h₂
  obtain ⟨_, s₃, h₃, h⟩ := bind_eq_ok.mp h
  cases h₃
  split at h
  · obtain ⟨leftover, s₄, h₄, h⟩ := bind_eq_ok.mp h
    have hheap := heap_hasLeftoverValues { s with globalRunningTest := false }
    rw [h₄] at hheap
    cases h
    exact hheap
  · cases h
    exact ⟨rfl, rfl⟩

/-! ### What is left of a body -/

/-- No block from the `n`-th allocation on is live. -/
def Freed (n : Nat) (s : Globals) : Prop := ∃ t, s.Has t ∧ ∀ b ∈ t.live, b.serial < n

/-- The memory decides which blocks are live. -/
theorem Represents.serial_mem {h : Heap} {t' : BlockTable} (hr : Represents p h t)
    (hr' : Represents p h t') {b : LiveBlock} (hb : b ∈ t.live) :
    ∃ b' ∈ t'.live, b'.serial = b.serial := by
  have hin : .header (b.info p) ∈ t.headers p := List.mem_map_of_mem hb
  have hvalue := hr.values (b.info p)
  rw [if_pos hin, hr'.values] at hvalue
  split at hvalue
  case isTrue hmem =>
    obtain ⟨b', hb', he⟩ := List.mem_map.mp hmem
    have hinfo : b'.info p = b.info p := by injection he
    have hheader := (hr'.holds b' hb').header
    rw [hinfo, (hr.holds b hb).header] at hheader
    refine ⟨b', hb', ?_⟩
    simpa using (congrArg (Option.map MallocBlockInfoData.serial) hheader).symm
  case isFalse => cases hvalue

theorem Freed.iff_of_has {t : BlockTable} (hs : s.Has t) {n : Nat} :
    Freed n s ↔ ¬∃ b ∈ t.live, n ≤ b.serial := by
  constructor
  · rintro ⟨t', hs', hold⟩ ⟨b, hb, hnew⟩
    obtain ⟨b', hb', he⟩ := hs.serial_mem hs' hb
    have hlt := hold b' hb'
    omega
  · intro hno
    exact ⟨t, hs, fun b hb => Nat.lt_of_not_le fun hle => hno ⟨b, hb, hle⟩⟩

/-! ### A run of a test -/

section Run

variable {functionName : CString} {f : UserFn} {ops : List AllocOp} {s₁ s₂ : Globals} {rc : Int}
  {ending : Ending}

/-- The body as a whole: it runs into a call that ends the test, or to its ending. -/
theorem script_exec_body {start : Globals} (hops : f.script.ops = ops.map AllocOp.toOp)
    (hbody : execOps (ops.map AllocOp.toOp) start =
      if (t.runBody start.platform ops).1 then .ok () s₂ else .error (start.exitOf .fail) s₂) :
    f.script.exec start = if (t.runBody start.platform ops).1 then f.script.ending.exec s₂
      else .error (start.exitOf .fail) s₂ := by
  rw [← hops] at hbody
  cases hb : (t.runBody start.platform ops).1 with
  | false =>
      rw [hb] at hbody
      exact bind_of_error hbody _
  | true =>
      rw [hb] at hbody
      exact bind_of_ok hbody _

/-- A test that returned has no block of its own left. -/
theorem freed_of_returned {start : Globals} {t' : BlockTable} (hhas : start.Has t)
    (hi : Inert start s₂) (hhas₂ : s₂.Has t') (hlater : t.Later t')
    (hkept : ∀ b, t.live.getLast? = some b → ∃ c ∈ t'.live, c.serial = b.serial)
    (hcheck : failIfBlocksAllocated ((nodesOf start.platform t.live).getLastD .head) functionName
      s₂ = .ok () s₁) : Freed t.nextSerial s₁ := by
  have hplatform := hi.platform_eq
  have hr : Represents s₂.platform start.globalAllocatedBlocks t := by
    rw [hplatform]
    exact hhas
  have hexact := leakCheckExact_of_live hhas₂ hr hlater functionName hkept
  have hfreed := hexact.freed
  rw [hplatform, hcheck] at hfreed
  exact ⟨_, hfreed, fun b hb => by simpa using (List.mem_filter.mp hb).2⟩

/-- A body that gets to `stop()` passes, and its blocks stay as they are. -/
theorem stopped_test {start : Globals} {checkPoint : BlockNode} {reason : Reason} {s₃ : Globals}
    (hi : Inert start s₂) (hleft : start.anyLeft = false) (hend : f.script.ending = .stop)
    (hscript : f.script.exec (s.calling f) = f.script.ending.exec s₂)
    (herr : runCallback functionName f .test checkPoint s = .error (.longjmp reason) s₃)
    (hjump : runAfterLongjmp reason s₃ = .ok (rc, ending) s₁) :
    rc = 0 ∧ s₁.globalAllocatedBlocks = s₂.globalAllocatedBlocks ∧
      s₁.platform = s₂.platform := by
  have hexec : f.script.exec (s.calling f) =
      .error (Globals.exitOf { s₂ with globalStopTest := true } .stop)
        { s₂ with globalStopTest := true } := by
    rw [hscript, hend]
    simp only [ScriptEnd.exec, stop, bind_apply, modify_apply, exitTest_apply]
  obtain rfl : { s₂ with globalStopTest := true } = s₃ := by
    rcases runCallback_error herr with hs | ⟨code, s₄, s₅, hs, -⟩
    · rw [hexec] at hs
      injection hs
    · cases hexec.symm.trans hs
  have hheap := runAfterLongjmp_heap hjump
  refine ⟨?_, hheap⟩
  have hnone : Globals.anyLeft { s₂ with globalStopTest := true } = false := by
    obtain ⟨_, _, _, _, rfl⟩ := hi
    exact hleft
  obtain ⟨-, ⟨hno, -⟩ | ⟨-, hrc, -⟩⟩ := runAfterLongjmp_ok hjump
  · cases hno
  · rw [hrc, hnone]
    rfl

/-- Any other test that comes back by `cm_longjmp` fails. -/
theorem failed_test {checkPoint : BlockNode} {reason : Reason} {s₃ : Globals}
    (hfinal : (final (f.script.exec (s.calling f))).globalStopTest = false)
    (herr : runCallback functionName f .test checkPoint s = .error (.longjmp reason) s₃)
    (hjump : runAfterLongjmp reason s₃ = .ok (rc, ending) s₁) : rc = -1 := by
  have hstop₃ : s₃.globalStopTest = false := by
    rcases runCallback_error herr with hs | ⟨code, s₄, s₅, hs, hi₅, -, hd⟩
    · rwa [hs] at hfinal
    · rw [hs] at hfinal
      exact (quiet_behind (refl_of Quiet s₄) hi₅ hd).stop.trans hfinal
  obtain ⟨-, ⟨-, hrc, -⟩ | ⟨hyes, -⟩⟩ := runAfterLongjmp_ok hjump
  · exact hrc
  · cases hstop₃.symm.trans hyes

/-- **A passing test has freed its blocks**, for every body of calls of the allocator on valid
pointers that leaves the block of the check point alone and ends by a normal return or by `stop()`,
if and only if it does not get to a `stop()` with a block of its own still live. -/
theorem passing_test_freed_iff {state : Addr} {s' : Globals} {run : CallbackRun}
    (hp : s.platform.Sized) (hs : s.Has t) (hstop : s.globalStopTest = false)
    (hops : f.script.ops = ops.map AllocOp.toOp) (hallowed : t.AllowsBody s.platform ops)
    (hend : (∃ code, f.script.ending = .ret code) ∨ f.script.ending = .stop)
    (hkept : ∀ b, t.live.getLast? = some b →
      ∃ c ∈ (t.runBody s.platform ops).2.live, c.serial = b.serial)
    (h : cmockaRunOneTestOrFixture functionName (some f) none none state none s = .ok run s') :
    (run.rc = 0 → Freed t.nextSerial s') ↔
      ¬(f.script.ending = .stop ∧ (t.runBody s.platform ops).1 = true ∧
        ∃ b ∈ (t.runBody s.platform ops).2.live, t.nextSerial ≤ b.serial) := by
  obtain ⟨checkPoint, s₀, s₁, rc, ending, i, h₀, hj, hrc, rfl⟩ := runOne_callback rfl h
  cases (checkPointAllocatedBlocks_eq hs).symm.trans h₀
  -- the state in which the body starts
  obtain ⟨start, hstart, hplatform, hhas, hstop₀, hleft⟩ : ∃ start,
      start = ((s.withHeap s.globalAllocatedBlocks.getAllocatedBlocksList).entering
        state).calling f ∧ start.platform = s.platform ∧ start.Has t ∧
      start.globalStopTest = false ∧ start.anyLeft = false :=
    ⟨_, rfl, rfl, hs.getAllocatedBlocksList.1, hstop, (anyLeft_of_empty rfl rfl rfl).1⟩
  rw [← hplatform] at hp hallowed hkept hj ⊢
  obtain ⟨s₂, hi, hhas₂, hbody⟩ := execOps_runBody hp hhas hallowed
  have hscript := script_exec_body hops hbody
  have htorn : Freed t.nextSerial s₁ ↔ Freed t.nextSerial
    { s₁.tearDown with trace := s₁.tearDown.trace ++ [.leave i s₁.tearDown.snapshot] } := Iff.rfl
  rw [← htorn, hrc]
  by_cases hbad : f.script.ending = .stop ∧ (t.runBody start.platform ops).1 = true
  · -- `stop()` is reached
    obtain ⟨hend, hall⟩ := hbad
    rw [hall, if_pos rfl] at hscript
    have hhas₁ : rc = 0 ∧ s₁.Has (t.runBody start.platform ops).2 := by
      rcases setjmp_ok hj with hok | ⟨reason, s₃, herr, hjump⟩
      · obtain ⟨code, s₄, -, hexec, -⟩ := runCallback_test_ok hok
        rw [← hstart, hscript] at hexec
        obtain ⟨e, s₅, he, -⟩ := ending_exec (s := s₂) (congrArg ScriptEnd.reason? hend)
        cases he.symm.trans hexec
      · obtain ⟨hrc, hheap, hsame⟩ := stopped_test hi hleft hend (hstart ▸ hscript) herr hjump
        refine ⟨hrc, ?_⟩
        rw [Globals.Has, hheap, hsame]
        exact hhas₂
    rw [Freed.iff_of_has hhas₁.2]
    simp [hend, hall, hhas₁.1]
  · refine iff_of_true (fun hzero => ?_) fun h => hbad ⟨h.1, h.2.1⟩
    -- the flag is not set when the body is left, and set nowhere else
    have hfinal : s₂ = final (f.script.exec start) := by
      rw [hscript]
      cases hall : (t.runBody start.platform ops).1 with
      | false => rfl
      | true =>
          obtain ⟨code, hret⟩ := hend.resolve_right fun he => hbad ⟨he, hall⟩
          rw [hret]
          rfl
    have hstop₂ : (final (f.script.exec start)).globalStopTest = false :=
      hfinal ▸ hi.quiet.stop.trans hstop₀
    rcases setjmp_ok hj with hok | ⟨reason, s₃, herr, hjump⟩
    · obtain ⟨code, s₄, s₃, hexec, hcheck, hheap, hsame⟩ := runCallback_test_ok hok
      rw [← hstart] at hexec
      rw [hexec] at hfinal
      cases hfinal
      obtain ⟨t', hhas', hold⟩ := freed_of_returned hhas hi hhas₂ (.runBody t start.platform ops)
        hkept hcheck
      refine ⟨t', ?_, hold⟩
      rw [Globals.Has, hheap, hsame]
      exact hhas'
    · have hrc := failed_test (hstart ▸ hstop₂) herr hjump
      omega

end Run

/-- A test that makes the calls `ops` and stops. -/
def stoppingTest (ops : List AllocOp) : UserFn where
  addr := 0x401000
  script := { ops := ops.map AllocOp.toOp, ending := .stop }

/-- A test that allocates a block and frees it before it stops. -/
theorem freeing_test_freed :
    ∃ run s', cmockaRunOneTestOrFixture "test".toList (some (stoppingTest
        [.malloc 1 "t.c".toList 1 (some 4096), .free 4192 "t.c".toList 2])) none none 0 none
        (Globals.initial .lp64) = .ok run s' ∧ run.rc = 0 ∧ Freed 0 s' := by
  obtain ⟨run, h, hrc⟩ := eq_ok_of_map (r := cmockaRunOneTestOrFixture "test".toList
    (some (stoppingTest [.malloc 1 "t.c".toList 1 (some 4096), .free 4192 "t.c".toList 2])) none
    none 0 none (Globals.initial .lp64)) (f := CallbackRun.rc) (b := 0) (by decide +kernel)
  have hallowed : BlockTable.empty.AllowsBody .lp64
      [.malloc 1 "t.c".toList 1 (some 4096), .free 4192 "t.c".toList 2] :=
    ⟨⟨by decide, fun _ _ _ b hb => by cases hb⟩, fun _ =>
      ⟨.inr ⟨_, List.mem_cons_self, by decide⟩, fun _ => trivial⟩⟩
  refine ⟨run, _, h, hrc, ?_⟩
  refine (passing_test_freed_iff (s := .initial .lp64) (by decide) (represents_zeroed .lp64) rfl rfl
    hallowed (.inr rfl) nofun h).mpr ?_ hrc
  rintro ⟨-, -, b, hb, -⟩
  cases hb

/-- A test that stops while it has a block passes, and the block stays. -/
theorem stopped_test_leaks :
    ∃ run s', cmockaRunOneTestOrFixture "test".toList (some (stoppingTest
        [.malloc 1 "t.c".toList 1 (some 4096)])) none none 0 none (Globals.initial .lp64) =
        .ok run s' ∧ run.rc = 0 ∧ ¬Freed 0 s' := by
  obtain ⟨run, h, hrc⟩ := eq_ok_of_map (r := cmockaRunOneTestOrFixture "test".toList
    (some (stoppingTest [.malloc 1 "t.c".toList 1 (some 4096)])) none none 0 none
    (Globals.initial .lp64)) (f := CallbackRun.rc) (b := 0) (by decide +kernel)
  refine ⟨run, _, h, hrc, ?_⟩
  rintro ⟨t, hhas, hold⟩
  -- the node of the block is still in the list
  have hvalue := hhas.values 4104
  have hnode : (final (cmockaRunOneTestOrFixture "test".toList (some (stoppingTest
      [.malloc 1 "t.c".toList 1 (some 4096)])) none none 0 none
      (Globals.initial .lp64))).globalAllocatedBlocks.nodes.valueOf (.header 4104) =
      some 4104 := by
    decide +kernel
  rw [hnode] at hvalue
  split at hvalue
  case isTrue hmem =>
    obtain ⟨b, hb, -⟩ := List.mem_map.mp hmem
    exact absurd (hold b hb) (Nat.not_lt_zero _)
  case isFalse => cases hvalue

end Cmocka
