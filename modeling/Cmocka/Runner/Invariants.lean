import Cmocka.Runner.Protocol

/-!
# Runner — invariants of whole processes

A process runs groups one after the other.  To show that an invariant of the states between
callbacks holds throughout, with a relation along every run however it ends, it is enough to look
at what the runner is made of (`RunnerRule`): printing, reporting, a group fixture, and one test.

The first use is the clean slate: every callback of a process finds the expectation structures
empty and the flags as the runner assumes, and leaves nothing behind.
-/

namespace Cmocka

open Runs

/-- The exits of the parts of the runner: the process is aborted, or undefined. -/
def LostExit (e : Exit) : Prop := e = .abort ∨ e = .undefined

/-- The message is taken from the state it is read in. -/
theorem reportGroupFixture_eq (groupName text : CString) :
    reportGroupFixture groupName text = (get >>= fun s =>
      match s.cmErrorMessage with
      | some message => do
          modify fun s => { s with cmErrorMessage := none }
          record [.printError ("[  ERROR   ] --- ".toList ++ message ++ "\n".toList)]
          record [.cmprintf .testError 0 groupName (some text)]
      | none => record [.cmprintf .testError 0 groupName (some text)]) := by
  funext s
  rw [reportGroupFixture, bind_apply, bind_apply]
  cases hm : s.cmErrorMessage with
  | none => simp only [get_apply, hm]
  | some message =>
      simp only [get_apply, hm]
      rfl

section Rule

variable {I : Globals → Prop} {R : Globals → Globals → Prop}

/-- What the parts of the runner have to satisfy. -/
structure RunnerRule (I : Globals → Prop) (R : Globals → Globals → Prop) : Prop where
  report : ∀ e : Event, e.isReport = true → Meets I R LostExit (record [e])
  clearMessage :
    Meets I R LostExit (modify fun s => { s with cmErrorMessage := none } : CM PUnit)
  fixture : ∀ functionName setupFunc teardownFunc state checkPoint, Meets I R LostExit
    (cmockaRunGroupFixture functionName setupFunc teardownFunc state checkPoint)
  test : ∀ ts, Meets I R LostExit (cmockaRunOneTests ts)

variable [IsPreorder Globals R] (h : RunnerRule I R)

include h

theorem RunnerRule.reportGroupFixture (groupName text : CString) :
    Meets I R LostExit (reportGroupFixture groupName text) := by
  rw [reportGroupFixture_eq]
  refine Meets.get_bind fun s => ?_
  cases s.cmErrorMessage with
  | some message =>
      exact h.clearMessage.bind fun _ => (h.report _ rfl).bind fun _ => h.report _ rfl
  | none => exact h.report _ rfl

/-- The report on a test keeps what reports keep. -/
theorem RunnerRule.countTest (testNumber : Nat) (rc : Int) (ts : CMUnitTestState)
    (totals : Totals) : Meets I R LostExit (countTest testNumber rc ts totals) := by
  unfold Cmocka.countTest
  refine Meets.ite ?_ ?_
  · split
    · exact (h.report _ rfl).bind fun _ => .pure _
    · exact (h.report _ rfl).bind fun _ => .pure _
    · exact (h.report _ rfl).bind fun _ => .pure _
    · exact (h.report _ rfl).bind fun _ => .pure _
  · exact (h.report _ rfl).bind fun _ => .pure _

/-- The loop over the tests, by induction on them. -/
theorem RunnerRule.runTests (groupState : Addr) (tests : List CMUnitTest) (testNumber : Nat)
    (totals : Totals) : Meets I R LostExit (runTests groupState tests testNumber totals) := by
  induction tests generalizing testNumber totals with
  | nil => exact .pure _
  | cons t rest ih =>
      exact (h.report _ rfl).bind fun _ => (h.test _).bind fun _ =>
        (h.countTest _ _ _ _).bind fun _ => (ih _ _).bind fun _ => .pure _

theorem RunnerRule.runGroupSetup (groupSetup : Option UserFn) (groupCheckPoint : BlockNode) :
    Meets I R LostExit (runGroupSetup groupSetup groupCheckPoint) := by
  cases groupSetup with
  | none => exact .pure _
  | some f => exact (h.fixture _ _ _ _ _).bind fun _ => .pure _

/-- The group teardown and the report on its failure. -/
theorem RunnerRule.runGroupTeardown (groupName : CString) (groupTeardown : Option UserFn)
    (groupState : Addr) (groupCheckPoint : BlockNode) :
    Meets I R LostExit (runGroupTeardown groupName groupTeardown groupState groupCheckPoint) := by
  cases groupTeardown with
  | none => exact .pure _
  | some f =>
      exact (h.fixture _ _ _ _ _).bind fun _ => Meets.ite (h.reportGroupFixture _ _) (.pure _)

/-- **The rule for a group**, up to its own leak check. -/
theorem RunnerRule.runGroupBody (groupName : CString) (tests : List CMUnitTest)
    (groupSetup groupTeardown : Option UserFn) (groupCheckPoint : BlockNode) :
    Meets I R LostExit
      (runGroupBody groupName tests groupSetup groupTeardown groupCheckPoint) := by
  refine Meets.get_bind fun s => (h.report _ rfl).bind fun _ =>
    (h.runGroupSetup _ _).bind fun _ => ?_
  have rest : ∀ (groupState : Addr) (totals : Totals) (done : List CMUnitTestState),
      Meets I R LostExit (do
        Cmocka.runGroupTeardown groupName groupTeardown groupState groupCheckPoint
        record [.groupFinish groupName totals.executed totals.passed totals.failed totals.errors
          totals.skipped (done.map fun ts => (ts.test.nameText, ts.status, ts.errorMessage))]
        return totals : CM Totals) := fun _ _ _ =>
    (h.runGroupTeardown _ _ _ _).bind fun _ => (h.report _ rfl).bind fun _ => .pure _
  exact Meets.ite ((h.runTests _ _ _ _).bind fun _ => rest _ _ _)
    ((h.reportGroupFixture _ _).bind fun _ => rest _ _ _)

/-- **The rule for a process.** -/
theorem RunnerRule.runGroups
    (hprints : ∀ {α : Type} {x : CM α}, Prints x → Meets I R (fun _ => True) x)
    (hfilters : ∀ testFilter skipFilter, Meets I R (fun _ => True) (modify fun s =>
      { s with globalTestFilterPattern := testFilter, globalSkipFilterPattern := skipFilter } :
        CM PUnit)) (groups : List Group) :
    Meets I R (fun _ => True) (runGroups groups) := by
  induction groups with
  | nil => exact .pure _
  | cons g rest ih =>
      refine Meets.bind ((hfilters _ _).bind fun _ => ?_) fun _ => ih.bind fun _ => .pure _
      rw [cmockaRunGroupTests_eq]
      exact (hprints prints_checkPointAllocatedBlocks).bind fun _ => Meets.ite (.pure _) <|
        ((h.runGroupBody _ _ _ _ _).mono fun _ _ => trivial).bind fun _ =>
          (hprints (prints_failIfBlocksAllocated _ _)).bind fun _ => .pure _

end Rule

/-! ### The clean slate -/

/-- The trace grew by events with `P` only. -/
def Traced (P : Event → Prop) (s s' : Globals) : Prop :=
  ∃ events, s'.trace = s.trace ++ events ∧ ∀ e ∈ events, P e

instance (P : Event → Prop) : IsPreorder Globals (Traced P) where
  refl s := ⟨[], by simp⟩
  trans := by
    rintro s s₁ s₂ ⟨a, ha, hpa⟩ ⟨b, hb, hpb⟩
    refine ⟨a ++ b, by rw [hb, ha, List.append_assoc], fun e he => ?_⟩
    rcases List.mem_append.mp he with he | he
    · exact hpa e he
    · exact hpb e he

/-- The states between callbacks. -/
def Idle (s : Globals) : Prop := s.snapshot = idleSnapshot

/-- `P` has room for what a callback and the reports leave in the trace. -/
structure Covers (P : Event → Prop) : Prop where
  enter : ∀ f, P (.enter f runningSnapshot)
  leave : ∀ i : Invocation, i.Consistent → P (.leave i idleSnapshot)
  call : ∀ e : Event, e.isCall = true → P e
  report : ∀ e : Event, e.isReport = true → P e

section Covers

variable {P : Event → Prop}

/-- What only prints and allocates leaves the runner idle. -/
theorem Inert.idle {s s' : Globals} (h : Inert s s') (hs : Idle s) : Idle s' :=
  h.snapshot_eq.trans hs

/-- It records nothing, so what it records is covered. -/
theorem Inert.traced {s s' : Globals} (h : Inert s s') : Traced P s s' :=
  ⟨[], by simpa using h.trace_eq, by simp⟩

/-- It may stand anywhere between callbacks. -/
theorem meets_prints {α : Type} {x : CM α} (hx : Prints x) :
    Meets Idle (Traced P) (fun _ => True) x :=
  Keeps.meets hx (fun _ _ hi => hi.idle) (fun _ _ hi => hi.traced) fun _ _ _ => trivial

/-- The check point of a callback. -/
theorem meets_checkPoint : Meets Idle (Traced P) LostExit checkPointAllocatedBlocks where
  ok hs h := ⟨(prints_checkPointAllocatedBlocks.ok h).idle hs,
    (prints_checkPointAllocatedBlocks.ok h).traced⟩
  error _ h := ⟨(checkPoint_error h).2.traced, .inr (checkPoint_error h).1⟩

theorem meets_cmockaPrintError (text : CString) :
    Meets Idle (Traced P) LostExit (cmockaPrintError text) :=
  Meets.modify (fun _ hs => hs) fun _ => ⟨[], by simp, by simp⟩

theorem meets_record {e : Event} (he : P e) : Meets Idle (Traced P) LostExit (record [e]) where
  ok := by
    intro s s' u hs h
    cases h
    exact ⟨hs, [e], rfl, by simpa using he⟩
  error := by
    intro s s' e hs h
    cases h

variable (hP : Covers P)

include hP

/-- All events of a callback are covered. -/
theorem RunEvents.covered {callback : Option (UserFn × CallbackKind)} {state : Addr}
    {run : CallbackRun} {events : List Event} (h : RunEvents callback state run events) :
    ∀ e ∈ events, P e := by
  cases h with
  | absent => simp
  | run f kind state i calls hfn hkind hreceived hi hcalls =>
      intro e he
      simp only [List.cons_append, List.mem_cons, List.mem_append, List.not_mem_nil,
        or_false] at he
      rcases he with rfl | he | rfl
      · exact hP.enter f.addr
      · exact hP.call e (hcalls e he)
      · exact hP.leave i hi

/-- **A callback** leaves the runner idle, and all its events are covered. -/
theorem meets_runOne (functionName : CString) (testFunc setupFunc teardownFunc : Option UserFn)
    (state : Addr) (heapCheckPoint : Option BlockNode) :
    Meets Idle (Traced P) LostExit (cmockaRunOneTestOrFixture functionName testFunc setupFunc
      teardownFunc state heapCheckPoint) where
  ok := by
    intro s s' run hs h
    obtain ⟨events, he, hst⟩ := (runOne_spec (stop_of_idle hs) h).steps
    exact ⟨hst.idle, events, hst.trace, he.covered hP⟩
  error := by
    intro s s' e hs h
    obtain ⟨hlost, htr | ⟨f, calls, htr, hcalls⟩⟩ := runOne_lost (stop_of_idle hs) h
    · exact ⟨⟨[], by simpa using htr, by simp⟩, hlost⟩
    · refine ⟨⟨_, htr, fun e he => ?_⟩, hlost⟩
      rcases List.mem_cons.mp he with rfl | he
      · exact hP.enter f
      · exact hP.call e (hcalls e he)

theorem meets_runTestSetup (ts : CMUnitTestState) :
    Meets Idle (Traced P) LostExit (runTestSetup ts) := by
  unfold runTestSetup
  split
  · exact .pure _
  · exact meets_checkPoint.bind fun _ =>
      (meets_runOne hP _ _ _ _ _ _).bind fun _ => Meets.ite
        ((meets_cmockaPrintError _).bind fun _ => .pure _) (.pure _)

/-- The test function of a test. -/
theorem meets_runTestBody (ts : CMUnitTestState) :
    Meets Idle (Traced P) LostExit (runTestBody ts) := by
  refine (meets_runOne hP _ _ _ _ _ _).bind fun run => Meets.ite (.pure _) ?_
  constructor
  · intro s s' a hs h
    cases hskip : s.globalSkipTest with
    | false =>
        simp only [bind_apply, get_apply, hskip, Bool.false_eq_true, if_false] at h
        cases h
        exact ⟨hs, refl_of (Traced P) s⟩
    | true =>
        simp only [bind_apply, get_apply, hskip, if_true] at h
        cases h
        exact ⟨hs, [], by simp, by simp⟩
  · intro s s' e hs h
    cases hskip : s.globalSkipTest with
    | false =>
        simp only [bind_apply, get_apply, hskip, Bool.false_eq_true, if_false] at h
        cases h
    | true =>
        simp only [bind_apply, get_apply, hskip, if_true] at h
        cases h

theorem meets_runTestTeardown (ts : CMUnitTestState) :
    Meets Idle (Traced P) LostExit (runTestTeardown ts) := by
  unfold runTestTeardown
  split
  · exact .pure _
  · exact (meets_runOne hP _ _ _ _ _ _).bind fun _ => Meets.ite
      ((meets_cmockaPrintError _).bind fun _ => .pure _) (.pure _)

/-- A test that does not come back leaves no record. -/
theorem cmockaRunOneTests_lost {ts : CMUnitTestState} {s s' : Globals} {e : Exit} (hs : Idle s)
    (h : cmockaRunOneTests ts s = .error e s') : Traced P s s' ∧ LostExit e := by
  rcases bind_eq_error.mp h with h | ⟨⟨rc, ts₁, i₁⟩, s₁, h₁, h⟩
  · exact (meets_runTestSetup hP ts).error hs h
  · obtain ⟨hs₁, hr₁⟩ := (meets_runTestSetup hP ts).ok hs h₁
    by_cases hrc : rc = 0
    · simp only [hrc, if_true] at h
      rcases bind_eq_error.mp h with h | ⟨⟨ts₂, i₂⟩, s₂, h₂, h⟩
      · obtain ⟨hr₂, he⟩ := (meets_runTestBody hP ts₁).error hs₁ h
        exact ⟨trans_of (Traced P) hr₁ hr₂, he⟩
      · obtain ⟨hs₂, hr₂⟩ := (meets_runTestBody hP ts₁).ok hs₁ h₂
        rcases bind_eq_error.mp h with h | ⟨⟨rc₃, ts₃, i₃⟩, s₃, h₃, h⟩
        · obtain ⟨hr₃, he⟩ := (meets_runTestTeardown hP ts₂).error hs₂ h
          exact ⟨trans_of (Traced P) (trans_of (Traced P) hr₁ hr₂) hr₃, he⟩
        · cases h
    · simp only [hrc, if_false] at h
      cases h

/-- All events of a test are covered. -/
theorem TestRun.covered {t : CMUnitTest} {state : Addr} {skip skip' : Bool} {record : TestRecord}
    {rc : Int} {events : List Event} (h : TestRun t state skip record rc skip' events) :
    ∀ e ∈ events, P e := by
  cases h with
  | setupFailed hrun hrc => exact hrun.covered hP
  | ran hsetup hrc hbody hteardown =>
      intro e he
      rw [List.mem_append, List.mem_append] at he
      rcases he with (he | he) | he
      · exact hsetup.covered hP e he
      · exact hbody.covered hP e he
      · exact hteardown.covered hP e he

/-- A test, when its record is allowed in the trace. -/
theorem meets_cmockaRunOneTests (hdone : ∀ r, P (.testDone r)) (ts : CMUnitTestState) :
    Meets Idle (Traced P) LostExit (cmockaRunOneTests ts) where
  ok := by
    rintro s s' ⟨rc, ts'⟩ hs h
    obtain ⟨record, skip, events, hrun, hst, -⟩ := cmockaRunOneTests_run hs h
    refine ⟨hst.idle, _, hst.trace, fun e he => ?_⟩
    rcases List.mem_append.mp he with he | he
    · exact hrun.covered hP e he
    · rw [List.mem_singleton.mp he]
      exact hdone record
  error hs h := cmockaRunOneTests_lost hP hs h

theorem meets_cmockaRunGroupFixture (functionName : CString)
    (setupFunc teardownFunc : Option UserFn) (state : Addr) (checkPoint : Option BlockNode) :
    Meets Idle (Traced P) LostExit
      (cmockaRunGroupFixture functionName setupFunc teardownFunc state checkPoint) := by
  unfold cmockaRunGroupFixture
  split
  · exact meets_runOne hP _ _ _ _ _ _
  · exact meets_runOne hP _ _ _ _ _ _

/-- The rule, for a property of all events. -/
theorem runnerRule_traced (hdone : ∀ r, P (.testDone r)) : RunnerRule Idle (Traced P) where
  report e he := meets_record (hP.report e he)
  clearMessage := Meets.modify (fun _ hs => hs) fun _ => ⟨[], by simp, by simp⟩
  fixture := meets_cmockaRunGroupFixture hP
  test := meets_cmockaRunOneTests hP hdone

/-- **A process**, group after group. -/
theorem meets_runGroups (hdone : ∀ r, P (.testDone r)) (groups : List Group) :
    Meets Idle (Traced P) (fun _ => True) (runGroups groups) :=
  (runnerRule_traced hP hdone).runGroups meets_prints
    (fun _ _ => Meets.modify (fun _ hs => hs) fun _ => ⟨[], by simp, by simp⟩) groups

end Covers

/-- Callbacks are entered and left with a clean slate. -/
def Event.Clean : Event → Prop
  | .enter _ snapshot => snapshot = runningSnapshot
  | .leave _ snapshot => snapshot = idleSnapshot
  | _ => True

theorem covers_clean : Covers Event.Clean where
  enter f := rfl
  leave i _ := rfl
  call e he := by cases e <;> trivial
  report e he := by cases e <;> trivial

theorem idle_initial (platform : Platform) : Idle (Globals.initial platform) := rfl

/-- Nothing is left of a callback's expectations, and both flags are down. -/
structure CleanSlate (s : Globals) : Prop where
  results : s.globalFunctionResultMap = []
  parameters : s.globalFunctionParameterMap = []
  calls : s.globalCallOrdering = []
  running : s.globalRunningTest = false
  stop : s.globalStopTest = false
  lastMockValue : sourceLocationIsSet s.globalLastMockValueLocation = false
  lastParameter : sourceLocationIsSet s.globalLastParameterLocation = false

/-- Between callbacks the slate is clean. -/
theorem Idle.cleanSlate {s : Globals} (h : Idle s) : CleanSlate s := by
  have hr := congrArg Snapshot.resultMapEmpty h
  have hp := congrArg Snapshot.parameterMapEmpty h
  have hc := congrArg Snapshot.callOrderingEmpty h
  have hm := congrArg Snapshot.globalLastMockValueLocation h
  have hl := congrArg Snapshot.globalLastParameterLocation h
  refine ⟨List.isEmpty_iff.mp hr, List.isEmpty_iff.mp hp, List.isEmpty_iff.mp hc,
    congrArg Snapshot.globalRunningTest h, congrArg Snapshot.globalStopTest h, ?_, ?_⟩
  · rw [show s.globalLastMockValueLocation = _ from hm]
    rfl
  · rw [show s.globalLastParameterLocation = _ from hl]
    rfl

/-- **Clean slate between callbacks.**  However a callback ends, once
`cmocka_run_one_test_or_fixture` is back the three structures are empty, the flags are down and the
last locations are unset, provided the stop flag was down before; and in a process that runs any
groups, however it ends, every callback was entered and left so. -/
theorem callbacks_have_clean_slate :
    (∀ (functionName : CString) (testFunc setupFunc teardownFunc : Option UserFn) (state : Addr)
      (heapCheckPoint : Option BlockNode) (s s' : Globals) (run : CallbackRun),
      s.globalStopTest = false →
      cmockaRunOneTestOrFixture functionName testFunc setupFunc teardownFunc state heapCheckPoint s =
        .ok run s' → CleanSlate s') ∧
    (∀ (platform : Platform) (groups : List Group),
      ∀ e ∈ (final (runGroups groups (Globals.initial platform))).trace, e.Clean) := by
  refine ⟨?_, fun platform groups => ?_⟩
  · intro functionName testFunc setupFunc teardownFunc state heapCheckPoint s s' run hstop h
    have hspec := runOne_spec hstop h
    exact Idle.cleanSlate hspec.snapshot
  · obtain ⟨events, htr, hclean⟩ :=
      (meets_runGroups covers_clean (fun _ => trivial) groups).final (idle_initial platform)
    rw [htr]
    exact hclean

/-- A test function that declares a return value, which no mock asks for, and returns. -/
def forgetfulTest : UserFn :=
  ⟨1, ⟨[.willReturn "f".toList "t.c".toList 10 none 42 1], .ret 0⟩⟩

/-- It fails, and the value is gone. -/
theorem forgetfulTest_leaves_nothing :
    ∃ run s', cmockaRunOneTestOrFixture "test".toList (some forgetfulTest) none none 0 none
        (Globals.initial .lp64) = .ok run s' ∧
      CleanSlate s' := by
  cases h : cmockaRunOneTestOrFixture "test".toList (some forgetfulTest) none none 0 none
      (Globals.initial .lp64) with
  | ok run s' =>
      exact ⟨run, s', rfl, callbacks_have_clean_slate.1 _ _ _ _ _ _ _ _ _ rfl h⟩
  | error e s' =>
      have hvalue : (value (cmockaRunOneTestOrFixture "test".toList (some forgetfulTest) none none 0
          none (Globals.initial .lp64))).isSome = true := by decide +kernel
      rw [h] at hvalue
      cases hvalue

end Cmocka
