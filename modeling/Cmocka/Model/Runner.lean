import Cmocka.Model.Expect
import Cmocka.Model.Alloc

/-!
# Model — callbacks and the test runner

A callback is a function pointer together with what it does in the run at hand: a finite sequence
of calls into the library and the way it ends.  Each callback of an array entry is called at most
once in a run of its group, so nothing is lost by fixing its behaviour in advance; the choices user
code makes on what it reads are choices of the sequence.  A call that fails ends the callback there.

`cmocka_run_one_test_or_fixture` catches `cm_longjmp` and nothing else.  The installation of
signal handlers and the time stamps are left out; a signal caught by `exception_handler` is one of
the endings.
-/

namespace Cmocka

/-! ### Callbacks -/

/-- A call a callback makes, or a store through its `state` argument or into memory. -/
inductive Op where
  | willReturn (functionName file : CString) (line : Int) (name : Option CString)
      (value : CMockaValueData) (count : Int)
  | mock (function file : CString) (line : Int) (name : Option CString)
  | expectCheck (function parameter file : CString) (line : Int)
      (checkFunction : CheckParameterValue) (checkData : CMockaValueData) (count : Int)
  | checkExpected (functionName parameterName file : CString) (line : Int)
      (value : CMockaValueData)
  | expectFunctionCall (functionName file : CString) (line : Int) (count : Int)
  | functionCalled (function file : CString) (line : Int)
  | testMalloc (size : Nat) (file : CString) (line : Int) (libc : Option Addr)
  | testCalloc (numberOfElements size : Nat) (file : CString) (line : Int) (libc : Option Addr)
  | testRealloc (ptr : Addr) (size : Nat) (file : CString) (line : Int) (libc : Option Addr)
  | testFree (ptr : Addr) (file : CString) (line : Int)
  | storeByte (ptr : Addr) (byte : BitVec 8)
  | storeState (state : Addr)
  | printError (text : CString)

/-- How the code of a callback ends, when none of its calls ended it before. -/
inductive ScriptEnd where
  | ret (code : Int)
  | fail (file : CString) (line : Int)
  | skip (file : CString) (line : Int)
  | stop
  | exception (sig : Int) (description : CString)

/-- What a callback does. -/
structure Script where
  ops : List Op
  ending : ScriptEnd

/-- A `CMUnitTestFunction` or `CMFixtureFunction`: its address and its behaviour. -/
structure UserFn where
  addr : Addr
  script : Script

/-- A function that makes no calls. -/
def UserFn.ending (addr : Addr) (ending : ScriptEnd) : UserFn := ⟨addr, ⟨[], ending⟩⟩

/-- One call. -/
def Op.exec : Op → CM Unit
  | .willReturn f file line name value count => Cmocka.willReturn f file line name value count
  | .mock f file line name => do
      let _ ← Cmocka.mock f file line name
  | .expectCheck f p file line check data count =>
      Cmocka.expectCheck f p file line check data count
  | .checkExpected f p file line value => Cmocka.checkExpected f p file line value
  | .expectFunctionCall f file line count => Cmocka.expectFunctionCall f file line count
  | .functionCalled f file line => Cmocka.functionCalled f file line
  | .testMalloc size file line libc => do
      let _ ← Cmocka.testMalloc size file line libc
  | .testCalloc n size file line libc => do
      let _ ← Cmocka.testCalloc n size file line libc
  | .testRealloc ptr size file line libc => do
      let _ ← Cmocka.testRealloc ptr size file line libc
  | .testFree ptr file line => Cmocka.testFree ptr file line
  | .storeByte ptr byte => modify fun s => { s with globalAllocatedBlocks :=
      { s.globalAllocatedBlocks with
        mem := Function.update s.globalAllocatedBlocks.mem ptr byte } }
  | .storeState state => modify fun s => { s with stateCell := state }
  | .printError text => cmockaPrintError text

/-- The calls of a callback, in order. -/
def execOps : List Op → CM Unit
  | [] => return ()
  | op :: ops => do
      op.exec
      execOps ops

/-- The ending; the value is what the function returns. -/
def ScriptEnd.exec : ScriptEnd → CM Int
  | .ret code => return code
  | .fail file line => Cmocka.fail file line
  | .skip file line => do
      Cmocka.skip file line
      return 0
  | .stop => do
      Cmocka.stop
      return 0
  | .exception sig description => do
      cmockaPrintError ("Test failed with exception: ".toList ++ description ++ "(".toList ++
        (toString sig).toList ++ ")".toList)
      exitTest .fail true
      throw .exitFailure

/-- A callback, from its start. -/
def Script.exec (script : Script) : CM Int := do
  execOps script.ops
  script.ending.exec

/-! ### One callback -/

/-- The part of the state a `Snapshot` records. -/
def Globals.snapshot (s : Globals) : Snapshot where
  resultMapEmpty := s.globalFunctionResultMap.isEmpty
  parameterMapEmpty := s.globalFunctionParameterMap.isEmpty
  callOrderingEmpty := s.globalCallOrdering.isEmpty
  globalRunningTest := s.globalRunningTest
  globalStopTest := s.globalStopTest
  globalLastMockValueLocation := s.globalLastMockValueLocation
  globalLastParameterLocation := s.globalLastParameterLocation

/-- The call of a user function. -/
def callUser (f : UserFn) : CM Int := do
  let s ← get
  record [.enter f.addr s.snapshot]
  f.script.exec

/-- `cm_setjmp`: `body` runs under it, and `jumped` after a `cm_longjmp` out of `body`. -/
def setjmp {β : Type} (body : CM β) (jumped : Reason → CM β) : CM β := fun s =>
  match body s with
  | .ok b s' => .ok b s'
  | .error (.longjmp reason) s' => jumped reason s'
  | .error e s' => .error e s'

/-- The branch of `cmocka_run_one_test_or_fixture` that runs the callback. -/
def runUnderSetjmp (functionName : CString) (testFunc setupFunc teardownFunc : Option UserFn)
    (checkPoint : BlockNode) : CM (Int × Ending) := do
  let rc ← match testFunc, setupFunc, teardownFunc with
    | some f, _, _ => do
        let _ ← callUser f
        failIfBlocksAllocated checkPoint functionName
        pure 0
    | none, some f, _ => callUser f
    | none, none, some f => do
        let rc ← callUser f
        failIfBlocksAllocated checkPoint functionName
        pure rc
    | none, none, none => pure 0
  failIfLeftoverValues
  modify fun s => { s with globalRunningTest := false }
  return (rc, .returned rc)

/-- The branch of `cmocka_run_one_test_or_fixture` after a `cm_longjmp`. -/
def runAfterLongjmp (reason : Reason) : CM (Int × Ending) := do
  modify fun s => { s with globalRunningTest := false }
  let s ← get
  if s.globalStopTest then do
    let leftover ← hasLeftoverValues
    modify fun s => { s with globalStopTest := false }
    return (if leftover then -1 else 0, .jumped reason)
  else return (-1, .jumped reason)

/-- What a run of a callback gives: `rc`, the value left in `*state`, and the record of the run if
there was a callback to run. -/
structure CallbackRun where
  rc : Int
  state : Addr
  invocation : Option Invocation

/-- The callback among the three arguments. -/
def theCallback (testFunc setupFunc teardownFunc : Option UserFn) :
    Option (UserFn × CallbackKind) :=
  match testFunc, setupFunc, teardownFunc with
  | some f, _, _ => some (f, .test)
  | none, some f, _ => some (f, .setup)
  | none, none, some f => some (f, .teardown)
  | none, none, none => none

/-- `cmocka_run_one_test_or_fixture`, with `state` pointing at a cell that holds `state`. -/
def cmockaRunOneTestOrFixture (functionName : CString)
    (testFunc setupFunc teardownFunc : Option UserFn) (state : Addr)
    (heapCheckPoint : Option BlockNode) : CM CallbackRun := do
  let checkPoint ← match heapCheckPoint with
    | some checkPoint => pure checkPoint
    | none => checkPointAllocatedBlocks
  initializeTesting
  modify fun s => { s with globalRunningTest := true, stateCell := state }
  let (rc, ending) ←
    setjmp (runUnderSetjmp functionName testFunc setupFunc teardownFunc checkPoint) runAfterLongjmp
  teardownTesting
  let s ← get
  let invocation := (theCallback testFunc setupFunc teardownFunc).map fun (f, kind) =>
    { fn := f.addr, kind, received := state, left := s.stateCell, ending, rc : Invocation }
  record (invocation.toList.map fun i => .leave i s.snapshot)
  return { rc, state := s.stateCell, invocation }

/-- `cmocka_run_group_fixture`. -/
def cmockaRunGroupFixture (functionName : CString) (setupFunc teardownFunc : Option UserFn)
    (state : Addr) (heapCheckPoint : Option BlockNode) : CM CallbackRun :=
  match setupFunc with
  | some setup => cmockaRunOneTestOrFixture functionName none (some setup) none state heapCheckPoint
  | none => cmockaRunOneTestOrFixture functionName none none teardownFunc state heapCheckPoint

/-! ### One test -/

/-- `struct CMUnitTest`. -/
structure CMUnitTest where
  name : Option CString
  testFunc : Option UserFn
  setupFunc : Option UserFn
  teardownFunc : Option UserFn
  initialState : Addr

/-- `struct CMUnitTestState`, without the run time. -/
structure CMUnitTestState where
  checkPoint : Option BlockNode
  test : CMUnitTest
  state : Addr
  errorMessage : Option CString
  status : CMUnitTestStatus

/-- `test->name`, which the runner has checked not to be `NULL`. -/
def CMUnitTest.nameText (t : CMUnitTest) : CString := t.name.getD []

/-- The setup part of `cmocka_run_one_tests`. -/
def runTestSetup (ts : CMUnitTestState) : CM (Int × CMUnitTestState × Option Invocation) := do
  match ts.test.setupFunc with
  | none => return (0, ts, none)
  | some setup => do
      let checkPoint ← checkPointAllocatedBlocks
      let run ← cmockaRunOneTestOrFixture ts.test.nameText none (some setup) none ts.state
        (some checkPoint)
      let ts := { ts with checkPoint := some checkPoint, state := run.state }
      if run.rc ≠ 0 then do
        cmockaPrintError "Test setup failed".toList
        return (run.rc, { ts with status := .error }, run.invocation)
      else return (0, ts, run.invocation)

/-- The part of `cmocka_run_one_tests` that runs the test function. -/
def runTestBody (ts : CMUnitTestState) : CM (CMUnitTestState × Option Invocation) := do
  let run ← cmockaRunOneTestOrFixture ts.test.nameText ts.test.testFunc none none ts.state none
  let ts := { ts with state := run.state }
  if run.rc = 0 then return ({ ts with status := .passed }, run.invocation)
  else do
    let s ← get
    if s.globalSkipTest then do
      set { s with globalSkipTest := false }
      return ({ ts with status := .skipped }, run.invocation)
    else return ({ ts with status := .failed }, run.invocation)

/-- The teardown part of `cmocka_run_one_tests`. -/
def runTestTeardown (ts : CMUnitTestState) : CM (Int × CMUnitTestState × Option Invocation) := do
  match ts.test.teardownFunc with
  | none => return (0, ts, none)
  | some teardown => do
      let run ← cmockaRunOneTestOrFixture ts.test.nameText none none (some teardown) ts.state
        ts.checkPoint
      let ts := { ts with state := run.state }
      if run.rc ≠ 0 then do
        cmockaPrintError "Test teardown failed".toList
        return (run.rc, { ts with status := .error }, run.invocation)
      else return (0, ts, run.invocation)

/-- The end of `cmocka_run_one_tests`: the message moves into the test's state. -/
def finishTest (ts : CMUnitTestState) (setup test teardown : Option Invocation) :
    CM CMUnitTestState := do
  let s ← get
  set { s with cmErrorMessage := none }
  record [.testDone { setup, test, teardown, status := ts.status }]
  return { ts with errorMessage := s.cmErrorMessage }

/-- `cmocka_run_one_tests`. -/
def cmockaRunOneTests (ts : CMUnitTestState) : CM (Int × CMUnitTestState) := do
  let (rc, ts, setup) ← runTestSetup ts
  if rc = 0 then do
    let (ts, test) ← runTestBody ts
    let (rc, ts, teardown) ← runTestTeardown ts
    let ts ← finishTest ts setup test teardown
    return (rc, ts)
  else do
    let ts ← finishTest ts setup none none
    return (rc, ts)

/-! ### One group -/

/-- The counters of `_cmocka_run_group_tests`. -/
structure Totals where
  executed : Nat
  passed : Nat
  failed : Nat
  errors : Nat
  skipped : Nat
  deriving DecidableEq

/-- The condition on a test in the set-up of the test array. -/
def isSelected (testFilter skipFilter : Option CString) (t : CMUnitTest) : Bool :=
  t.name.isSome && (t.testFunc.isSome || t.setupFunc.isSome || t.teardownFunc.isSome) &&
    (testFilter.isNone || cStrmatch t.name testFilter) &&
    !(skipFilter.isSome && cStrmatch t.name skipFilter)

/-- The `struct CMUnitTestState` a selected test starts with. -/
def CMUnitTestState.ofTest (test : CMUnitTest) : CMUnitTestState :=
  { checkPoint := none, test, state := 0, errorMessage := none, status := .notStarted }

/-- The value of `cmtest->state` before the test runs. -/
def initialTestState (groupState : Addr) (t : CMUnitTest) : Addr :=
  if groupState ≠ 0 then groupState else t.initialState

/-- The report on a finished test and the counter it goes to. -/
def countTest (testNumber : Nat) (rc : Int) (ts : CMUnitTestState) (totals : Totals) :
    CM Totals := do
  let totals := { totals with executed := totals.executed + 1 }
  if rc = 0 then
    match ts.status with
    | .passed => do
        record [.cmprintf .testSuccess testNumber ts.test.nameText ts.errorMessage]
        return { totals with passed := totals.passed + 1 }
    | .skipped => do
        record [.cmprintf .testSkipped testNumber ts.test.nameText ts.errorMessage]
        return { totals with skipped := totals.skipped + 1 }
    | .failed => do
        record [.cmprintf .testFailure testNumber ts.test.nameText ts.errorMessage]
        return { totals with failed := totals.failed + 1 }
    | _ => do
        record [.cmprintf .testError testNumber ts.test.nameText
          (some "Internal cmocka error".toList)]
        return { totals with errors := totals.errors + 1 }
  else do
    let errMsg := ("Could not run test: ".toList ++ fmtS ts.errorMessage).take 2047
    record [.cmprintf .testError testNumber ts.test.nameText (some errMsg)]
    return { totals with errors := totals.errors + 1 }

/-- The loop over the tests. -/
def runTests (groupState : Addr) : List CMUnitTest → (testNumber : Nat) → Totals →
    CM (Totals × List CMUnitTestState)
  | [], _, totals => return (totals, [])
  | t :: rest, testNumber, totals => do
      record [.cmprintf .testStart testNumber t.nameText none]
      let ts := { CMUnitTestState.ofTest t with state := initialTestState groupState t }
      let (rc, ts) ← cmockaRunOneTests ts
      let totals ← countTest testNumber rc ts totals
      let (totals, done) ← runTests groupState rest (testNumber + 1) totals
      return (totals, ts :: done)

/-- The reports on a failed group fixture: the accumulated message goes to the error stream. -/
def reportGroupFixture (groupName text : CString) : CM Unit := do
  let s ← get
  match s.cmErrorMessage with
  | some message => do
      set { s with cmErrorMessage := none }
      record [.printError ("[  ERROR   ] --- ".toList ++ message ++ "\n".toList)]
  | none => pure ()
  record [.cmprintf .testError 0 groupName (some text)]

/-- `(int)` of a `size_t`. -/
def toCInt (n : Nat) : Int := (n : Int).bmod (2 ^ 32)

/-- The group setup of `_cmocka_run_group_tests`: `rc` and `group_state`. -/
def runGroupSetup (groupSetup : Option UserFn) (groupCheckPoint : BlockNode) :
    CM (Int × Addr) := do
  match groupSetup with
  | none => return (0, 0)
  | some setup => do
      let run ← cmockaRunGroupFixture "cmocka_group_setup".toList (some setup) none 0
        (some groupCheckPoint)
      return (run.rc, run.state)

/-- The group teardown of `_cmocka_run_group_tests`. -/
def runGroupTeardown (groupName : CString) (groupTeardown : Option UserFn) (groupState : Addr)
    (groupCheckPoint : BlockNode) : CM Unit := do
  match groupTeardown with
  | none => return ()
  | some teardown => do
      let run ← cmockaRunGroupFixture "cmocka_group_teardown".toList none (some teardown) groupState
        (some groupCheckPoint)
      if run.rc ≠ 0 then reportGroupFixture groupName "[  FAILED  ] GROUP TEARDOWN".toList

/-- `_cmocka_run_group_tests`; `allocated` says whether `libc_calloc` of the state array
succeeds. -/
def cmockaRunGroupTests (groupName : CString) (tests : List CMUnitTest)
    (groupSetup groupTeardown : Option UserFn) (allocated : Bool) : CM Int := do
  let groupCheckPoint ← checkPointAllocatedBlocks
  if !allocated then return -1
  let s ← get
  let selected := tests.filter (isSelected s.globalTestFilterPattern s.globalSkipFilterPattern)
  record [.groupStart groupName selected.length]
  let (rc, groupState) ← runGroupSetup groupSetup groupCheckPoint
  let (totals, done) ←
    if rc = 0 then runTests groupState selected 1 ⟨0, 0, 0, 0, 0⟩
    else do
      reportGroupFixture groupName "[  FAILED  ] GROUP SETUP".toList
      pure (⟨0, 0, 0, 1, 0⟩, selected.map CMUnitTestState.ofTest)
  runGroupTeardown groupName groupTeardown groupState groupCheckPoint
  record [.groupFinish groupName totals.executed totals.passed totals.failed totals.errors
    totals.skipped (done.map fun ts => (ts.test.nameText, ts.status, ts.errorMessage))]
  failIfBlocksAllocated groupCheckPoint "cmocka_group_tests".toList
  return toCInt (totals.failed + totals.errors)

/-! ### A process -/

/-- One call of `_cmocka_run_group_tests`, after the filters were set. -/
structure Group where
  name : CString
  tests : List CMUnitTest
  setup : Option UserFn
  teardown : Option UserFn
  allocated : Bool
  testFilter : Option CString
  skipFilter : Option CString

/-- A group without fixtures and filters. -/
def Group.ofTests (tests : List CMUnitTest) : Group where
  name := "tests".toList
  tests
  setup := none
  teardown := none
  allocated := true
  testFilter := none
  skipFilter := none

/-- `cmocka_set_test_filter`, `cmocka_set_skip_filter` and `_cmocka_run_group_tests`. -/
def Group.run (g : Group) : CM Int := do
  modify fun s => { s with
    globalTestFilterPattern := g.testFilter, globalSkipFilterPattern := g.skipFilter }
  cmockaRunGroupTests g.name g.tests g.setup g.teardown g.allocated

/-- The groups a process runs, one after the other. -/
def runGroups : List Group → CM (List Int)
  | [] => return []
  | g :: groups => do
      let rc ← g.run
      let rcs ← runGroups groups
      return rc :: rcs

end Cmocka
