import Cmocka.Model.Runner

/-!
# Model — `mock_assert` and `expect_assert_failure`

Tests made of `mock_assert` calls, failing assertions, `stop`, `skip` and `expect_assert_failure`
blocks, and their run by `cmocka_run_one_test_or_fixture`.  The macro has one flag and one jump
buffer, which hold no information about the blocks around it.  A buffer is modelled by the number of
the block that set it; a jump to a block that is not being executed is undefined behaviour.

`events` is not in the source: it records, in order, the flag each test starts with, where blocks
begin and end, each `mock_assert` of something false with what it finds in the variables, where
control arrives after a jump, and how tests and the process end.
-/

namespace Cmocka

/-! ### Test bodies -/

/-- The code of a test. -/
inductive TestBody where
  | done
  | mockAssert (result : Bool) (expression file : CString) (line : Int) (rest : TestBody)
  | fail (file : CString) (line : Int) (rest : TestBody)
  | stop (rest : TestBody)
  | skip (file : CString) (line : Int) (rest : TestBody)
  | expectAssertFailure (block : TestBody) (functionCall file : CString) (line : Int)
      (rest : TestBody)

/-! ### The state -/

/-- A `mock_assert` of something false: its arguments and what it finds in the variables. -/
structure FailedAssert where
  expression : CString
  file : CString
  line : Int
  globalExpectingAssert : Bool
  globalExpectAssertEnv : Nat
  formats : BitVec 32
  cmErrorMessage : Option CString
  deriving DecidableEq

/-- What is recorded of a run of tests. -/
inductive AssertEvent where
  | testStart (globalExpectingAssert : Bool)
  | blockStart (block : Nat)
  | assertFailed (call : FailedAssert)
  | returnedTo (block : Nat) (globalLastFailedAssert : Option CString)
  | blockEnd
  | testEnd (rc : Int) (cmErrorMessage : Option CString)
  | processEnd (e : Exit)
  deriving DecidableEq

/-- The state of the library with the three variables of the macro. -/
structure AssertState where
  globals : Globals
  globalExpectingAssert : Bool
  /-- The block that set the jump buffer, `0` for none. -/
  globalExpectAssertEnv : Nat
  globalLastFailedAssert : Option CString
  /-- What `print_message` printed. -/
  stdout : CString
  nextBlock : Nat
  events : List AssertEvent

def AssertState.initial (platform : Platform) : AssertState where
  globals := Globals.initial platform
  globalExpectingAssert := false
  globalExpectAssertEnv := 0
  globalLastFailedAssert := none
  stdout := []
  nextBlock := 1
  events := []

/-- The ways to leave a function: those of the library, and a jump to `global_expect_assert_env`. -/
inductive AssertExit where
  | library (e : Exit)
  | longjmp (block : Nat)
  deriving DecidableEq

abbrev AM := EStateM AssertExit AssertState

/-- A computation of the library. -/
def library {β : Type} (x : CM β) : AM β := fun s =>
  match x s.globals with
  | .ok b globals => .ok b { s with globals }
  | .error e globals => .error (.library e) { s with globals }

/-- The process ends. -/
def AssertState.ended (s : AssertState) (e : Exit) : AssertState :=
  { s with events := s.events ++ [.processEnd e] }

/-- What a `mock_assert` of something false finds; the formats are those `cm_get_output` selects. -/
def AssertState.failedAssert (s : AssertState) (expression file : CString) (line : Int) :
    FailedAssert where
  expression
  file
  line
  globalExpectingAssert := s.globalExpectingAssert
  globalExpectAssertEnv := s.globalExpectAssertEnv
  formats := (cmGetOutput s.globals.platform.cmockaMessageOutput s.globals.envChecked
    s.globals.globalMsgOutput).1
  cmErrorMessage := s.globals.cmErrorMessage

/-! ### The calls -/

/-- `mock_assert`. -/
def mockAssert (result : Bool) (expression file : CString) (line : Int) : AM Unit :=
  if result then return ()
  else do
    let s ← get
    if s.globalExpectingAssert then do
      modify fun s => { s with globalLastFailedAssert := some expression }
      throw (.longjmp s.globalExpectAssertEnv)
    else do
      library (cmockaPrintError ("ASSERT: ".toList ++ expression ++ "\n".toList))
      library (fail file line)

/-- A call of `mock_assert` in the code of a test.  One of something false is recorded. -/
def callMockAssert (result : Bool) (expression file : CString) (line : Int) : AM Unit := do
  if !result then modify fun s =>
    { s with events := s.events ++ [.assertFailed (s.failedAssert expression file line)] }
  mockAssert result expression file line

/-- The beginning of the macro, up to its `setjmp`: the flag, the buffer and the block's number. -/
def enterBlock : AM Nat := do
  let s ← get
  modify fun s => { s with
    globalExpectingAssert := true
    globalExpectAssertEnv := s.nextBlock
    nextBlock := s.nextBlock + 1
    events := s.events ++ [.blockStart s.nextBlock] }
  return s.nextBlock

/-- `global_expecting_assert = 0` at the two ends of the macro. -/
def leaveBlock : AM Unit :=
  modify fun s => { s with globalExpectingAssert := false, events := s.events ++ [.blockEnd] }

/-- `setjmp(global_expect_assert_env)` of a block: `jumped` runs after a jump to this block. -/
def setjmpAssert (block : Nat) (body jumped : AM Unit) : AM Unit := fun s =>
  match body s with
  | .ok () s' => .ok () s'
  | .error (.longjmp target) s' =>
      if target = block then jumped s' else .error (.longjmp target) s'
  | .error (.library e) s' => .error (.library e) s'

/-- What the macro prints after a jump. -/
def expectedAssertion (globalLastFailedAssert : Option CString) : CString :=
  "Expected assertion ".toList ++ fmtS globalLastFailedAssert ++ " occurred\n".toList

/-- `expect_assert_failure(function_call)`. -/
def expectAssertFailure (functionCall file : CString) (line : Int) (body : AM Unit) : AM Unit := do
  let block ← enterBlock
  setjmpAssert block
    (do
      body
      leaveBlock
      library (record [.printError ("Expected assert in ".toList ++ functionCall ++ "\n".toList)])
      library (fail file line))
    (do
      modify fun s => { s with
        stdout := s.stdout ++ expectedAssertion s.globalLastFailedAssert
        events := s.events ++ [.returnedTo block s.globalLastFailedAssert] }
      leaveBlock)

/-- The code of a test, from its start. -/
def TestBody.exec : TestBody → AM Unit
  | .done => return ()
  | .mockAssert result expression file line rest => do
      callMockAssert result expression file line
      rest.exec
  | .fail file line rest => do
      library (Cmocka.fail file line)
      rest.exec
  | .stop rest => do
      library Cmocka.stop
      rest.exec
  | .skip file line rest => do
      library (Cmocka.skip file line)
      rest.exec
  | .expectAssertFailure block functionCall file line rest => do
      Cmocka.expectAssertFailure functionCall file line block.exec
      rest.exec

/-! ### The runner -/

/-- `cm_setjmp(global_run_test_env)`.  A jump to a block that is left from here on has no frame to
go to. -/
def setjmpRunner {β : Type} (body : AM β) (jumped : Reason → AM β) : AM β := fun s =>
  match body s with
  | .ok b s' => .ok b s'
  | .error (.library (.longjmp reason)) s' => jumped reason s'
  | .error (.library e) s' => .error (.library e) (s'.ended e)
  | .error (.longjmp _) s' => .error (.library .undefined) (s'.ended .undefined)

/-- `cmocka_run_one_test_or_fixture` of a test function. -/
def runAssertTest (functionName : CString) (body : TestBody) : AM Int := do
  let checkPoint ← library checkPointAllocatedBlocks
  library initializeTesting
  library (modify fun s => { s with globalRunningTest := true })
  let (rc, _) ← setjmpRunner
    (do
      modify fun s => { s with events := s.events ++ [.testStart s.globalExpectingAssert] }
      body.exec
      library (failIfBlocksAllocated checkPoint functionName)
      library failIfLeftoverValues
      library (modify fun s => { s with globalRunningTest := false })
      return (0, Ending.returned 0))
    (fun reason => library (runAfterLongjmp reason))
  library teardownTesting
  modify fun s => { s with events := s.events ++ [.testEnd rc s.globals.cmErrorMessage] }
  return rc

/-- The tests of a process, one after the other.  As in `cmocka_run_one_tests`, the skip flag is
cleared after a test that did not pass, and the message goes. -/
def runAssertTests : List (CString × TestBody) → AM (List Int)
  | [] => return []
  | (functionName, body) :: rest => do
      let rc ← runAssertTest functionName body
      if rc ≠ 0 then library (modify fun s => { s with globalSkipTest := false })
      library (modify fun s => { s with cmErrorMessage := none })
      let rcs ← runAssertTests rest
      return rc :: rcs

end Cmocka
