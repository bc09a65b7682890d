import Cmocka.Model.SymbolMap
import Cmocka.Model.Lists

/-!
# Model — the state of the process

The static variables of the library as one record, `Globals`, and the computations over it, `CM`: a
computation ends normally or by one of the ways C code leaves a function for good (`Exit`), and in
both cases the state it leaves behind stays.  `cm_longjmp` is the only exit the runner catches.

`trace` and `nextPtr` are not in the source.  `nextPtr` numbers the structures allocated for
expectations, so that each has an identity of its own; `trace` records, in order, what happens to
them, which callbacks run and what is reported.  No modelled function reads either, except to
allocate the next number and append the next event.
-/

namespace Cmocka

/-! ### Values in the expectation structures -/

/-- `CMockaValueData`: the 64 bits of the union. -/
abbrev CMockaValueData := BitVec 64

/-- `SymbolValue`, with the address of its allocation. -/
structure SymbolValue where
  ptr : Addr
  name : Option CString
  location : SourceLocation
  value : CMockaValueData
  deriving DecidableEq

/-- What a check function does: it prints, and returns or ends the test by `fail`. -/
inductive CheckOutcome where
  | returned (succeeded : Bool)
  | failed (file : CString) (line : Int)
  deriving DecidableEq

/-- `CheckParameterValue`: the texts printed and the outcome, given the value and
`check_value_data`. -/
abbrev CheckParameterValue := CMockaValueData → CMockaValueData → List CString × CheckOutcome

/-- `CheckParameterEvent`, with the address of its allocation. -/
structure CheckParameterEvent where
  ptr : Addr
  location : SourceLocation
  parameterName : CString
  checkValue : CheckParameterValue
  checkValueData : CMockaValueData

/-- `FuncOrderingValue`, with the address of its allocation. -/
structure FuncOrderingValue where
  ptr : Addr
  location : SourceLocation
  function : CString
  deriving DecidableEq

/-! ### Allocated blocks -/

/-- A `ListNode *` into the list of allocated blocks: the head `global_allocated_blocks`, or the
node inside the header at an address. -/
inductive BlockNode where
  | head
  | header (info : Addr)
  deriving DecidableEq

/-- `struct MallocBlockInfoData` without its list node.  `serial` numbers the allocations; it is
not in the source. -/
structure MallocBlockInfoData where
  block : Addr
  allocatedSize : Nat
  size : Nat
  location : SourceLocation
  serial : Nat
  deriving DecidableEq

/-- The memory the tracked allocator works on: the list nodes and headers of the live blocks, the
bytes, and `errno`. -/
structure Heap where
  nodes : NodeHeap BlockNode
  info : Addr → Option MallocBlockInfoData
  mem : Addr → BitVec 8
  nextSerial : Nat
  errno : Int

/-! ### Events -/

/-- The parameter of `cmocka_run_one_test_or_fixture` a callback is passed as. -/
inductive CallbackKind where
  | test
  | setup
  | teardown
  deriving DecidableEq

/-- Who called `exit_test`. -/
inductive Reason where
  | fail
  | skip
  | stop
  deriving DecidableEq

/-- How a run of a callback ended: it returned and passed the checks after it, or
`exit_test` was called. -/
inductive Ending where
  | returned (code : Int)
  | jumped (reason : Reason)
  deriving DecidableEq

/-- One run of a callback by `cmocka_run_one_test_or_fixture`: the function pointer, the value of
`*state` before and after, how it ended, and the returned `rc`. -/
structure Invocation where
  fn : Addr
  kind : CallbackKind
  received : Addr
  left : Addr
  ending : Ending
  rc : Int
  deriving DecidableEq

/-- What a callback finds in, or leaves in, the expectation structures and flags. -/
structure Snapshot where
  resultMapEmpty : Bool
  parameterMapEmpty : Bool
  callOrderingEmpty : Bool
  globalRunningTest : Bool
  globalStopTest : Bool
  globalLastMockValueLocation : SourceLocation
  globalLastParameterLocation : SourceLocation
  deriving DecidableEq

/-- `enum CMUnitTestStatus`. -/
inductive CMUnitTestStatus where
  | notStarted
  | passed
  | failed
  | error
  | skipped
  deriving DecidableEq

/-- The callbacks of one test that were run, and the status recorded for it. -/
structure TestRecord where
  setup : Option Invocation
  test : Option Invocation
  teardown : Option Invocation
  status : CMUnitTestStatus
  deriving DecidableEq

/-- `enum cm_printf_type`. -/
inductive CmPrintfType where
  | testStart
  | testSuccess
  | testFailure
  | testError
  | testSkipped
  deriving DecidableEq

/-- What is recorded of a run. -/
inductive Event where
  | willReturn (ptr : Addr) (function : CString) (count : Int)
  | mocked (ptr : Addr)
  | expectCheck (ptr : Addr) (function parameter : CString) (count : Int)
  | checkCalled (ptr : Addr) (value : CMockaValueData) (outcome : CheckOutcome)
  | checked (ptr : Addr)
  | expectFunctionCall (ptr : Addr) (function : CString) (count : Int)
  | called (ptr : Addr)
  | freed (ptr : Addr)
  | enter (fn : Addr) (snapshot : Snapshot)
  | leave (invocation : Invocation) (snapshot : Snapshot)
  | testDone (record : TestRecord)
  | groupStart (groupName : CString) (totalTests : Nat)
  | cmprintf (type : CmPrintfType) (testNumber : Nat) (testName : CString)
      (errorMessage : Option CString)
  | printError (text : CString)
  | groupFinish (groupName : CString) (executed passed failed errors skipped : Nat)
      (tests : List (CString × CMUnitTestStatus × Option CString))
  deriving DecidableEq

/-! ### The state -/

/-- What the process is started with: the environment variables the library reads, the sizes the
compiler chose, and where the program's string literals lie. -/
structure Platform where
  cmockaTestAbort : Option CString
  cmockaMessageOutput : Option CString
  /-- The width of `size_t`. -/
  sizeBits : Nat
  /-- `sizeof(struct MallocBlockInfoData)`. -/
  sizeofMallocBlockInfoData : Nat
  stringAddr : CString → Addr

/-- A 64-bit process without the environment variables; its file names are one literal. -/
def Platform.lp64 : Platform where
  cmockaTestAbort := none
  cmockaMessageOutput := none
  sizeBits := 64
  sizeofMallocBlockInfoData := 72
  stringAddr := fun _ => 0x402000

/-- The static variables of the library. -/
structure Globals where
  platform : Platform
  cmErrorMessage : Option CString
  envChecked : Bool
  globalMsgOutput : BitVec 32
  globalRunningTest : Bool
  globalSkipTest : Bool
  globalStopTest : Bool
  globalFunctionResultMap : List (MapNode SymbolValue)
  globalLastMockValueLocation : SourceLocation
  globalFunctionParameterMap : List (MapNode CheckParameterEvent)
  globalLastParameterLocation : SourceLocation
  globalCallOrdering : List (FuncOrderingValue × Int)
  globalLastCallOrderingLocation : SourceLocation
  globalTestFilterPattern : Option CString
  globalSkipFilterPattern : Option CString
  globalAllocatedBlocks : Heap
  /-- `*state` of the callback being run. -/
  stateCell : Addr
  nextPtr : Addr
  trace : List Event

/-- The state the process starts in.  The head of the list of allocated blocks is zeroed, which is
what `get_allocated_blocks_list` tests. -/
def Globals.initial (platform : Platform) : Globals where
  platform
  cmErrorMessage := none
  envChecked := false
  globalMsgOutput := cmOutputStandard
  globalRunningTest := false
  globalSkipTest := false
  globalStopTest := false
  globalFunctionResultMap := []
  globalLastMockValueLocation := initializeSourceLocation
  globalFunctionParameterMap := []
  globalLastParameterLocation := initializeSourceLocation
  globalCallOrdering := []
  globalLastCallOrderingLocation := initializeSourceLocation
  globalTestFilterPattern := none
  globalSkipFilterPattern := none
  globalAllocatedBlocks :=
    { nodes := fun a => if a = .head then
        some { value := 0, refcount := 0, next := .head, prev := .head } else none
      info := fun _ => none
      mem := fun _ => 0
      nextSerial := 0
      errno := 0 }
  stateCell := 0
  nextPtr := 1
  trace := []

/-- How C code leaves a function for good: `cm_longjmp(global_run_test_env, 1)`, `abort()`,
`exit(EXIT_FAILURE)`, or undefined behaviour. -/
inductive Exit where
  | longjmp (reason : Reason)
  | abort
  | exitFailure
  | undefined
  deriving DecidableEq

/-- Computations over the state. -/
abbrev CM := EStateM Exit Globals

/-- Append to the trace. -/
def record (events : List Event) : CM Unit :=
  modify fun s => { s with trace := s.trace ++ events }

/-! ### Printing and leaving -/

/-- `cmocka_print_error`; `cm_error_message_enabled` is always set. -/
def cmockaPrintError (text : CString) : CM Unit :=
  modify fun s => { s with cmErrorMessage := vcmockaPrintError s.cmErrorMessage text }

/-- Several calls of `cmocka_print_error` in a row. -/
def printAll (texts : List CString) : CM Unit :=
  modify fun s => { s with cmErrorMessage := texts.foldl vcmockaPrintError s.cmErrorMessage }

/-- `cm_get_output`. -/
def getOutput : CM (BitVec 32) := do
  let s ← get
  let (output, envChecked, globalMsgOutput) :=
    cmGetOutput s.platform.cmockaMessageOutput s.envChecked s.globalMsgOutput
  set { s with envChecked, globalMsgOutput }
  return output

/-- `abort_test` in `exit_test`. -/
def Platform.abortTest (platform : Platform) : Bool :=
  match platform.cmockaTestAbort with
  | some [c] => c == '1'
  | _ => false

/-- `exit_test`. -/
def exitTest (reason : Reason) (quitApplication : Bool) : CM Unit := do
  let s ← get
  if !s.globalSkipTest && s.platform.abortTest then throw .abort
  else if s.globalRunningTest then throw (.longjmp reason)
  else if quitApplication then throw .exitFailure

/-- `_fail`. -/
def fail {β : Type} (file : CString) (line : Int) : CM β := do
  let output ← getOutput
  if hasOutput output cmOutputStandard then
    cmockaPrintError ("[   LINE   ] --- ".toList ++ fmtFileLine file line ++
      ": error: Failure!".toList)
  if hasOutput output cmOutputSubunit || hasOutput output cmOutputTap ||
      hasOutput output cmOutputXml then
    cmockaPrintError (fmtFileLine file line ++ ": error: Failure!".toList)
  exitTest .fail true
  throw .exitFailure

/-- `_skip`. -/
def skip (file : CString) (line : Int) : CM Unit := do
  cmockaPrintError (fmtFileLine file line ++ ": Skipped!\n".toList)
  modify fun s => { s with globalSkipTest := true }
  exitTest .skip true
  throw .exitFailure

/-- `_stop`. -/
def stop : CM Unit := do
  modify fun s => { s with globalStopTest := true }
  exitTest .stop true
  throw .exitFailure

/-- `__FILE__` in the library's own assertions. -/
def cmockaFile : CString := "src/cmocka.c".toList

/-- `_assert_true` of an assertion in the library, with the text of its condition and its line. -/
def assertTrue (result : Bool) (expression : CString) (line : Int) : CM Unit :=
  if result then return ()
  else do
    cmockaPrintError (expression ++ " is not true\n".toList)
    fail cmockaFile line

/-- `assert_non_null` of an assertion in the library. -/
def assertNonNull {β : Type} (ptr : Option β) (line : Int) : CM β :=
  match ptr with
  | some p => return p
  | none => do
      cmockaPrintError (fmtP 0 ++ " == ".toList ++ fmtP 0 ++ "\n".toList)
      fail cmockaFile line

end Cmocka
