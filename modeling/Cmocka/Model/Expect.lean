import Cmocka.Model.State

/-!
# Model — expectations

The calls a test and its mocks make on the three expectation structures: `_will_return` and
`_mock` on the result map, `_expect_check` and `_check_expected` on the parameter map,
`_expect_function_call` and `_function_called` on the call-ordering list.  After them come the
processing at the end of a test: `has_leftover_values`, `fail_if_leftover_values` and
`teardown_testing`.
-/

namespace Cmocka

open SymbolMap

/-- `free()` of values of the expectation structures. -/
def freeAll (ptrs : List Addr) : CM Unit := record (ptrs.map Event.freed)

/-- The address of the next structure allocated for an expectation. -/
def allocPtr : CM Addr := do
  let s ← get
  set { s with nextPtr := s.nextPtr + 1 }
  return s.nextPtr

/-! ### Return values -/

/-- `_will_return`. -/
def willReturn (functionName file : CString) (line : Int) (name : Option CString)
    (value : CMockaValueData) (count : Int) : CM Unit := do
  let ptr ← allocPtr
  assertTrue (count != 0) "count != 0".toList 1141
  let returnValue : SymbolValue :=
    { ptr, name, location := setSourceLocation file line, value }
  modify fun s => { s with
    globalFunctionResultMap :=
      addSymbolValue [functionName] returnValue count s.globalFunctionResultMap }
  record [.willReturn ptr functionName count]

/-- The report of a type mismatch in `_mock`. -/
def typeMismatchReport (function file : CString) (line : Int) (name : CString)
    (symbol : SymbolValue) (lastLocation : SourceLocation) : List CString :=
  (fmtFileLine file line ++ ": error: Type mismatch: name[".toList ++
    symbol.name.getD "NULL".toList ++ "] expected[".toList ++ name ++ "]in ".toList ++ function ++
    "\n".toList) ::
  if sourceLocationIsSet lastLocation then
    ["NOTE: The value to be returned by mock declared here: ".toList ++
      fmtLocation lastLocation ++ "\n".toList]
  else []

/-- The report of a missing value in `_mock`. -/
def noMockValueReport (function file : CString) (line : Int) (lastLocation : SourceLocation) :
    List CString :=
  [fmtFileLine file line ++ ": error: Could not get value to mock function ".toList ++ function ++
    "\n".toList,
   if sourceLocationIsSet lastLocation then
     fmtLocation lastLocation ++
       ": note: Previously returned mock value was declared here\n".toList
   else "There were no previously returned mock values for this test.\n".toList]

/-- The type check of `_mock`: a requested name must be the name the value was stored with. -/
def typeMatches (name : Option CString) (symbol : SymbolValue) : Bool :=
  match name with
  | none => true
  | some n => symbol.name == some n

/-- `_mock`.  The mismatch branch releases the value whatever its reference count. -/
def mock (function file : CString) (line : Int) (name : Option CString) :
    CM CMockaValueData := do
  let s ← get
  match getSymbolValue [function] s.globalFunctionResultMap with
  | none => do
      assertTrue false "return_value".toList 856
      throw .undefined
  | some r => do
      set { s with globalFunctionResultMap := r.list }
      printAll r.printed
      match r.output with
      | some symbol =>
          if r.returnValue = 0 then do
            printAll (noMockValueReport function file line s.globalLastMockValueLocation)
            exitTest .fail true
            return 0
          else if typeMatches name symbol then do
            modify fun s => { s with globalLastMockValueLocation := symbol.location }
            if r.returnValue = 1 then freeAll [symbol.ptr]
            record [.mocked symbol.ptr]
            return symbol.value
          else do
            printAll (typeMismatchReport function file line (name.getD []) symbol
              s.globalLastMockValueLocation)
            freeAll [symbol.ptr]
            exitTest .fail true
            throw .undefined
      | none => do
          printAll (noMockValueReport function file line s.globalLastMockValueLocation)
          exitTest .fail true
          return 0

/-! ### Parameter checks -/

/-- `_expect_check`; the event is allocated here or by the caller. -/
def expectCheck (function parameter file : CString) (line : Int)
    (checkFunction : CheckParameterValue) (checkData : CMockaValueData) (count : Int) :
    CM Unit := do
  let ptr ← allocPtr
  let check : CheckParameterEvent :=
    { ptr, location := setSourceLocation file line, parameterName := parameter
      checkValue := checkFunction, checkValueData := checkData }
  modify fun s => { s with
    globalFunctionParameterMap :=
      addSymbolValue [function, parameter] check count s.globalFunctionParameterMap }
  record [.expectCheck ptr function parameter count]

/-- The report of a failed check in `_check_expected`. -/
def checkFailedReport (functionName parameterName file : CString) (line : Int)
    (lastLocation : SourceLocation) : CString :=
  fmtFileLine file line ++ ": error: Check of parameter ".toList ++ parameterName ++
    ", function ".toList ++ functionName ++ " failed\n".toList ++ fmtLocation lastLocation ++
    ": note: Expected parameter declared here\n".toList

/-- The report of a missing value in `_check_expected`. -/
def noCheckValueReport (functionName parameterName file : CString) (line : Int)
    (lastLocation : SourceLocation) : List CString :=
  [fmtFileLine file line ++ ": error: Could not get value to check parameter ".toList ++
    parameterName ++ " of function ".toList ++ functionName ++ "\n".toList,
   if sourceLocationIsSet lastLocation then
     fmtLocation lastLocation ++
       ": note: Previously declared parameter value was declared here\n".toList
   else "There were no previously declared parameter values for this test.\n".toList]

/-- `check->check_value(value, check->check_value_data)`. -/
def CheckParameterEvent.call (check : CheckParameterEvent) (value : CMockaValueData) :
    CM CheckOutcome := do
  let (printed, outcome) := check.checkValue value check.checkValueData
  record [.checkCalled check.ptr value outcome]
  printAll printed
  return outcome

/-- `_check_expected`. -/
def checkExpected (functionName parameterName file : CString) (line : Int)
    (value : CMockaValueData) : CM Unit := do
  let s ← get
  match getSymbolValue [functionName, parameterName] s.globalFunctionParameterMap with
  | none => do
      assertTrue false "return_value".toList 856
      throw .undefined
  | some r => do
      set { s with globalFunctionParameterMap := r.list }
      printAll r.printed
      match r.output with
      | some check =>
          if r.returnValue = 0 then do
            printAll (noCheckValueReport functionName parameterName file line
              s.globalLastParameterLocation)
            exitTest .fail true
          else do
            modify fun s => { s with globalLastParameterLocation := check.location }
            match ← check.call value with
            | .failed file line => fail file line
            | .returned checkSucceeded => do
                if r.returnValue = 1 then freeAll [check.ptr]
                if checkSucceeded then record [.checked check.ptr]
                else do
                  cmockaPrintError (checkFailedReport functionName parameterName file line
                    check.location)
                  fail file line
      | none => do
          printAll (noCheckValueReport functionName parameterName file line
            s.globalLastParameterLocation)
          exitTest .fail true

/-! ### Call ordering -/

/-- `_expect_function_call`. -/
def expectFunctionCall (functionName file : CString) (line : Int) (count : Int) : CM Unit := do
  assertTrue (count != 0) "count != 0".toList 1194
  let ptr ← allocPtr
  let ordering : FuncOrderingValue :=
    { ptr, location := setSourceLocation file line, function := functionName }
  modify fun s => { s with globalCallOrdering := s.globalCallOrdering ++ [(ordering, count)] }
  record [.expectFunctionCall ptr functionName count]

/-- The search of `_function_called`: the first entry for the function, or the first entry with a
reference count above `-2`, whichever comes first, with the entries around it. -/
def scanCalls (function : CString) : List (FuncOrderingValue × Int) →
    Option (List (FuncOrderingValue × Int) × (FuncOrderingValue × Int) ×
      List (FuncOrderingValue × Int))
  | [] => none
  | (expected, refcount) :: rest =>
      if expected.function = function ∨ refcount > -2 then some ([], (expected, refcount), rest)
      else (scanCalls function rest).map fun (before, found, after) =>
        ((expected, refcount) :: before, found, after)

/-- `_function_called`. -/
def functionCalled (function file : CString) (line : Int) : CM Unit := do
  let s ← get
  if s.globalCallOrdering.isEmpty then do
    cmockaPrintError (fmtFileLine file line ++
      ": error: No mock calls expected but called() was invoked in ".toList ++ function ++
      "\n".toList)
    exitTest .fail true
  else
    match scanCalls function s.globalCallOrdering with
    | none => do
        cmockaPrintError (fmtFileLine file line ++
          ": error: No expected mock calls matching called() invocation in ".toList ++ function ++
          "\n".toList)
        exitTest .fail true
        throw .undefined
    | some (before, (expected, refcount), after) =>
        if expected.function = function then do
          if refcount > -2 then
            if refcount - 1 = 0 then do
              set { s with globalCallOrdering := before ++ after }
              freeAll [expected.ptr]
            else set { s with globalCallOrdering := before ++ (expected, refcount - 1) :: after }
          record [.called expected.ptr]
        else do
          cmockaPrintError (fmtFileLine file line ++ ": error: Expected call to ".toList ++
            expected.function ++ " but received called() in ".toList ++ function ++ "\n".toList)
          exitTest .fail true

/-! ### The end of a test -/

/-- `remove_always_return_values_from_list`: what stays, and what is released. -/
def removeAlwaysReturnValuesFromList (list : List (FuncOrderingValue × Int)) :
    List (FuncOrderingValue × Int) × List FuncOrderingValue :=
  (list.filter fun e => !(e.2 < -1), (list.filter fun e => e.2 < -1).map Prod.fst)

/-- `check_for_leftover_values_list`: the number of entries left, and the report. -/
def checkForLeftoverValuesList (errorMessage : CString) (list : List (FuncOrderingValue × Int)) :
    Nat × List CString :=
  (list.length, list.flatMap fun e =>
    [errorMessage ++ ": ".toList ++ e.1.function ++ "\n".toList,
     fmtLocation e.1.location ++ ": note: remaining item was declared here\n".toList])

/-- A `SymbolValue *` read as a `SourceLocation *`, as `check_for_leftover_values` does: its first
member is the type name, and its second the pointer to the file name. -/
def symbolValueLocation (platform : Platform) (v : SymbolValue) : SourceLocation :=
  ⟨v.name, (v.location.file.map platform.stringAddr).getD 0⟩

def leftoverResultMessage : CString := "Has remaining non-returned values".toList
def leftoverParameterMessage : CString :=
  "Parameter still has values that haven't been checked".toList
def leftoverCallMessage : CString := "Function was expected to be called but was not".toList

/-- `has_leftover_values` on the result map. -/
def leftoverResults : CM Bool := do
  let s ← get
  let (list, released) := removeAlwaysReturnValues 1 s.globalFunctionResultMap
  set { s with globalFunctionResultMap := list }
  freeAll (released.map SymbolValue.ptr)
  let (leftover, report) :=
    checkForLeftoverValues (symbolValueLocation s.platform) leftoverResultMessage 1 list
  printAll report
  return leftover != 0

/-- `has_leftover_values` on the parameter map. -/
def leftoverParameters : CM Bool := do
  let s ← get
  let (list, released) := removeAlwaysReturnValues 2 s.globalFunctionParameterMap
  set { s with globalFunctionParameterMap := list }
  freeAll (released.map CheckParameterEvent.ptr)
  let (leftover, report) :=
    checkForLeftoverValues CheckParameterEvent.location leftoverParameterMessage 2 list
  printAll report
  return leftover != 0

/-- `has_leftover_values` on the call-ordering list. -/
def leftoverCalls : CM Bool := do
  let s ← get
  let (list, released) := removeAlwaysReturnValuesFromList s.globalCallOrdering
  set { s with globalCallOrdering := list }
  freeAll (released.map FuncOrderingValue.ptr)
  let (leftover, report) := checkForLeftoverValuesList leftoverCallMessage list
  printAll report
  return leftover != 0

/-- `has_leftover_values`. -/
def hasLeftoverValues : CM Bool := do
  let results ← leftoverResults
  let parameters ← leftoverParameters
  let calls ← leftoverCalls
  return results || parameters || calls

/-- `fail_if_leftover_values`. -/
def failIfLeftoverValues : CM Unit := do
  if ← hasLeftoverValues then exitTest .fail true

/-- `initialize_testing`. -/
def initializeTesting : CM Unit :=
  modify fun s => { s with
    globalFunctionResultMap := []
    globalLastMockValueLocation := initializeSourceLocation
    globalFunctionParameterMap := []
    globalLastParameterLocation := initializeSourceLocation
    globalCallOrdering := [] }

/-- `list_free(&global_call_ordering_head, free_value, NULL)`. -/
def freeCallOrdering : List (FuncOrderingValue × Int) →
    List (FuncOrderingValue × Int) × List FuncOrderingValue
  | [] => ([], [])
  | e :: rest =>
      let (list, released) := freeCallOrdering rest
      (list, e.1 :: released)

/-- `teardown_testing`. -/
def teardownTesting : CM Unit := do
  let s ← get
  let (results, releasedResults) := listFree (freeSymbolMapValue 0) s.globalFunctionResultMap
  let (parameters, releasedParameters) :=
    listFree (freeSymbolMapValue 1) s.globalFunctionParameterMap
  let (calls, releasedCalls) := freeCallOrdering s.globalCallOrdering
  set { s with
    globalFunctionResultMap := results
    globalLastMockValueLocation := initializeSourceLocation
    globalFunctionParameterMap := parameters
    globalLastParameterLocation := initializeSourceLocation
    globalCallOrdering := calls
    globalLastCallOrderingLocation := initializeSourceLocation }
  freeAll (releasedResults.map SymbolValue.ptr)
  freeAll (releasedParameters.map CheckParameterEvent.ptr)
  freeAll (releasedCalls.map FuncOrderingValue.ptr)

end Cmocka
