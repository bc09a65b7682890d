import Cmocka.Model.Display
import Cmocka.Model.Runner

/-!
# Model — assertions

The functions behind the macros `assert_…` of `cmocka.h`: each makes a comparison of `Model.Display`
and ends the test by `_fail` if it does not succeed.  The assertions that compare floating-point
numbers are left out.

An `Assertion` is a call of one of them, and a `TestText` a test function that makes such calls
between the calls of `Op`.
-/

namespace Cmocka

/-- A call of a function `…_display_error`. -/
def displays (d : Displayed) : CM Bool := do
  printAll d.1
  return d.2

/-- The shape most assertions have. -/
def assertDisplayed (d : Displayed) (file : CString) (line : Int) : CM Unit := do
  let ok ← displays d
  if !ok then fail file line

/-- `_additional_msg`. -/
def additionalMsg (msg : CString) : CM Unit := do
  let output ← getOutput
  if hasOutput output cmOutputStandard then
    cmockaPrintError ("[          ] --- ".toList ++ msg ++ "\n".toList)
  if hasOutput output cmOutputSubunit || hasOutput output cmOutputTap ||
      hasOutput output cmOutputXml then
    cmockaPrintError (msg ++ "\n".toList)

namespace Asserts

/-! ### Conditions -/

/-- `_assert_true`. -/
def assertTrue (result : MaxWord) (expression file : CString) (line : Int) : CM Unit :=
  if result = 0 then do
    cmockaPrintError (expression ++ " is not true\n".toList)
    fail file line
  else return ()

/-- `_assert_false`. -/
def assertFalse (result : MaxWord) (expression file : CString) (line : Int) : CM Unit :=
  if result ≠ 0 then do
    cmockaPrintError (expression ++ " is not false\n".toList)
    fail file line
  else return ()

/-- `_assert_return_code`; `strerror` is the function of the C library. -/
def assertReturnCode (strerror : Int → CString) (result : MaxWord) (error : BitVec 32)
    (expression file : CString) (line : Int) : CM Unit :=
  if result.toInt < 0 then do
    if error.toInt > 0 then
      cmockaPrintError (expression ++ " < 0, errno(".toList ++ (toString error.toInt).toList ++
        "): ".toList ++ strerror error.toInt ++ "\n".toList)
    else cmockaPrintError (expression ++ " < 0\n".toList)
    fail file line
  else return ()

/-! ### Equality -/

/-- `_assert_int_equal`. -/
def assertIntEqual (a b : MaxWord) := assertDisplayed (intValuesEqualDisplayError a b)

/-- `_assert_int_not_equal`. -/
def assertIntNotEqual (a b : MaxWord) := assertDisplayed (intValuesNotEqualDisplayError a b)

/-- `_assert_uint_equal`. -/
def assertUintEqual (a b : MaxWord) := assertDisplayed (uintValuesEqualDisplayError a b)

/-- `_assert_uint_not_equal`. -/
def assertUintNotEqual (a b : MaxWord) := assertDisplayed (uintValuesNotEqualDisplayError a b)

/-- The two assertions about pointers; `msg` may be `NULL`. -/
def assertPtrMsg (d : Displayed) (file : CString) (line : Int) (msg : Option CString) :
    CM Unit := do
  let ok ← displays d
  if !ok then do
    match msg with
    | some msg => additionalMsg msg
    | none => pure ()
    fail file line

/-- `_assert_ptr_equal_msg`. -/
def assertPtrEqualMsg (a b : Addr) := assertPtrMsg (ptrValuesEqualDisplayError a b)

/-- `_assert_ptr_not_equal_msg`. -/
def assertPtrNotEqualMsg (a b : Addr) := assertPtrMsg (ptrValuesNotEqualDisplayError a b)

/-- `_assert_string_equal`. -/
def assertStringEqual (a b : CString) := assertDisplayed (stringEqualDisplayError a b)

/-- `_assert_string_not_equal`. -/
def assertStringNotEqual (a b : CString) := assertDisplayed (stringNotEqualDisplayError a b)

/-- `_assert_memory_equal`. -/
def assertMemoryEqual (a b : List (BitVec 8)) (file : CString) (line : Int) : CM Unit := do
  let s ← get
  match memoryEqualDisplayError s.platform a b with
  | none => throw .undefined
  | some d => assertDisplayed d file line

/-- `_assert_memory_not_equal`. -/
def assertMemoryNotEqual (ptrA ptrB : Addr) (a b : List (BitVec 8)) :=
  assertDisplayed (memoryNotEqualDisplayError ptrA ptrB a b)

/-! ### Ranges -/

/-- `_assert_int_in_range`. -/
def assertIntInRange (value minimum maximum : MaxWord) :=
  assertDisplayed (intInRangeDisplayError value minimum maximum)

/-- `_assert_int_not_in_range`. -/
def assertIntNotInRange (value minimum maximum : MaxWord) :=
  assertDisplayed (intNotInRangeDisplayError value minimum maximum)

/-- `_assert_uint_in_range`. -/
def assertUintInRange (value minimum maximum : MaxWord) :=
  assertDisplayed (uintInRangeDisplayError value minimum maximum)

/-- `_assert_uint_not_in_range`. -/
def assertUintNotInRange (value minimum maximum : MaxWord) :=
  assertDisplayed (uintNotInRangeDisplayError value minimum maximum)

end Asserts

/-! ### Calls of assertions -/

/-- A call of an assertion.  An area of memory comes with its address, and an array is passed on with
its length. -/
inductive Assertion where
  | isTrue (result : MaxWord) (expression : CString)
  | isFalse (result : MaxWord) (expression : CString)
  | returnCode (strerror : Int → CString) (result : MaxWord) (error : BitVec 32)
      (expression : CString)
  | intEqual (a b : MaxWord)
  | intNotEqual (a b : MaxWord)
  | uintEqual (a b : MaxWord)
  | uintNotEqual (a b : MaxWord)
  | ptrEqual (a b : Addr) (msg : Option CString)
  | ptrNotEqual (a b : Addr) (msg : Option CString)
  | stringEqual (a b : CString)
  | stringNotEqual (a b : CString)
  | memoryEqual (size : Nat) (a b : Vector (BitVec 8) size)
  | memoryNotEqual (ptrA ptrB : Addr) (size : Nat) (a b : Vector (BitVec 8) size)
  | intInRange (value minimum maximum : MaxWord)
  | intNotInRange (value minimum maximum : MaxWord)
  | uintInRange (value minimum maximum : MaxWord)
  | uintNotInRange (value minimum maximum : MaxWord)
  | intInSet (value : MaxWord) (values : List MaxWord)
  | intNotInSet (value : MaxWord) (values : List MaxWord)
  | uintInSet (value : MaxWord) (values : List MaxWord)
  | uintNotInSet (value : MaxWord) (values : List MaxWord)
  | notInSet (value : MaxWord) (values : List MaxWord)

/-- The call. -/
def Assertion.exec (file : CString) (line : Int) : Assertion → CM Unit
  | .isTrue result expression => Asserts.assertTrue result expression file line
  | .isFalse result expression => Asserts.assertFalse result expression file line
  | .returnCode strerror result error expression =>
      Asserts.assertReturnCode strerror result error expression file line
  | .intEqual a b => Asserts.assertIntEqual a b file line
  | .intNotEqual a b => Asserts.assertIntNotEqual a b file line
  | .uintEqual a b => Asserts.assertUintEqual a b file line
  | .uintNotEqual a b => Asserts.assertUintNotEqual a b file line
  | .ptrEqual a b msg => Asserts.assertPtrEqualMsg a b file line msg
  | .ptrNotEqual a b msg => Asserts.assertPtrNotEqualMsg a b file line msg
  | .stringEqual a b => Asserts.assertStringEqual a b file line
  | .stringNotEqual a b => Asserts.assertStringNotEqual a b file line
  | .memoryEqual _ a b => Asserts.assertMemoryEqual a.toList b.toList file line
  | .memoryNotEqual ptrA ptrB _ a b =>
      Asserts.assertMemoryNotEqual ptrA ptrB a.toList b.toList file line
  | .intInRange value minimum maximum => Asserts.assertIntInRange value minimum maximum file line
  | .intNotInRange value minimum maximum =>
      Asserts.assertIntNotInRange value minimum maximum file line
  | .uintInRange value minimum maximum => Asserts.assertUintInRange value minimum maximum file line
  | .uintNotInRange value minimum maximum =>
      Asserts.assertUintNotInRange value minimum maximum file line
  | .intInSet value values => assertIntInSet value values values.length file line
  | .intNotInSet value values => assertIntNotInSet value values values.length file line
  | .uintInSet value values => assertUintInSet value values values.length file line
  | .uintNotInSet value values => assertUintNotInSet value values values.length file line
  | .notInSet value values => assertNotInSet value values values.length file line

/-! ### Test functions -/

/-- A statement of a test function. -/
inductive Statement where
  | call (op : Op)
  | assertion (a : Assertion) (file : CString) (line : Int)

/-- One statement. -/
def Statement.exec : Statement → CM Unit
  | .call op => op.exec
  | .assertion a file line => a.exec file line

/-- The statements, in order. -/
def execStatements : List Statement → CM Unit
  | [] => return ()
  | statement :: statements => do
      statement.exec
      execStatements statements

/-- What a test function with assertions does. -/
structure TestText where
  statements : List Statement
  ending : ScriptEnd

/-- The test function, from its start. -/
def TestText.exec (text : TestText) : CM Int := do
  execStatements text.statements
  text.ending.exec

end Cmocka
