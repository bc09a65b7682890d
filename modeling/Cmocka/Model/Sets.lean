import Cmocka.Model.State

/-!
# Model — the set assertions

The two search functions, the functions that call them, and the six macros of `cmocka.h`.  An array
is a list, and reading outside of it is undefined.  `intmax_t` and `uintmax_t` are words of 64 bits.
Four of the macros copy the caller's array to one of words, element by element, if the array is not
empty; the two deprecated ones pass it on.
-/

namespace Cmocka

/-- `intmax_t` and `uintmax_t`. -/
abbrev MaxWord := BitVec 64

/-- `%jd`. -/
def fmtJd (v : MaxWord) : CString :=
  (if v.toInt < 0 then "-".toList else []) ++ Nat.toDigits 10 v.toInt.natAbs

/-- `%ju`. -/
def fmtJu (v : MaxWord) : CString := Nat.toDigits 10 v.toNat

/-- `struct check_integer_set` and `struct check_unsigned_integer_set`. -/
structure CheckIntegerSet where
  set : List MaxWord
  sizeOfSet : Nat

/-! ### The search -/

/-- The search loop, from `i` on; the result is `succeeded` after it. -/
def searchLoop (value : MaxWord) (set : List MaxWord) :
    (remaining i : Nat) → (succeeded : Bool) → CM Bool
  | 0, _, succeeded => return succeeded
  | remaining + 1, i, succeeded =>
      match set[i]? with
      | none => throw .undefined
      | some element =>
          if element = value then return !succeeded
          else searchLoop value set remaining (i + 1) succeeded

/-- The loop that prints the elements, from `i` on. -/
def printSetLoop (format : MaxWord → CString) (set : List MaxWord) (sizeOfSet : Nat) :
    (remaining i : Nat) → CM Unit
  | 0, _ => return ()
  | remaining + 1, i =>
      match set[i]? with
      | none => throw .undefined
      | some element => do
          cmockaPrintError (format element ++ if i = sizeOfSet - 1 then [] else ", ".toList)
          printSetLoop format set sizeOfSet remaining (i + 1)

/-- The two search functions: they differ in the format of the elements and in their line. -/
def valueInSetDisplayError (format : MaxWord → CString) (line : Int) (value : MaxWord)
    (checkIntegerSet : Option CheckIntegerSet) (invert : Bool) : CM Bool := do
  let c ← assertNonNull checkIntegerSet line
  let succeeded ← searchLoop value c.set c.sizeOfSet 0 invert
  if succeeded then return true
  else do
    cmockaPrintError (format value ++ " is ".toList ++ (if invert then [] else "not ".toList) ++
      "in the set (".toList)
    printSetLoop format c.set c.sizeOfSet c.sizeOfSet 0
    cmockaPrintError ")\n".toList
    return false

/-- `int_value_in_set_display_error`. -/
def intValueInSetDisplayError := valueInSetDisplayError fmtJd 1452

/-- `uint_value_in_set_display_error`. -/
def uintValueInSetDisplayError := valueInSetDisplayError fmtJu 1493

/-! ### The functions -/

/-- A search, and `_fail` if it does not succeed. -/
def assertSearch (search : MaxWord → Option CheckIntegerSet → Bool → CM Bool) (invert : Bool)
    (value : MaxWord) (values : List MaxWord) (numberOfValues : Nat) (file : CString) (line : Int) :
    CM Unit := do
  let ok ← search value (some ⟨values, numberOfValues⟩) invert
  if !ok then fail file line

/-- `_assert_int_in_set`. -/
def assertIntInSet := assertSearch intValueInSetDisplayError false

/-- `_assert_int_not_in_set`. -/
def assertIntNotInSet := assertSearch intValueInSetDisplayError true

/-- `_assert_uint_in_set`. -/
def assertUintInSet := assertSearch uintValueInSetDisplayError false

/-- `_assert_uint_not_in_set`. -/
def assertUintNotInSet := assertSearch uintValueInSetDisplayError true

/-- `_assert_not_in_set`. -/
def assertNotInSet := assertSearch uintValueInSetDisplayError true

/-! ### The macros -/

/-- The copying loop of a macro, from `i` on; `convert` is the conversion of the assignment. -/
def copyLoop {ι : Type} (convert : ι → MaxWord) (values : List ι) :
    (remaining i : Nat) → (cmockaSet : List MaxWord) → CM (List MaxWord)
  | 0, _, cmockaSet => return cmockaSet
  | remaining + 1, i, cmockaSet =>
      match values[i]? with
      | none => throw .undefined
      | some element => copyLoop convert values remaining (i + 1) (cmockaSet ++ [convert element])

/-- A macro that copies: the guard, the loop and the call. -/
def copyingMacro
    (assertion : MaxWord → List MaxWord → Nat → CString → Int → CM Unit) {ι : Type}
    (convert : ι → MaxWord) (value : MaxWord) (values : List ι) (numberOfValues : Nat)
    (file : CString) (line : Int) : CM Unit :=
  if numberOfValues > 0 then do
    let cmockaSet ← copyLoop convert values numberOfValues 0 []
    assertion value cmockaSet numberOfValues file line
  else return ()

section

variable {ι : Type} (convert : ι → MaxWord) (value : MaxWord) (values : List ι)
  (numberOfValues : Nat) (file : CString) (line : Int)

/-- `assert_int_in_set`. -/
def assertIntInSetMacro : CM Unit :=
  copyingMacro assertIntInSet convert value values numberOfValues file line

/-- `assert_int_not_in_set`. -/
def assertIntNotInSetMacro : CM Unit :=
  copyingMacro assertIntNotInSet convert value values numberOfValues file line

/-- `assert_uint_in_set`. -/
def assertUintInSetMacro : CM Unit :=
  copyingMacro assertUintInSet convert value values numberOfValues file line

/-- `assert_uint_not_in_set`. -/
def assertUintNotInSetMacro : CM Unit :=
  copyingMacro assertUintNotInSet convert value values numberOfValues file line

end

/-- `assert_in_set`. -/
def assertInSetMacro (value : MaxWord) (values : List MaxWord) (numberOfValues : Nat)
    (file : CString) (line : Int) : CM Unit :=
  assertUintInSet value values numberOfValues file line

/-- `assert_not_in_set`. -/
def assertNotInSetMacro (value : MaxWord) (values : List MaxWord) (numberOfValues : Nat)
    (file : CString) (line : Int) : CM Unit :=
  assertNotInSet value values numberOfValues file line

end Cmocka
