import Cmocka.Model.DataDiff
import Cmocka.Model.Sets

/-!
# Model — comparing and displaying

The functions `…_display_error`: each compares its arguments, and prints an error unless the
comparison succeeds.  They are given as the texts printed and the result (`Displayed`).  Pointers to
strings and to areas of memory stand for what they point at; where a text has the address in it,
that is an argument of its own.  The two search functions of `Model.Sets` are here again, as what
they print and return on a whole array.
-/

namespace Cmocka

/-- What such a function prints, and what it returns. -/
abbrev Displayed := List CString × Bool

/-- The shape most of them have: the error is displayed unless the condition holds. -/
def displayUnless (holds : Bool) (error : CString) : Displayed :=
  if holds then ([], true) else ([error], false)

/-- `%#jx`. -/
def fmtAltJx (v : MaxWord) : CString :=
  if v = 0 then "0".toList else "0x".toList ++ Nat.toDigits 16 v.toNat

/-- `%ju (%#jx)`. -/
def fmtJuJx (v : MaxWord) : CString := fmtJu v ++ " (".toList ++ fmtAltJx v ++ ")".toList

/-! ### Equality -/

/-- The error of a comparison of two values. -/
def comparison {β : Type} (format : β → CString) (left : β) (operator : CString) (right : β) :
    CString := format left ++ operator ++ format right ++ "\n".toList

/-- `uint_values_equal_display_error`. -/
def uintValuesEqualDisplayError (left right : MaxWord) : Displayed :=
  displayUnless (left == right) (comparison fmtJuJx left " != ".toList right)

/-- `int_values_equal_display_error`. -/
def intValuesEqualDisplayError (left right : MaxWord) : Displayed :=
  displayUnless (left == right) (comparison fmtJd left " != ".toList right)

/-- `uint_values_not_equal_display_error`. -/
def uintValuesNotEqualDisplayError (left right : MaxWord) : Displayed :=
  displayUnless (left != right) (comparison fmtJuJx left " == ".toList right)

/-- `int_values_not_equal_display_error`. -/
def intValuesNotEqualDisplayError (left right : MaxWord) : Displayed :=
  displayUnless (left != right) (comparison fmtJd left " == ".toList right)

/-- `ptr_values_equal_display_error`. -/
def ptrValuesEqualDisplayError (left right : Addr) : Displayed :=
  displayUnless (left == right) (comparison fmtP left " != ".toList right)

/-- `ptr_values_not_equal_display_error`. -/
def ptrValuesNotEqualDisplayError (left right : Addr) : Displayed :=
  displayUnless (left != right) (comparison fmtP left " == ".toList right)

/-- `\"%s\"`. -/
def fmtQuoted (s : CString) : CString := "\"".toList ++ s ++ "\"".toList

/-- `string_equal_display_error`; `strcmp(left, right) == 0` is equality of the strings. -/
def stringEqualDisplayError (left right : CString) : Displayed :=
  displayUnless (left == right) (comparison fmtQuoted left " != ".toList right)

/-- `string_not_equal_display_error`. -/
def stringNotEqualDisplayError (left right : CString) : Displayed :=
  displayUnless (left != right) (comparison fmtQuoted left " == ".toList right)

/-! ### Ranges -/

/-- The error of a range check. -/
def rangeError (format : MaxWord → CString) (value : MaxWord) (middle : CString)
    (rangeMin rangeMax : MaxWord) : CString :=
  format value ++ middle ++ "[".toList ++ format rangeMin ++ ", ".toList ++ format rangeMax ++
    "]\n".toList

/-- `uint_in_range_display_error`. -/
def uintInRangeDisplayError (value rangeMin rangeMax : MaxWord) : Displayed :=
  displayUnless (rangeMin.ule value && value.ule rangeMax)
    (rangeError fmtJu value " is not within the range ".toList rangeMin rangeMax)

/-- `int_in_range_display_error`. -/
def intInRangeDisplayError (value rangeMin rangeMax : MaxWord) : Displayed :=
  displayUnless (rangeMin.sle value && value.sle rangeMax)
    (rangeError fmtJd value " is not within the range ".toList rangeMin rangeMax)

/-- `int_not_in_range_display_error`. -/
def intNotInRangeDisplayError (value rangeMin rangeMax : MaxWord) : Displayed :=
  displayUnless (value.slt rangeMin || rangeMax.slt value)
    (rangeError fmtJd value " is within the range ".toList rangeMin rangeMax)

/-- `uint_not_in_range_display_error`. -/
def uintNotInRangeDisplayError (value rangeMin rangeMax : MaxWord) : Displayed :=
  displayUnless (value.ult rangeMin || rangeMax.ult value)
    (rangeError fmtJu value " is within the range ".toList rangeMin rangeMax)

/-! ### Sets -/

/-- The search loop over an array; the result is `succeeded` after it. -/
def searchSet (value : MaxWord) : (set : List MaxWord) → (succeeded : Bool) → Bool
  | [], succeeded => succeeded
  | element :: set, succeeded =>
      if element = value then !succeeded else searchSet value set succeeded

/-- The two search functions: they differ in the format of the value and in the texts printed for
the elements. -/
def setDisplayError (format : MaxWord → CString) (elements : List MaxWord → List CString)
    (value : MaxWord) (set : List MaxWord) (invert : Bool) : Displayed :=
  if searchSet value set invert then ([], true)
  else
    ((format value ++ " is ".toList ++ (if invert then [] else "not ".toList) ++
      "in the set (".toList) :: elements set ++ [")\n".toList], false)

/-- The elements with a comma after each but the last. -/
def separated (format : MaxWord → CString) : List MaxWord → List CString
  | [] => []
  | [element] => [format element]
  | element :: next :: set => (format element ++ ", ".toList) :: separated format (next :: set)

/-- `int_value_in_set_display_error`. -/
def intValueInSetDisplayed := setDisplayError fmtJd (separated fmtJd)

/-- `uint_value_in_set_display_error`. -/
def uintValueInSetDisplayed := setDisplayError fmtJu (separated fmtJu)

/-! ### Memory -/

/-- `memory_equal_display_error` on two areas of the same size; `none` is a failed assertion of
`print_data_diff`, or its loop not ending.  What that function prints in one item of
`Model.DataDiff` is taken as one text: it is short. -/
def memoryEqualDisplayError (p : Platform) (a b : List (BitVec 8)) : Option Displayed :=
  if memcmpEqual a b a.length then some ([], true)
  else do
    let items ← printDataDiff p a b true
    return ("Memory is not equal:\n\n".toList :: items.map DiffItem.text ++ ["\n".toList], false)

/-- The loop of `memory_not_equal_display_error`. -/
def sameLoop : (a b : List (BitVec 8)) → (same : Nat) → Nat
  | l :: a, r :: b, same => sameLoop a b (if l = r then same + 1 else same)
  | _, _, same => same

/-- `memory_not_equal_display_error` on two areas of the same size, at `ptrA` and `ptrB`. -/
def memoryNotEqualDisplayError (ptrA ptrB : Addr) (a b : List (BitVec 8)) : Displayed :=
  displayUnless (sameLoop a b 0 != a.length)
    (fmtZu (sameLoop a b 0) ++ "bytes of ".toList ++ fmtP ptrA ++ " and ".toList ++ fmtP ptrB ++
      " the same\n".toList)

end Cmocka
