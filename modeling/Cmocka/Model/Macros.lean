import Cmocka.Model.Expect

/-!
# Model — the macros of return values

`cmocka.h` has one macro for each kind of return value; what they differ in is the type name they
pass to `_will_return` and `_mock`, and the count.  A value is the 64 bits of the union, whose member
is the same on both sides of every documented pair.
-/

namespace Cmocka

/-- The macros that store a return value. -/
inductive StoreMacro where
  | willReturn
  | willReturnInt
  | willReturnUint
  | willReturnFloat
  | willReturnCount (count : Int)
  | willReturnAlways
  | willReturnMaybe
  | willReturnPtr
  | willReturnPtrType (type : CString)
  | willReturnPtrCount (count : Int)
  | willReturnPtrAlways
  | willReturnPtrMaybe
  deriving DecidableEq

/-- The type name the macro passes; `none` is `NULL`. -/
def StoreMacro.name : StoreMacro → Option CString
  | .willReturn | .willReturnCount _ | .willReturnAlways | .willReturnMaybe => none
  | .willReturnInt => some "intmax_t".toList
  | .willReturnUint => some "uintmax_t".toList
  | .willReturnFloat => some "float".toList
  | .willReturnPtr | .willReturnPtrCount _ | .willReturnPtrAlways | .willReturnPtrMaybe => none
  | .willReturnPtrType type => some type

/-- The count the macro passes. -/
def StoreMacro.count : StoreMacro → Int
  | .willReturn | .willReturnInt | .willReturnUint | .willReturnFloat => 1
  | .willReturnPtr | .willReturnPtrType _ => 1
  | .willReturnCount count | .willReturnPtrCount count => count
  | .willReturnAlways | .willReturnPtrAlways => SymbolMap.willReturnAlways
  | .willReturnMaybe | .willReturnPtrMaybe => SymbolMap.willReturnOnce

/-- The expansion of a storing macro. -/
def StoreMacro.run (m : StoreMacro) (function file : CString) (line : Int)
    (value : CMockaValueData) : CM Unit :=
  Cmocka.willReturn function file line m.name value m.count

/-- The macros that retrieve a return value. -/
inductive RetrieveMacro where
  | mock
  | mockInt
  | mockUint
  | mockFloat
  | mockPtrType (type : CString)
  deriving DecidableEq

/-- The type name the macro asks for; `none` is `NULL`. -/
def RetrieveMacro.name : RetrieveMacro → Option CString
  | .mock | .mockInt | .mockFloat => none
  | .mockUint => some "uintmax_t".toList
  | .mockPtrType type => some type

/-- The expansion of a retrieving macro. -/
def RetrieveMacro.run (m : RetrieveMacro) (function file : CString) (line : Int) :
    CM CMockaValueData :=
  Cmocka.mock function file line m.name

/-- Each storing macro is paired with one retrieving macro, the one its documentation names:
`will_return` with `mock`, and not with `mock_uint` or `mock_ptr_type`. -/
inductive Documented : StoreMacro → RetrieveMacro → Prop where
  | value : Documented .willReturn .mock
  | int : Documented .willReturnInt .mockInt
  | uint : Documented .willReturnUint .mockUint
  | float : Documented .willReturnFloat .mockFloat
  | count (count : Int) : Documented (.willReturnCount count) .mock
  | always : Documented .willReturnAlways .mock
  | maybe : Documented .willReturnMaybe .mock
  | ptr (type : CString) : Documented .willReturnPtr (.mockPtrType type)
  | ptrType (type : CString) : Documented (.willReturnPtrType type) (.mockPtrType type)
  | ptrCount (count : Int) (type : CString) :
      Documented (.willReturnPtrCount count) (.mockPtrType type)
  | ptrAlways (type : CString) : Documented .willReturnPtrAlways (.mockPtrType type)
  | ptrMaybe (type : CString) : Documented .willReturnPtrMaybe (.mockPtrType type)

/-- A macro called `n` times in a function: the values it gave. -/
def RetrieveMacro.runTimes (m : RetrieveMacro) (function file : CString) (line : Int) :
    (n : Nat) → CM (List CMockaValueData)
  | 0 => return []
  | n + 1 => do
      let value ← m.run function file line
      let values ← m.runTimes function file line n
      return value :: values

end Cmocka
