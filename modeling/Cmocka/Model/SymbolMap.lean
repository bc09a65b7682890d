import Cmocka.Model.Text

/-!
# Model — the symbol maps

`global_function_result_map_head` and `global_function_parameter_map_head` are trees of linked
lists: a node holds either a `SymbolMapValue` (a name and a list of its own) or, at the bottom, a
value the test declared together with its reference count.  In C both kinds hang off the same
untyped `void *value`; here a node is one of the two constructors, and nothing in the type says at
which depth the values lie.  The depth is an argument of the operations, as in the source
(`number_of_symbol_names`, or `children` in `free_symbol_map_value`).

The circular lists are sequences of nodes.  A function that prints returns the printed texts, a
function that releases values returns the values passed to `free_value`, both in order.
-/

namespace Cmocka

/-- A node of a symbol map.  `symbol` is a node whose value is a `SymbolMapValue`; `value` is a
node whose value is a declared value. -/
inductive MapNode (V : Type) where
  | value (refcount : Int) (value : V)
  | symbol (refcount : Int) (symbolName : CString) (symbolValuesListHead : List (MapNode V))

namespace SymbolMap

variable {V : Type}

/-- `WILL_RETURN_ALWAYS`, `WILL_RETURN_ONCE`, `EXPECT_ALWAYS` and `EXPECT_MAYBE`. -/
def willReturnAlways : Int := -1
def willReturnOnce : Int := -2
def expectAlways : Int := -1
def expectMaybe : Int := -2

/-- `node->refcount`. -/
def refcount : MapNode V → Int
  | .value c _ => c
  | .symbol c _ _ => c

/-! ### Lists -/

/-- What `list_find` points at: the symbol node found, with the nodes around it. -/
structure Found (V : Type) where
  before : List (MapNode V)
  refcount : Int
  children : List (MapNode V)
  after : List (MapNode V)

/-- `list_find` with `symbol_names_match`: the first symbol of that name. -/
def listFind (name : CString) : List (MapNode V) → Option (Found V)
  | [] => none
  | .symbol c n children :: rest =>
      if n = name then some ⟨[], c, children, rest⟩
      else (listFind name rest).map fun f => { f with before := .symbol c n children :: f.before }
  | .value c v :: rest =>
      (listFind name rest).map fun f => { f with before := .value c v :: f.before }

/-- The list a `Found` came from, with other children at the found node. -/
def Found.put (f : Found V) (name : CString) (children : List (MapNode V)) : List (MapNode V) :=
  f.before ++ .symbol f.refcount name children :: f.after

/-- The list a `Found` came from after `list_remove_free` of the found node. -/
def Found.remove (f : Found V) : List (MapNode V) := f.before ++ f.after

/-- `list_free`: remove the first node and clean up its value until the list is empty. -/
def listFree (cleanup : MapNode V → List V) : List (MapNode V) → List (MapNode V) × List V
  | [] => ([], [])
  | node :: rest =>
      let (list, freed) := listFree cleanup rest
      (list, cleanup node ++ freed)

/-- `free_value`.  On a `SymbolMapValue` it releases that structure alone. -/
def freeValue : MapNode V → List V
  | .value _ v => [v]
  | .symbol _ _ _ => []

/-- `free_symbol_map_value` with `*cleanup_value_data = children`. -/
def freeSymbolMapValue : (children : Nat) → MapNode V → List V
  | 0, .symbol _ _ list => (listFree freeValue list).2
  | children + 1, .symbol _ _ list => (listFree (freeSymbolMapValue children) list).2
  | _, .value _ _ => []

/-! ### Adding and getting values -/

/-- `add_symbol_value`.  The empty path is excluded by `assert_true(number_of_symbol_names)`. -/
def addSymbolValue : (symbolNames : List CString) → V → (refcount : Int) →
    List (MapNode V) → List (MapNode V)
  | [], _, _, list => list
  | symbolName :: symbolNames, value, refcount, list =>
      let addToTarget := fun children =>
        if symbolNames = [] then children ++ [.value refcount value]
        else addSymbolValue symbolNames value refcount children
      match listFind symbolName list with
      | some target => target.put symbolName (addToTarget target.children)
      | none => list ++ [.symbol 1 symbolName (addToTarget [])]

/-- What `get_symbol_value` returns, leaves behind and prints. -/
structure GetResult (V : Type) where
  returnValue : Int
  output : Option V
  list : List (MapNode V)
  printed : List CString

/-- The text of the `out:` branch. -/
def noEntries (symbolName : CString) : CString :=
  "No entries for symbol ".toList ++ symbolName ++ ".\n".toList

/-- The handling of the first value node of the queue of a complete path: the returned reference
count, the value, and the queue left behind. -/
def takeFirst : List (MapNode V) → Option (Int × V × List (MapNode V))
  | .value c v :: rest =>
      if c - 1 = 0 then some (c, v, rest)
      else if c > willReturnOnce then some (c, v, .value (c - 1) v :: rest)
      else some (c, v, .value c v :: rest)
  | _ => none

/-- The end of `get_symbol_value`: drop the symbol if its list became empty. -/
def Found.close (f : Found V) (name : CString) (children : List (MapNode V)) : List (MapNode V) :=
  if children.isEmpty then f.remove else f.put name children

/-- `get_symbol_value`.  `none` is a failed assertion: an empty path, or
`assert_true(return_value)` after `list_first` found no value. -/
def getSymbolValue : (symbolNames : List CString) → List (MapNode V) → Option (GetResult V)
  | [], _ => none
  | symbolName :: symbolNames, head =>
      match listFind symbolName head with
      | none => some ⟨0, none, head, [noEntries symbolName]⟩
      | some target =>
          if symbolNames = [] then
            (takeFirst target.children).map fun (c, v, children) =>
              ⟨c, some v, target.close symbolName children, []⟩
          else
            (getSymbolValue symbolNames target.children).map fun r =>
              { r with list := target.close symbolName r.list }

/-! ### The end of a test -/

/-- The removal at the head of the queue of a complete path: the first value, if its reference
count is below `-1`. -/
def removeFirstAlways : List (MapNode V) → List (MapNode V) × List V
  | [] => ([], [])
  | node :: rest => if refcount node < -1 then (rest, freeValue node) else (node :: rest, [])

/-- One round of the loop of `remove_always_return_values`, with the removal `inner` for the list
of the symbol: the node left in the list, if any, and the values released. -/
def removeRound (inner : List (MapNode V) → List (MapNode V) × List V) :
    MapNode V → Option (MapNode V) × List V
  | .value c v => (some (.value c v), [])
  | .symbol c name children =>
      let (children, freed) := inner children
      (if children.isEmpty then none else some (.symbol c name children), freed)

/-- `remove_always_return_values`: what is left of the list, and the values released. -/
def removeAlwaysReturnValues : (numberOfSymbolNames : Nat) → List (MapNode V) →
    List (MapNode V) × List V
  | 0, list => (list, [])
  | n + 1, list =>
      let inner := if n = 0 then removeFirstAlways else removeAlwaysReturnValues n
      (list.filterMap fun node => (removeRound inner node).1,
        list.flatMap fun node => (removeRound inner node).2)

/-- The note for one value left in a queue.  `location` reads the start of the value as a
`SourceLocation`. -/
def leftoverNote (location : V → SourceLocation) : MapNode V → CString
  | .value _ v => fmtLocation (location v) ++ ": note: remaining item was declared here\n".toList
  | .symbol _ _ _ => []

/-- The report on one symbol, with the report `inner` on the symbols below it. -/
def leftoverReport (location : V → SourceLocation) (errorMessage : CString)
    (inner : Option (List (MapNode V) → List CString)) : MapNode V → List CString
  | .value _ _ => []
  | .symbol _ name children =>
      if children.isEmpty then []
      else
        match inner with
        | none => (errorMessage ++ ": ".toList ++ name ++ "\n".toList) ::
            children.map (leftoverNote location)
        | some report => (name ++ ": ".toList) :: report children

/-- `!list_empty(child_list)`. -/
def hasValues : MapNode V → Bool
  | .value _ _ => false
  | .symbol _ _ children => !children.isEmpty

/-- `check_for_leftover_values`: the number of symbols with values left, and the report. -/
def checkForLeftoverValues (location : V → SourceLocation) (errorMessage : CString) :
    (numberOfSymbolNames : Nat) → List (MapNode V) → Nat × List CString
  | 0, _ => (0, [])
  | n + 1, list =>
      let inner := if n = 0 then none
        else some fun children => (checkForLeftoverValues location errorMessage n children).2
      (list.countP hasValues, list.flatMap (leftoverReport location errorMessage inner))

end SymbolMap

end Cmocka
