import Cmocka.Model.SymbolMap
import Cmocka.Model.Lists

/-!
# Model — the symbol maps in memory

The functions of the symbol maps once more, over the memory they work on: the two static list heads,
the list nodes `malloc` returned, the `SymbolMapValue`s, each with the head of a list of its own
inside it, and the structures of the caller that the nodes of the innermost lists point to.

`supply` is what `malloc` returns from here on, which may be any addresses at which nothing lies; it
does not fail.  A use of a pointer to which nothing belongs, and a second `free`, are `undefined`.
`mallocs` counts the allocations and bounds the loops: no list is longer.  Neither is in the source.
A pointer to a list head is never `NULL`, so `assert_non_null` of one is left out.
-/

namespace Cmocka

/-- The static list heads. -/
inductive MapRoot where
  | globalFunctionResultMapHead
  | globalFunctionParameterMapHead
  deriving DecidableEq

/-- A `ListNode *`: a static head, a node from `malloc`, or
`&map_value->symbol_values_list_head`. -/
inductive MapPtr where
  | root (root : MapRoot)
  | node (ptr : Addr)
  | childList (mapValue : Addr)
  deriving DecidableEq

/-- What lies at an address a node points to: a `SymbolMapValue`, of which the list head is kept
with the nodes, or a structure of the caller. -/
inductive MapCell (V : Type) where
  | mapValue (symbolName : CString)
  | value (value : V)

/-- The memory. -/
structure MapMemory (V : Type) where
  nodes : NodeHeap MapPtr
  cells : Addr → Option (MapCell V)
  supply : List Addr
  mallocs : Nat
  printed : List CString

/-- Why a computation does not go on: an assertion of the library fails, or its behaviour is
undefined. -/
inductive Stuck where
  | assertion
  | undefined

/-- Computations over the memory. -/
abbrev MapM (V : Type) := EStateM Stuck (MapMemory V)

namespace MapMemory

variable {V : Type}

/-! ### Memory -/

/-- `*a`. -/
def readNode (a : MapPtr) : MapM V (ListNode MapPtr) := do
  let m ← get
  match m.nodes a with
  | some node => return node
  | none => throw .undefined

/-- `map_value->symbol_name`. -/
def readSymbolName (mapValue : Addr) : MapM V CString := do
  let m ← get
  match m.cells mapValue with
  | some (.mapValue symbolName) => return symbolName
  | _ => throw .undefined

/-- A structure of the caller. -/
def readValue (ptr : Addr) : MapM V V := do
  let m ← get
  match m.cells ptr with
  | some (.value value) => return value
  | _ => throw .undefined

/-- Assignments to fields of nodes. -/
def onNodes (f : NodeHeap MapPtr → Option (NodeHeap MapPtr)) : MapM V Unit := do
  let m ← get
  match f m.nodes with
  | some nodes => set { m with nodes }
  | none => throw .undefined

/-- `malloc`. -/
def malloc : MapM V Addr := do
  let m ← get
  match m.supply with
  | ptr :: supply => do
      set { m with supply, mallocs := m.mallocs + 1 }
      return ptr
  | [] => throw .undefined

/-- `free` of a structure a node points to. -/
def free (ptr : Addr) : MapM V Unit := do
  let m ← get
  match m.cells ptr with
  | some _ => set { m with
      cells := Function.update m.cells ptr none
      nodes := Function.update m.nodes (.childList ptr) none }
  | none => throw .undefined

/-- `free` of a list node; the others are not from `malloc`. -/
def freeNode (a : MapPtr) : MapM V Unit := do
  let m ← get
  match a, m.nodes a with
  | .node _, some _ => set { m with nodes := Function.update m.nodes a none }
  | _, _ => throw .undefined

/-- `assert_non_null` of a pointer in a node. -/
def assertNonNull (ptr : Addr) : MapM V Unit :=
  if ptr = 0 then throw .assertion else return ()

/-- `cmocka_print_error`. -/
def printError (text : CString) : MapM V Unit :=
  modify fun m => { m with printed := m.printed ++ [text] }

/-! ### Lists -/

/-- `list_initialize`. -/
def listInitialize (node : MapPtr) : MapM V Unit :=
  modify fun m => { m with nodes := Cmocka.listInitialize node m.nodes }

/-- `list_add_value`. -/
def listAddValue (head : MapPtr) (value : Addr) (refcount : Int) : MapM V MapPtr := do
  let ptr ← malloc
  assertNonNull value
  -- the links of the new node are written by `list_add`
  let newNode := { value, refcount, next := .node ptr, prev := .node ptr }
  modify fun m => { m with nodes := Function.update m.nodes (.node ptr) (some newNode) }
  onNodes (listAdd head (.node ptr))
  return .node ptr

/-- `list_empty`. -/
def listEmpty (head : MapPtr) : MapM V Bool := do
  let node ← readNode head
  return node.next = head

/-- `list_first`; `none` is `false`. -/
def listFirst (head : MapPtr) : MapM V (Option MapPtr) := do
  if ← listEmpty head then return none
  else do
    let node ← readNode head
    return some node.next

/-- The loop of `list_find` with `symbol_names_match`, from `current` on. -/
def findLoop (head : MapPtr) (symbol : CString) : (bound : Nat) → (current : MapPtr) →
    MapM V (Option MapPtr)
  | 0, _ => throw .undefined
  | bound + 1, current =>
      if current = head then return none
      else do
        let node ← readNode current
        let symbolName ← readSymbolName node.value
        if symbolName = symbol then return some current
        else findLoop head symbol bound node.next

/-- `list_find` with `symbol_names_match`; `none` is `false`. -/
def listFind (head : MapPtr) (symbol : CString) : MapM V (Option MapPtr) := do
  let m ← get
  let node ← readNode head
  findLoop head symbol (m.mallocs + 1) node.next

/-- `list_remove`; no clean-up function is `NULL`. -/
def listRemove (node : MapPtr) (cleanupValue : Option (Addr → MapM V Unit)) : MapM V Unit := do
  onNodes (Cmocka.listRemove node)
  match cleanupValue with
  | none => return ()
  | some cleanup => do
      let n ← readNode node
      cleanup n.value

/-- `list_remove_free`. -/
def listRemoveFree (node : MapPtr) (cleanupValue : Option (Addr → MapM V Unit)) : MapM V Unit := do
  listRemove node cleanupValue
  freeNode node

/-- The loop of `list_free`. -/
def listFreeLoop (head : MapPtr) (cleanup : Addr → MapM V Unit) : (bound : Nat) → MapM V Unit
  | 0 => throw .undefined
  | bound + 1 => do
      if ← listEmpty head then return ()
      else do
        let node ← readNode head
        listRemoveFree node.next (some cleanup)
        listFreeLoop head cleanup bound

/-- `list_free`. -/
def listFree (head : MapPtr) (cleanup : Addr → MapM V Unit) : MapM V Unit := do
  let m ← get
  listFreeLoop head cleanup (m.mallocs + 1)

/-! ### Values -/

/-- `free_value`. -/
def freeValue (value : Addr) : MapM V Unit := do
  assertNonNull value
  free value

/-- `free_symbol_map_value` with `*cleanup_value_data = children`. -/
def freeSymbolMapValue : (children : Nat) → (value : Addr) → MapM V Unit
  | 0, value => do
      assertNonNull value
      listFree (.childList value) freeValue
      free value
  | children + 1, value => do
      assertNonNull value
      listFree (.childList value) (freeSymbolMapValue children)
      free value

/-! ### Adding and getting values -/

/-- The symbol `add_symbol_value` goes on with: the one found, or a new one at the end. -/
def targetNode (symbolMapHead : MapPtr) (symbolName : CString) : MapM V MapPtr := do
  match ← listFind symbolMapHead symbolName with
  | some targetNode => return targetNode
  | none => do
      let newSymbolMapValue ← malloc
      modify fun m => { m with
        cells := Function.update m.cells newSymbolMapValue (some (.mapValue symbolName)) }
      listInitialize (.childList newSymbolMapValue)
      listAddValue symbolMapHead newSymbolMapValue 1

/-- `add_symbol_value`. -/
def addSymbolValue : (symbolNames : List CString) → (symbolMapHead : MapPtr) → (value : Addr) →
    (refcount : Int) → MapM V Unit
  | [], _, _, _ => throw .assertion
  | symbolName :: symbolNames, symbolMapHead, value, refcount => do
      let target ← targetNode symbolMapHead symbolName
      let targetNode ← readNode target
      if symbolNames = [] then do
        let _ ← listAddValue (.childList targetNode.value) value refcount
        return ()
      else addSymbolValue symbolNames (.childList targetNode.value) value refcount

/-- The part of `get_symbol_value` for a complete path: the first value of the list, and the
reference count it had. -/
def takeFirst (childList : MapPtr) : MapM V (Int × Addr) := do
  match ← listFirst childList with
  | none => throw .assertion
  | some valueNode => do
      let node ← readNode valueNode
      if node.refcount - 1 = 0 then do
        listRemoveFree valueNode none
        return (node.refcount, node.value)
      else if node.refcount > SymbolMap.willReturnOnce then do
        onNodes fun H => H.modify valueNode fun n => { n with refcount := n.refcount - 1 }
        return (node.refcount, node.value)
      else return (node.refcount, node.value)

/-- The end of `get_symbol_value`: a symbol whose list is empty goes. -/
def closeSymbol (target childList : MapPtr) : MapM V Unit := do
  if ← listEmpty childList then listRemoveFree target (some (freeSymbolMapValue 0))

/-- `get_symbol_value`; the output is `none` if `*output` was not written. -/
def getSymbolValue : (symbolNames : List CString) → (head : MapPtr) → MapM V (Int × Option Addr)
  | [], _ => throw .assertion
  | symbolName :: symbolNames, head => do
      match ← listFind head symbolName with
      | none => do
          printError (SymbolMap.noEntries symbolName)
          return (0, none)
      | some target => do
          let targetNode ← readNode target
          assertNonNull targetNode.value
          let childList := .childList targetNode.value
          if symbolNames = [] then do
            let (returnValue, output) ← takeFirst childList
            closeSymbol target childList
            return (returnValue, some output)
          else do
            let result ← getSymbolValue symbolNames childList
            closeSymbol target childList
            return result

/-! ### The end of a test -/

/-- What `remove_always_return_values` does to the list of values of a complete path. -/
def removeFirstAlways (childList : MapPtr) : MapM V Unit := do
  let head ← readNode childList
  let childNode ← readNode head.next
  if childNode.refcount < -1 then listRemoveFree head.next (some freeValue)

/-- The body of the loop of `remove_always_return_values`, with what is done to the list of a
symbol. -/
def removeRound (inner : MapPtr → MapM V Unit) (current : MapPtr) (value : Addr) : MapM V Unit := do
  assertNonNull value
  let childList := .childList value
  if !(← listEmpty childList) then inner childList
  if ← listEmpty childList then listRemoveFree current (some freeValue)

/-- The loop of `remove_always_return_values`. -/
def removeLoop (inner : MapPtr → MapM V Unit) (mapHead : MapPtr) : (bound : Nat) →
    (current : MapPtr) → MapM V Unit
  | 0, _ => throw .undefined
  | bound + 1, current =>
      if current = mapHead then return ()
      else do
        let node ← readNode current
        removeRound inner current node.value
        removeLoop inner mapHead bound node.next

/-- `remove_always_return_values`. -/
def removeAlwaysReturnValues : (numberOfSymbolNames : Nat) → (mapHead : MapPtr) → MapM V Unit
  | 0, _ => throw .assertion
  | n + 1, mapHead => do
      let m ← get
      let head ← readNode mapHead
      removeLoop (if n = 0 then removeFirstAlways else removeAlwaysReturnValues n) mapHead
        (m.mallocs + 1) head.next

/-- The loop over the values of a symbol in `check_for_leftover_values`.  `location` reads the start
of a structure as a `SourceLocation`. -/
def noteLoop (location : V → SourceLocation) (childList : MapPtr) : (bound : Nat) →
    (childNode : MapPtr) → MapM V Unit
  | 0, _ => throw .undefined
  | bound + 1, childNode =>
      if childNode = childList then return ()
      else do
        let node ← readNode childNode
        let value ← readValue node.value
        printError (fmtLocation (location value) ++
          ": note: remaining item was declared here\n".toList)
        noteLoop location childList bound node.next

/-- The loop of `check_for_leftover_values`, with the report on the list of a symbol. -/
def checkLoop (report : CString → MapPtr → MapM V Unit) (mapHead : MapPtr) : (bound : Nat) →
    (current : MapPtr) → (symbolsWithLeftoverValues : Nat) → MapM V Nat
  | 0, _, _ => throw .undefined
  | bound + 1, current, symbolsWithLeftoverValues =>
      if current = mapHead then return symbolsWithLeftoverValues
      else do
        let node ← readNode current
        assertNonNull node.value
        let childList := .childList node.value
        if !(← listEmpty childList) then do
          let symbolName ← readSymbolName node.value
          report symbolName childList
          checkLoop report mapHead bound node.next (symbolsWithLeftoverValues + 1)
        else checkLoop report mapHead bound node.next symbolsWithLeftoverValues

/-- `check_for_leftover_values`. -/
def checkForLeftoverValues (location : V → SourceLocation) (errorMessage : CString) :
    (numberOfSymbolNames : Nat) → (mapHead : MapPtr) → MapM V Nat
  | 0, _ => throw .assertion
  | n + 1, mapHead => do
      let m ← get
      let head ← readNode mapHead
      let report := fun symbolName childList => if n = 0 then do
          printError (errorMessage ++ ": ".toList ++ symbolName ++ "\n".toList)
          let list ← readNode childList
          noteLoop location childList (m.mallocs + 1) list.next
        else do
          printError (symbolName ++ ": ".toList)
          let _ ← checkForLeftoverValues location errorMessage n childList
          return ()
      checkLoop report mapHead (m.mallocs + 1) head.next 0

/-! ### The calls of a test -/

/-- `initialize_testing`, of the two maps. -/
def initializeTesting : MapM V Unit := do
  listInitialize (.root .globalFunctionResultMapHead)
  listInitialize (.root .globalFunctionParameterMapHead)

/-- `teardown_testing`, of the two maps. -/
def teardownTesting : MapM V Unit := do
  listFree (.root .globalFunctionResultMapHead) (freeSymbolMapValue 0)
  listFree (.root .globalFunctionParameterMapHead) (freeSymbolMapValue 1)

/-- A structure is allocated and written, and added to a map. -/
def addNew (root : MapRoot) (symbolNames : List CString) (value : V) (count : Int) :
    MapM V Unit := do
  let ptr ← malloc
  modify fun m => { m with cells := Function.update m.cells ptr (some (.value value)) }
  addSymbolValue symbolNames (.root root) ptr count

/-- What `_mock` and `_check_expected` do to their map: the structure is read, and freed after its
last use.  `none` if there was none. -/
def takeValue (root : MapRoot) (symbolNames : List CString) : MapM V (Int × Option V) := do
  let (rc, result) ← getSymbolValue symbolNames (.root root)
  if rc = 0 then return (0, none)
  else
    match result with
    | none => throw .undefined
    | some ptr => do
        let value ← readValue ptr
        if rc = 1 then free ptr
        return (rc, some value)

/-- `has_leftover_values`, of one map. -/
def hasLeftoverIn (location : V → SourceLocation) (root : MapRoot) (errorMessage : CString)
    (numberOfSymbolNames : Nat) : MapM V Bool := do
  removeAlwaysReturnValues numberOfSymbolNames (.root root)
  let leftover ← checkForLeftoverValues location errorMessage numberOfSymbolNames (.root root)
  return leftover != 0

end MapMemory

/-- A call of a test, of its mocks, or of the runner at its end, as far as the maps are concerned. -/
inductive MapCall (V : Type) where
  | willReturn (function : CString) (value : V) (count : Int)
  | mock (function : CString)
  | expectCheck (function parameter : CString) (value : V) (count : Int)
  | checkExpected (function parameter : CString)
  | hasLeftoverValues (resultMessage parameterMessage : CString)

/-- What comes back. -/
inductive MapReply (V : Type) where
  | done
  | got (rc : Int) (value : Option V)
  | leftover (leftoverValues : Bool)

namespace MapCall

variable {V : Type}

open MapMemory

/-- The call in memory. -/
def run (location : V → SourceLocation) : MapCall V → MapM V (MapReply V)
  | .willReturn function value count => do
      addNew .globalFunctionResultMapHead [function] value count
      return .done
  | .mock function => do
      let (rc, value) ← takeValue .globalFunctionResultMapHead [function]
      return .got rc value
  | .expectCheck function parameter value count => do
      addNew .globalFunctionParameterMapHead [function, parameter] value count
      return .done
  | .checkExpected function parameter => do
      let (rc, value) ← takeValue .globalFunctionParameterMapHead [function, parameter]
      return .got rc value
  | .hasLeftoverValues resultMessage parameterMessage => do
      let results ← hasLeftoverIn location .globalFunctionResultMapHead resultMessage 1
      let parameters ← hasLeftoverIn location .globalFunctionParameterMapHead parameterMessage 2
      return .leftover (results || parameters)

end MapCall

/-- A call, and what `malloc` returns in it. -/
structure MapRequest (V : Type) where
  call : MapCall V
  supply : List Addr

namespace MapMemory

variable {V : Type}

/-- One call. -/
def runRequest (location : V → SourceLocation) (request : MapRequest V) : MapM V (MapReply V) := do
  modify fun m => { m with supply := request.supply }
  request.call.run location

/-- The calls of a test, one after the other. -/
def runRequests (location : V → SourceLocation) : List (MapRequest V) → MapM V (List (MapReply V))
  | [] => return []
  | request :: requests => do
      let reply ← runRequest location request
      let replies ← runRequests location requests
      return reply :: replies

end MapMemory

end Cmocka
