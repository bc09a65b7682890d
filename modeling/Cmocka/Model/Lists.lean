import Mathlib.Logic.Function.Basic
import Cmocka.Model.Text

/-!
# Model — the intrusive doubly linked list

The list functions over an explicit heap of `ListNode`s, link by link.  A heap maps the addresses
that hold a node to it; reading or writing through any other address is undefined and makes the
operation `none`.  The addresses are an arbitrary type: the list of allocated blocks instantiates it
with the nodes inside the block headers.

A clean-up function gets the value of a node and works on a state of its own; `free` takes a node out
of the heap.  A loop is given a bound on its length, and is undefined beyond it.
-/

namespace Cmocka

/-- `ListNode`. -/
structure ListNode (α : Type) where
  value : Addr
  refcount : Int
  next : α
  prev : α

/-- The memory holding list nodes. -/
abbrev NodeHeap (α : Type) := α → Option (ListNode α)

variable {α : Type} [DecidableEq α]

/-- An assignment to fields of `*a`. -/
def NodeHeap.modify (H : NodeHeap α) (a : α) (f : ListNode α → ListNode α) :
    Option (NodeHeap α) :=
  (H a).map fun node => Function.update H a (some (f node))

/-- `list_initialize`. -/
def listInitialize (node : α) (H : NodeHeap α) : NodeHeap α :=
  Function.update H node (some { value := 0, refcount := 1, next := node, prev := node })

/-- `list_add`. -/
def listAdd (head newNode : α) (H : NodeHeap α) : Option (NodeHeap α) := do
  let H ← H.modify newNode fun n => { n with next := head }
  let headNode ← H head
  let H ← H.modify newNode fun n => { n with prev := headNode.prev }
  let headNode ← H head
  let H ← H.modify headNode.prev fun n => { n with next := newNode }
  H.modify head fun n => { n with prev := newNode }

/-- `list_remove` without a clean-up function. -/
def listRemove (node : α) (H : NodeHeap α) : Option (NodeHeap α) := do
  let n ← H node
  let H ← H.modify n.prev fun p => { p with next := n.next }
  let n ← H node
  H.modify n.next fun q => { q with prev := n.prev }

namespace NodeHeap

variable {σ : Type}

/-! ### Reading a list -/

/-- `list_empty`. -/
def listEmpty (head : α) (H : NodeHeap α) : Option Bool := do
  let headNode ← H head
  return headNode.next = head

/-- `list_first`; the result is the node, `none` for `false`. -/
def listFirst (head : α) (H : NodeHeap α) : Option (Option α) := do
  let empty ← listEmpty head H
  if empty then return none
  else do
    let headNode ← H head
    return some headNode.next

/-- The loop of `list_find`, from `current` on. -/
def findLoop (equalFunc : Addr → Addr → Bool) (head : α) (value : Addr) (H : NodeHeap α) :
    (bound : Nat) → (current : α) → Option (Option α)
  | 0, _ => none
  | bound + 1, current =>
      if current = head then return none
      else do
        let node ← H current
        if equalFunc node.value value then return some current
        else findLoop equalFunc head value H bound node.next

/-- `list_find`; the result is the node, `none` for `false`. -/
def listFind (equalFunc : Addr → Addr → Bool) (head : α) (value : Addr) (bound : Nat)
    (H : NodeHeap α) : Option (Option α) := do
  let headNode ← H head
  findLoop equalFunc head value H bound headNode.next

/-! ### Taking nodes out of a list -/

/-- `list_remove` with a clean-up function; `none` is `NULL`. -/
def listRemoveCleanup (cleanupValue : Option (Addr → σ → σ)) (node : α) (H : NodeHeap α) (s : σ) :
    Option (NodeHeap α × σ) := do
  let H ← listRemove node H
  match cleanupValue with
  | none => return (H, s)
  | some cleanup => do
      let n ← H node
      return (H, cleanup n.value s)

/-- `list_remove_free`. -/
def listRemoveFree (cleanupValue : Option (Addr → σ → σ)) (node : α) (H : NodeHeap α) (s : σ) :
    Option (NodeHeap α × σ) := do
  let r ← listRemoveCleanup cleanupValue node H s
  return (Function.update r.1 node none, r.2)

/-- `list_free`. -/
def listFree (cleanupValue : Option (Addr → σ → σ)) (head : α) :
    (bound : Nat) → NodeHeap α → σ → Option (NodeHeap α × σ)
  | 0, _, _ => none
  | bound + 1, H, s => do
      let empty ← listEmpty head H
      if empty then return (H, s)
      else do
        let headNode ← H head
        let r ← listRemoveFree cleanupValue headNode.next H s
        listFree cleanupValue head bound r.1 r.2

/-- The loop of `remove_always_return_values_from_list`.  `visited` is not in the source: it records
the nodes that were `current`. -/
def removeAlwaysLoop (freeValue : Addr → σ → σ) (mapHead : α) :
    (bound : Nat) → (current next : α) → NodeHeap α → σ → (visited : List α) →
      Option (NodeHeap α × σ × List α)
  | 0, _, _, _, _, _ => none
  | bound + 1, current, next, H, s, visited =>
      if current = mapHead then return (H, s, visited)
      else do
        let currentNode ← H current
        let r ← if currentNode.refcount < -1 then listRemoveFree (some freeValue) current H s
          else some (H, s)
        let nextNode ← r.1 next
        removeAlwaysLoop freeValue mapHead bound next nextNode.next r.1 r.2 (visited ++ [current])

/-- `remove_always_return_values_from_list`, with the visited nodes. -/
def removeAlwaysReturnValuesFromList (freeValue : Addr → σ → σ) (mapHead : α) (bound : Nat)
    (H : NodeHeap α) (s : σ) : Option (NodeHeap α × σ × List α) := do
  let headNode ← H mapHead
  let currentNode ← H headNode.next
  removeAlwaysLoop freeValue mapHead bound headNode.next currentNode.next H s []

end NodeHeap

end Cmocka
