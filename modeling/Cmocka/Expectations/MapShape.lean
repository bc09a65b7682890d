import Cmocka.Model.SymbolMap
import Cmocka.Support.CountedQueue

/-!
# Expectations — the shape of a symbol map

A map for paths of `d` names has the shape `Shape d`: at the `d` upper levels every node is a
symbol, the names of siblings differ and no symbol has an empty list; below them lie the values.
`queue path map` reads the queue at a path.  Adding and getting keep the shape, and act on the
queues as `CountedQueue.Table.push` and `Table.take` do (`add_spec`, `get_spec`).

The source treats the last name of a path apart (`number_of_symbol_names == 1`).  `addAt` and
`getAt` are the same operations with the empty path for "this list is the queue", which is what the
inductions on the path need.
-/

namespace Cmocka.SymbolMap

open CountedQueue

variable {V : Type}

/-- `symbol_name` of a symbol node. -/
def symbolName? : MapNode V → Option CString
  | .value _ _ => none
  | .symbol _ name _ => some name

/-- The names of the symbols of a list. -/
def names (list : List (MapNode V)) : List CString := list.filterMap symbolName?

/-- The list of the first symbol of that name. -/
def childrenOf (name : CString) (list : List (MapNode V)) : Option (List (MapNode V)) :=
  (listFind name list).map Found.children

/-- The value and count of a value node. -/
def entry? : MapNode V → Option (V × Int)
  | .value c v => some (v, c)
  | .symbol _ _ _ => none

/-- The queue at a path. -/
def queue : (path : List CString) → List (MapNode V) → List (V × Int)
  | [], list => list.filterMap entry?
  | name :: path, list => queue path ((childrenOf name list).getD [])

/-- The shape of a map for paths of `d` names. -/
def Shape : (d : Nat) → List (MapNode V) → Prop
  | 0, list => ∀ node ∈ list, ∃ c v, node = .value c v
  | d + 1, list => (names list).Nodup ∧
      ∀ node ∈ list, ∃ c name children, node = .symbol c name children ∧ children ≠ [] ∧
        Shape d children

/-! ### Finding a symbol -/

@[simp] theorem childrenOf_nil (name : CString) : childrenOf name ([] : List (MapNode V)) = none :=
  rfl

/-- The first entry of a name is the one that counts. -/
@[simp] theorem childrenOf_symbol (name n : CString) (c : Int) (children rest : List (MapNode V)) :
    childrenOf name (.symbol c n children :: rest) =
      if n = name then some children else childrenOf name rest := by
  simp only [childrenOf, listFind]
  split <;> simp [Function.comp_def]

@[simp] theorem childrenOf_value (name : CString) (c : Int) (v : V) (rest : List (MapNode V)) :
    childrenOf name (.value c v :: rest) = childrenOf name rest := by
  simp [childrenOf, listFind, Function.comp_def]

/-- The names of two lists, one behind the other. -/
@[simp] theorem names_append (l l' : List (MapNode V)) : names (l ++ l') = names l ++ names l' := by
  simp [names]

@[simp] theorem names_value (c : Int) (v : V) (rest : List (MapNode V)) :
    names (.value c v :: rest) = names rest := rfl

@[simp] theorem names_symbol (c : Int) (name : CString) (children rest : List (MapNode V)) :
    names (.symbol c name children :: rest) = name :: names rest := rfl

/-- A name has an entry exactly if it is among the names. -/
theorem childrenOf_eq_none {name : CString} {list : List (MapNode V)} :
    childrenOf name list = none ↔ name ∉ names list := by
  induction list with
  | nil => simp [names]
  | cons node rest ih =>
      cases node with
      | value c v => simpa using ih
      | symbol c n children =>
          rw [childrenOf_symbol, names_symbol, List.mem_cons, not_or]
          by_cases h : n = name
          · simp [h]
          · rw [if_neg h, ih]
            exact ⟨fun h' => ⟨Ne.symm h, h'⟩, fun h' => h'.2⟩

/-- An entry of the first list hides one of the second. -/
theorem childrenOf_append (name : CString) (l l' : List (MapNode V)) :
    childrenOf name (l ++ l') = (childrenOf name l).or (childrenOf name l') := by
  induction l with
  | nil => simp
  | cons node rest ih =>
      cases node with
      | value c v => simpa using ih
      | symbol c n children =>
          simp only [List.cons_append, childrenOf_symbol, ih]
          split <;> simp

/-- What `list_find` returns is a decomposition of the list at its first symbol of that name. -/
theorem listFind_some {name : CString} {list : List (MapNode V)} {f : Found V}
    (h : listFind name list = some f) :
    list = f.put name f.children ∧ name ∉ names f.before := by
  induction list generalizing f with
  | nil => cases h
  | cons node rest ih =>
      cases node with
      | value c v =>
          simp only [listFind, Option.map_eq_some_iff] at h
          obtain ⟨g, hg, rfl⟩ := h
          obtain ⟨h₁, h₂⟩ := ih hg
          refine ⟨?_, by simpa using h₂⟩
          conv_lhs => rw [h₁]
          rfl
      | symbol c n children =>
          simp only [listFind] at h
          split at h
          next hn =>
            cases h
            exact ⟨by simp [Found.put, hn], by simp [names]⟩
          next hn =>
            simp only [Option.map_eq_some_iff] at h
            obtain ⟨g, hg, rfl⟩ := h
            obtain ⟨h₁, h₂⟩ := ih hg
            refine ⟨?_, by simpa [Ne.symm hn] using h₂⟩
            conv_lhs => rw [h₁]
            rfl

/-- What `list_find` does not find is not there. -/
theorem listFind_none {name : CString} {list : List (MapNode V)} (h : listFind name list = none) :
    name ∉ names list :=
  childrenOf_eq_none.mp (by simp [childrenOf, h])

/-! ### The list of a found symbol, replaced or removed -/

section Put

variable {name : CString} {list : List (MapNode V)} {f : Found V}

/-- What `list_find` finds is the entry of the name. -/
theorem childrenOf_of_find (h : listFind name list = some f) :
    childrenOf name list = some f.children := by simp [childrenOf, h]

/-- Replacing the children of an entry keeps the names. -/
theorem names_put (h : listFind name list = some f) (children : List (MapNode V)) :
    names (f.put name children) = names list := by
  rw [(listFind_some h).1]
  simp [Found.put]

/-- The entry has the new children. -/
theorem childrenOf_put_self (h : listFind name list = some f) (children : List (MapNode V)) :
    childrenOf name (f.put name children) = some children := by
  rw [Found.put, childrenOf_append, childrenOf_eq_none.mpr (listFind_some h).2]
  simp

/-- The other entries keep theirs. -/
theorem childrenOf_put_of_ne (h : listFind name list = some f) {name' : CString}
    (hne : name' ≠ name) (children : List (MapNode V)) :
    childrenOf name' (f.put name children) = childrenOf name' list := by
  conv_rhs => rw [(listFind_some h).1]
  simp [Found.put, childrenOf_append, Ne.symm hne]

/-- An entry that was removed is gone, as its name was there once. -/
theorem childrenOf_remove_self (h : listFind name list = some f) (hnd : (names list).Nodup) :
    childrenOf name f.remove = none := by
  rw [(listFind_some h).1, Found.put, names_append, names_symbol] at hnd
  rw [childrenOf_eq_none, Found.remove, names_append, List.mem_append, not_or]
  refine ⟨(listFind_some h).2, ?_⟩
  exact (List.nodup_cons.mp (List.nodup_append.mp hnd).2.1).1

/-- The other entries are still there. -/
theorem childrenOf_remove_of_ne (h : listFind name list = some f) {name' : CString}
    (hne : name' ≠ name) : childrenOf name' f.remove = childrenOf name' list := by
  conv_rhs => rw [(listFind_some h).1]
  simp [Found.put, Found.remove, childrenOf_append, Ne.symm hne]

theorem mem_put {children : List (MapNode V)} {node : MapNode V}
    (hm : node ∈ f.put name children) :
    node ∈ f.before ∨ node = .symbol f.refcount name children ∨ node ∈ f.after := by
  simpa [Found.put] using hm

/-- An entry that is found is not empty, and of the shape one level down. -/
theorem Shape.found {d : Nat} (hs : Shape (d + 1) list) (h : listFind name list = some f) :
    f.children ≠ [] ∧ Shape d f.children := by
  have hm : .symbol f.refcount name f.children ∈ list := by
    rw [(listFind_some h).1]; simp [Found.put]
  obtain ⟨c, n, children, he, hne, hc⟩ := hs.2 _ hm
  cases he
  exact ⟨hne, hc⟩

/-- Children of the right shape may replace those of an entry. -/
theorem Shape.put {d : Nat} (hs : Shape (d + 1) list) (h : listFind name list = some f)
    {children : List (MapNode V)} (hne : children ≠ []) (hc : Shape d children) :
    Shape (d + 1) (f.put name children) := by
  refine ⟨by rw [names_put h]; exact hs.1, fun node hm => ?_⟩
  have hl := (listFind_some h).1
  rcases mem_put hm with hb | rfl | ha
  · exact hs.2 node (by rw [hl]; simp [Found.put, hb])
  · exact ⟨_, _, _, rfl, hne, hc⟩
  · exact hs.2 node (by rw [hl]; simp [Found.put, ha])

/-- Removing an entry keeps the shape. -/
theorem Shape.remove {d : Nat} (hs : Shape (d + 1) list) (h : listFind name list = some f) :
    Shape (d + 1) f.remove := by
  have hl := (listFind_some h).1
  constructor
  · have hnd := hs.1
    rw [hl, Found.put, names_append, names_symbol] at hnd
    rw [Found.remove, names_append]
    exact hnd.sublist (List.Sublist.append_left (List.sublist_cons_self _ _) _)
  · intro node hm
    refine hs.2 node ?_
    rw [hl]
    rcases List.mem_append.mp hm with hb | ha
    · simp [Found.put, hb]
    · simp [Found.put, ha]

end Put

/-! ### Queues -/

theorem queue_nil (path : List CString) : queue path ([] : List (MapNode V)) = [] := by
  induction path with
  | nil => rfl
  | cons name path ih => simpa [queue] using ih

/-- A non-empty map of the shape has a value somewhere. -/
theorem Shape.exists_queue {d : Nat} {list : List (MapNode V)} (hs : Shape d list)
    (hne : list ≠ []) : ∃ path : List CString, path.length = d ∧ queue path list ≠ [] := by
  induction d generalizing list with
  | zero =>
      obtain ⟨node, rest, rfl⟩ := List.exists_cons_of_ne_nil hne
      obtain ⟨c, v, rfl⟩ := hs node (by simp)
      exact ⟨[], rfl, by simp [queue, entry?]⟩
  | succ d ih =>
      obtain ⟨node, rest, rfl⟩ := List.exists_cons_of_ne_nil hne
      obtain ⟨c, name, children, rfl, hc, hsc⟩ := hs.2 node (by simp)
      obtain ⟨path, hl, hq⟩ := ih hsc hc
      exact ⟨name :: path, by simp [hl], by simpa [queue] using hq⟩

/-! ### Adding -/

/-- `add_symbol_value`, with the empty path for the queue itself. -/
def addAt (path : List CString) (v : V) (c : Int) (list : List (MapNode V)) : List (MapNode V) :=
  if path = [] then list ++ [.value c v] else addSymbolValue path v c list

theorem addAt_nil (v : V) (c : Int) (list : List (MapNode V)) :
    addAt [] v c list = list ++ [.value c v] := rfl

/-- Adding goes on in the entry of the first name, or in a new one. -/
theorem addAt_cons (name : CString) (path : List CString) (v : V) (c : Int)
    (list : List (MapNode V)) :
    addAt (name :: path) v c list =
      match listFind name list with
      | some f => f.put name (addAt path v c f.children)
      | none => list ++ [.symbol 1 name (addAt path v c [])] := by
  rw [addAt, if_neg (by simp), addSymbolValue]
  rfl

theorem addAt_ne_nil (path : List CString) (v : V) (c : Int) (list : List (MapNode V)) :
    addAt path v c list ≠ [] := by
  match path with
  | [] => simp [addAt_nil]
  | name :: path =>
      rw [addAt_cons]
      split <;> simp [Found.put]

/-- Adding at the depth of the map keeps the shape. -/
theorem addAt_shape {d : Nat} {path : List CString} (hp : path.length = d) (v : V) (c : Int)
    {list : List (MapNode V)} (hs : Shape d list) : Shape d (addAt path v c list) := by
  induction path generalizing d list with
  | nil =>
      subst hp
      intro node hm
      rcases List.mem_append.mp hm with hm | hm
      · exact hs node hm
      · exact ⟨c, v, List.mem_singleton.mp hm⟩
  | cons name path ih =>
      subst hp
      rw [addAt_cons]
      split
      next f hf => exact hs.put hf (addAt_ne_nil _ _ _ _) (ih rfl (hs.found hf).2)
      next hf =>
        have hnil : Shape path.length ([] : List (MapNode V)) := by
          cases path <;> simp [Shape, names]
        constructor
        · rw [names_append]
          refine List.nodup_append.mpr ⟨hs.1, by simp [names, symbolName?], ?_⟩
          rintro a ha b hb rfl
          simp only [names, symbolName?, List.filterMap_cons, List.filterMap_nil,
            List.mem_singleton] at hb
          subst hb
          exact listFind_none hf ha
        · intro node hm
          rcases List.mem_append.mp hm with hm | hm
          · exact hs.2 node hm
          · exact ⟨_, _, _, List.mem_singleton.mp hm, addAt_ne_nil _ _ _ _, ih rfl hnil⟩

/-- A value goes to the end of the queue of its path. -/
theorem queue_addAt_self (path : List CString) (v : V) (c : Int) (list : List (MapNode V)) :
    queue path (addAt path v c list) = queue path list ++ [(v, c)] := by
  induction path generalizing list with
  | nil => simp [queue, addAt_nil, entry?]
  | cons name path ih =>
      rw [addAt_cons]
      split
      next f hf =>
        simp only [queue, childrenOf_put_self hf, childrenOf_of_find hf, Option.getD_some, ih]
      next hf =>
        have hn := childrenOf_eq_none.mpr (listFind_none hf)
        simp only [queue, childrenOf_append, hn, childrenOf_symbol, if_pos, Option.none_or,
          Option.getD_some, Option.getD_none, ih]

/-- The queues of the other paths stay as they are. -/
theorem queue_addAt_of_ne {path path' : List CString} (hl : path'.length = path.length)
    (hne : path' ≠ path) (v : V) (c : Int) (list : List (MapNode V)) :
    queue path' (addAt path v c list) = queue path' list := by
  induction path generalizing path' list with
  | nil => exact absurd (List.length_eq_zero_iff.mp hl) hne
  | cons name path ih =>
      obtain ⟨name', path', rfl⟩ := List.exists_cons_of_length_eq_add_one hl
      have hl' : path'.length = path.length := by simpa using hl
      rw [addAt_cons]
      by_cases hn : name' = name
      · subst hn
        have hp : path' ≠ path := fun h => hne (by rw [h])
        split
        next f hf =>
          simp only [queue, childrenOf_put_self hf, childrenOf_of_find hf, Option.getD_some,
            ih hl' hp]
        next hf =>
          have hn := childrenOf_eq_none.mpr (listFind_none hf)
          simp only [queue, childrenOf_append, hn, childrenOf_symbol, if_pos, Option.none_or,
            Option.getD_some, Option.getD_none, ih hl' hp]
      · split
        next f hf => simp only [queue, childrenOf_put_of_ne hf hn]
        next hf => simp [queue, childrenOf_append, Ne.symm hn]

end Cmocka.SymbolMap
