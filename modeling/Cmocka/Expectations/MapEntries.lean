import Mathlib.Algebra.Order.Group.Multiset
import Mathlib.Algebra.BigOperators.Group.Multiset.Basic
import Cmocka.Support.Ledger
import Cmocka.Expectations.Leftover

/-!
# Expectations — the entries of a symbol map

`entries d map` is the multiset of all values in a map for paths of `d` names, with their counts,
wherever they lie.  Each operation moves entries in and out of it: an add inserts one, a get uses
one (`entries_get`), the removal of optional values takes out what it releases
(`entries_removeAt`), and the clean-up of the whole map releases every value in it exactly once
(`freed_eq_entries`), provided it is started with the depth of the map.
-/

namespace Cmocka.SymbolMap

open CountedQueue Ledger

variable {V : Type}

/-- The entries below one node of a list at depth `d + 1`, given those of a list at depth `d`. -/
def entriesBelow (inner : List (MapNode V) → Multiset (V × Int)) : MapNode V → Multiset (V × Int)
  | .value _ _ => 0
  | .symbol _ _ children => inner children

/-- All values of a map for paths of `d` names, with their counts. -/
def entries : (d : Nat) → List (MapNode V) → Multiset (V × Int)
  | 0, list => list.filterMap entry?
  | d + 1, list => (list.map (entriesBelow (entries d))).sum

@[simp] theorem entries_nil (d : Nat) : entries d ([] : List (MapNode V)) = 0 := by
  cases d <;> simp [entries]

/-- The entries of two lists, one behind the other. -/
theorem entries_append (d : Nat) (l l' : List (MapNode V)) :
    entries d (l ++ l') = entries d l + entries d l' := by
  cases d <;> simp [entries]

@[simp] theorem entries_symbol (d : Nat) (c : Int) (name : CString)
    (children rest : List (MapNode V)) :
    entries (d + 1) (.symbol c name children :: rest) =
      entries d children + entries (d + 1) rest := by
  simp [entries, entriesBelow]

@[simp] theorem entries_value_zero (c : Int) (v : V) (rest : List (MapNode V)) :
    entries 0 (.value c v :: rest) = (v, c) ::ₘ entries 0 rest := by
  simp [entries, entry?]

@[simp] theorem entries_value_succ (d : Nat) (c : Int) (v : V) (rest : List (MapNode V)) :
    entries (d + 1) (.value c v :: rest) = entries (d + 1) rest := by
  simp [entries, entriesBelow]

/-- The entries around a found symbol. -/
theorem entries_put (d : Nat) (f : Found V) (name : CString) (children : List (MapNode V)) :
    entries (d + 1) (f.put name children) = entries d children + entries (d + 1) f.remove := by
  simp only [Found.put, Found.remove, entries_append, entries_symbol]
  rw [add_left_comm]

/-- The entries after a child list was put back, or removed when it is empty. -/
theorem entries_close (d : Nat) (f : Found V) (name : CString) (children : List (MapNode V)) :
    entries (d + 1) (f.close name children) = entries d children + entries (d + 1) f.remove := by
  by_cases he : children = []
  · simp [Found.close, he]
  · simp [Found.close, he, entries_put]

/-! ### Adding and getting -/

/-- Adding adds one entry. -/
theorem entries_addAt {d : Nat} {path : List CString} (hp : path.length = d) (v : V) (c : Int)
    (list : List (MapNode V)) : entries d (addAt path v c list) = (v, c) ::ₘ entries d list := by
  induction path generalizing d list with
  | nil =>
      subst hp
      rw [addAt_nil, List.length_nil, entries_append, entries_value_zero, entries_nil,
        Multiset.add_cons, add_zero]
  | cons name path ih =>
      subst hp
      rw [addAt_cons, List.length_cons]
      split
      next f hf =>
        rw [entries_put, ih rfl, Multiset.cons_add, ← entries_put _ _ name,
          ← (listFind_some hf).1]
      next hf =>
        rw [entries_append, entries_symbol, ih rfl, entries_nil, entries_nil, add_zero,
          Multiset.add_cons, add_zero]

/-- `add_symbol_value` adds one entry. -/
theorem entries_add {d : Nat} (hd : 1 ≤ d) (path : Path d) (v : V) (c : Int)
    (list : List (MapNode V)) :
    entries d (addSymbolValue path.1 v c list) = (v, c) ::ₘ entries d list := by
  rw [← addAt_of_ne_nil (path.ne_nil hd)]
  exact entries_addAt path.2 v c list

/-- Taking the first value uses its entry. -/
theorem takeFirst_uses {list list' : List (MapNode V)} {v : V} {c : Int}
    (h : takeFirst list = some (c, v, list')) : Uses v c (entries 0 list) (entries 0 list') := by
  match list with
  | [] => cases h
  | .symbol _ _ _ :: _ => cases h
  | .value c' v' :: rest =>
      rw [takeFirst_value] at h
      cases h
      refine ⟨entries 0 rest, by simp, ?_⟩
      cases spend c <;> simp

/-- So does a lookup at the depth of the map. -/
theorem getAt_uses {d : Nat} {path : List CString} (hp : path.length = d)
    {list : List (MapNode V)} {r : GetResult V} {v : V} (h : getAt path list = some r)
    (hv : r.output = some v) : Uses v r.returnValue (entries d list) (entries d r.list) := by
  induction path generalizing d list r with
  | nil =>
      subst hp
      simp only [getAt, if_pos, Option.map_eq_some_iff] at h
      obtain ⟨⟨c, v', list'⟩, ht, rfl⟩ := h
      cases hv
      exact takeFirst_uses ht
  | cons name path ih =>
      subst hp
      rw [getAt_cons] at h
      cases hf : listFind name list with
      | none =>
          rw [hf] at h
          cases h
          cases hv
      | some f =>
          rw [hf] at h
          obtain ⟨r', hg, rfl⟩ := Option.map_eq_some_iff.mp h
          obtain ⟨rest, hb, hu⟩ := ih rfl hg hv
          refine ⟨rest + entries (path.length + 1) f.remove, ?_, ?_⟩
          · rw [List.length_cons, (listFind_some hf).1, entries_put, hb, Multiset.cons_add]
          · rw [List.length_cons, entries_close, hu, add_assoc]

/-- `get_symbol_value` uses the entry it returns. -/
theorem entries_get {d : Nat} (hd : 1 ≤ d) (path : Path d) {list : List (MapNode V)}
    {r : GetResult V} {v : V} (h : getSymbolValue path.1 list = some r) (hv : r.output = some v) :
    Uses v r.returnValue (entries d list) (entries d r.list) := by
  rw [← getAt_of_ne_nil (path.ne_nil hd)] at h
  exact getAt_uses path.2 h hv

/-- The value a get took out of the map, if that was its last use. -/
def lastUse (r : GetResult V) : List V := if r.returnValue = 1 then r.output.toList else []

/-- **A get takes out the values it uses up**, and no others. -/
theorem values_get {d : Nat} (hd : 1 ≤ d) (path : Path d) {list : List (MapNode V)}
    (hs : Shape d list) {r : GetResult V} (h : getSymbolValue path.1 list = some r) :
    Shape d r.list ∧ (entries d list).map Prod.fst =
      (lastUse r : Multiset V) + (entries d r.list).map Prod.fst := by
  rcases table_get hd path hs with ⟨-, name, -, hg⟩ | ⟨v, c, q, list', -, hg, hs', -⟩
  · cases hg.symm.trans h
    exact ⟨hs, by simp [lastUse]⟩
  · have hu := entries_get hd path hg rfl
    cases hg.symm.trans h
    exact ⟨hs', hu.values⟩

/-! ### Releasing -/

/-- The values of a multiset of entries. -/
abbrev valuesOf (bag : Multiset (V × Int)) : Multiset V := bag.map Prod.fst

/-- The removal of optional values releases what it takes out, and takes out optional entries
only. -/
theorem entries_removeAt {d : Nat} {list : List (MapNode V)} (hs : Shape d list) :
    ∃ dropped, entries d list = dropped + entries d (removeAt d list).1 ∧
      valuesOf dropped = (removeAt d list).2 ∧ ∀ e ∈ dropped, e.2 < -1 := by
  induction d generalizing list with
  | zero =>
      cases list with
      | nil => exact ⟨0, by simp [removeAt_nil]⟩
      | cons node rest =>
          obtain ⟨c, v, rfl⟩ := hs node (by simp)
          by_cases hc : c < -1
          · refine ⟨{(v, c)}, ?_⟩
            simp [removeAt, removeFirstAlways, refcount, hc, freeValue]
          · refine ⟨0, ?_⟩
            simp [removeAt, removeFirstAlways, refcount, hc]
  | succ d ih =>
      rw [removeAt_succ]
      have hall := hs.2
      clear hs
      -- the rounds of the loop are independent
      induction list with
      | nil => exact ⟨0, by simp⟩
      | cons node rest ihl =>
          obtain ⟨dropped, hd, hv, hopt⟩ := ihl fun n hn => hall n (by simp [hn])
          obtain ⟨c, name, children, rfl, -, hsc⟩ := hall node (by simp)
          obtain ⟨dropped', hd', hv', hopt'⟩ := ih hsc
          refine ⟨dropped' + dropped, ?_, ?_, fun e he => ?_⟩
          · rw [entries_symbol, hd, hd']
            by_cases he : (removeAt d children).1 = []
            · simp [he, add_assoc]
            · simp [he, add_assoc, add_left_comm]
          · rw [valuesOf, Multiset.map_add]
            exact (congrArg₂ (· + ·) hv' hv).trans (by simp)
          · rcases Multiset.mem_add.mp he with he | he
            · exact hopt' e he
            · exact hopt e he

/-- The same of the values. -/
theorem values_remove {d : Nat} {list : List (MapNode V)} (hs : Shape (d + 1) list) :
    valuesOf (entries (d + 1) list) = (removeAlwaysReturnValues (d + 1) list).2 +
      valuesOf (entries (d + 1) (removeAlwaysReturnValues (d + 1) list).1) := by
  obtain ⟨dropped, he, hv, -⟩ := entries_removeAt hs
  rw [he, valuesOf, Multiset.map_add]
  exact congrArg (· + _) hv

theorem listFree_fst (cleanup : MapNode V → List V) (list : List (MapNode V)) :
    (listFree cleanup list).1 = [] := by
  induction list with
  | nil => rfl
  | cons node rest ih => simpa [listFree] using ih

/-- Freeing a list releases what its nodes hold, in order. -/
theorem listFree_snd (cleanup : MapNode V → List V) (list : List (MapNode V)) :
    (listFree cleanup list).2 = list.flatMap cleanup := by
  induction list with
  | nil => rfl
  | cons node rest ih => simp [listFree, ih]

/-- **The clean-up releases every value once**: `free_symbol_map_value`, started over a map for
paths of `d + 1` names with depth argument `d`, passes exactly the values of the map to
`free_value`. -/
theorem freed_eq_entries (d : Nat) (list : List (MapNode V)) :
    ((listFree (freeSymbolMapValue d) list).2 : Multiset V) = valuesOf (entries (d + 1) list) := by
  induction d generalizing list with
  | zero =>
      rw [listFree_snd]
      induction list with
      | nil => simp
      | cons node rest ih =>
          cases node with
          | value c v => simpa [freeSymbolMapValue] using ih
          | symbol c name children =>
              -- at depth 1 the children are the values themselves
              have hc : (children.flatMap freeValue : Multiset V) =
                  valuesOf (entries 0 children) := by
                induction children with
                | nil => simp
                | cons child children ihc =>
                    cases child with
                    | value c v =>
                        rw [entries_value_zero, valuesOf, Multiset.map_cons]
                        exact congrArg (v ::ₘ ·) ihc
                    | symbol c n ch => exact ihc
              rw [List.flatMap_cons, ← Multiset.coe_add, ih, freeSymbolMapValue, listFree_snd, hc]
              simp
  | succ d ihd =>
      rw [listFree_snd]
      induction list with
      | nil => simp
      | cons node rest ih =>
          cases node with
          | value c v => simpa [freeSymbolMapValue] using ih
          | symbol c name children =>
              rw [List.flatMap_cons, ← Multiset.coe_add, ih, freeSymbolMapValue, ihd]
              simp

end Cmocka.SymbolMap
