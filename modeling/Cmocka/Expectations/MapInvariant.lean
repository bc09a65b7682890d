import Cmocka.Expectations.MapEntries

/-!
# Expectations — the representation invariant of a symbol map

What every sequence of `add_symbol_value`, `get_symbol_value` and `remove_always_return_values` at one
depth keeps (`WellFormed`): sibling names are distinct, no symbol is without children, the values lie
at that depth and nowhere else, and no reference count is zero.  The shape of a map is kept apart from
its reference counts: each operation keeps the counts of the nodes it leaves (`CountsNonZero`),
whatever the shape.  On a well-formed map a get finds a first value, and the clean-up reaches all
values (`map_well_formed`).
-/

namespace Cmocka.SymbolMap

open CountedQueue

variable {V : Type} {list : List (MapNode V)}

/-! ### The invariant -/

/-- The invariant of a map for paths of `d` names; of a queue of values for `0`. -/
def WellFormed : (d : Nat) → List (MapNode V) → Prop
  | 0, list => ∀ node ∈ list, ∃ c v, node = .value c v ∧ c ≠ 0
  | d + 1, list => (names list).Nodup ∧
      ∀ node ∈ list, ∃ c name children, node = .symbol c name children ∧ c ≠ 0 ∧ children ≠ [] ∧
        WellFormed d children

mutual

/-- A node and the nodes below it. -/
def nodesBelow : MapNode V → List (MapNode V)
  | .value c v => [.value c v]
  | .symbol c name children => .symbol c name children :: nodesIn children

/-- All nodes of a map, at every level. -/
def nodesIn : List (MapNode V) → List (MapNode V)
  | [] => []
  | node :: rest => nodesBelow node ++ nodesIn rest

end

/-- The values of a map, at every level. -/
def valuesIn (list : List (MapNode V)) : List V := (nodesIn list).flatMap freeValue

/-- No reference count of the map is zero. -/
def CountsNonZero (list : List (MapNode V)) : Prop := ∀ node ∈ nodesIn list, refcount node ≠ 0

/-! ### Operations at one depth -/

/-- An operation on a map for paths of `d` names. -/
inductive MapStep (V : Type) (d : Nat) where
  | call (op : MapOp V d)
  | removeAlways

/-- One operation of the source; `none` is a failed assertion. -/
def MapStep.run {d : Nat} : MapStep V d → List (MapNode V) → Option (List (MapNode V))
  | .call op, list => (op.run list).map Prod.fst
  | .removeAlways, list => some (removeAlwaysReturnValues d list).1

/-- A sequence of operations. -/
def runSteps {d : Nat} : List (MapStep V d) → List (MapNode V) → Option (List (MapNode V))
  | [], list => some list
  | step :: steps, list => do
      let list ← step.run list
      runSteps steps list

/-! ### The nodes of a map -/

@[simp] theorem nodesIn_append (l l' : List (MapNode V)) :
    nodesIn (l ++ l') = nodesIn l ++ nodesIn l' := by
  induction l with
  | nil => rfl
  | cons node rest ih => simp only [List.cons_append, nodesIn, ih, List.append_assoc]

@[simp] theorem countsNonZero_nil : CountsNonZero ([] : List (MapNode V)) := by
  simp [CountsNonZero, nodesIn]

@[simp] theorem countsNonZero_append {l l' : List (MapNode V)} :
    CountsNonZero (l ++ l') ↔ CountsNonZero l ∧ CountsNonZero l' := by
  simp [CountsNonZero, or_imp, forall_and]

@[simp] theorem countsNonZero_value {c : Int} {v : V} :
    CountsNonZero (.value c v :: list) ↔ c ≠ 0 ∧ CountsNonZero list := by
  simp [CountsNonZero, nodesIn, nodesBelow, refcount]

@[simp] theorem countsNonZero_symbol {c : Int} {name : CString} {children : List (MapNode V)} :
    CountsNonZero (.symbol c name children :: list) ↔
      c ≠ 0 ∧ CountsNonZero children ∧ CountsNonZero list := by
  simp [CountsNonZero, nodesIn, nodesBelow, refcount, or_imp, forall_and]

/-- It is a property of each node. -/
theorem countsNonZero_iff : CountsNonZero list ↔ ∀ node ∈ list, CountsNonZero [node] := by
  induction list with
  | nil => simp
  | cons node rest ih =>
      rw [← List.singleton_append, countsNonZero_append, ih, List.singleton_append,
        List.forall_mem_cons]

/-- The invariant is the shape with the reference counts. -/
theorem wellFormed_iff {d : Nat} : WellFormed d list ↔ Shape d list ∧ CountsNonZero list := by
  rw [countsNonZero_iff]
  induction d generalizing list with
  | zero =>
      refine ⟨fun h => ⟨fun node hm => ?_, fun node hm => ?_⟩, ?_⟩
      · obtain ⟨c, v, he, -⟩ := h node hm
        exact ⟨c, v, he⟩
      · obtain ⟨c, v, rfl, hc⟩ := h node hm
        simpa using hc
      · rintro ⟨hs, hc⟩ node hm
        obtain ⟨c, v, rfl⟩ := hs node hm
        exact ⟨c, v, rfl, by simpa using hc _ hm⟩
  | succ d ih =>
      refine ⟨?_, ?_⟩
      · rintro ⟨hnd, h⟩
        refine ⟨⟨hnd, fun node hm => ?_⟩, fun node hm => ?_⟩
        · obtain ⟨c, name, children, he, -, hne, hw⟩ := h node hm
          exact ⟨c, name, children, he, hne, (ih.mp hw).1⟩
        · obtain ⟨c, name, children, rfl, hc, -, hw⟩ := h node hm
          exact countsNonZero_symbol.mpr
            ⟨hc, countsNonZero_iff.mpr (ih.mp hw).2, countsNonZero_nil⟩
      · rintro ⟨⟨hnd, hs⟩, hc⟩
        refine ⟨hnd, fun node hm => ?_⟩
        obtain ⟨c, name, children, rfl, hne, hsc⟩ := hs node hm
        obtain ⟨hc, hchildren, -⟩ := countsNonZero_symbol.mp (hc _ hm)
        exact ⟨c, name, children, rfl, hc, hne, ih.mpr ⟨hsc, countsNonZero_iff.mp hchildren⟩⟩

/-! ### What the operations keep -/

section Found

variable {name : CString} {f : Found V}

/-- The counts around a found symbol, and its own. -/
theorem CountsNonZero.found (hc : CountsNonZero list) (h : listFind name list = some f) :
    CountsNonZero f.before ∧ f.refcount ≠ 0 ∧ CountsNonZero f.children ∧
      CountsNonZero f.after := by
  rw [(listFind_some h).1, Found.put] at hc
  simpa using hc

/-- Children with counts may replace those of an entry. -/
theorem CountsNonZero.put (hc : CountsNonZero list) (h : listFind name list = some f)
    {children : List (MapNode V)} (hchildren : CountsNonZero children) :
    CountsNonZero (f.put name children) := by
  obtain ⟨hbefore, hcount, -, hafter⟩ := hc.found h
  rw [Found.put]
  simpa using ⟨hbefore, hcount, hchildren, hafter⟩

/-- So they may when the entry is removed with its last child. -/
theorem CountsNonZero.close (hc : CountsNonZero list) (h : listFind name list = some f)
    {children : List (MapNode V)} (hchildren : CountsNonZero children) :
    CountsNonZero (f.close name children) := by
  rw [Found.close]
  split
  · obtain ⟨hbefore, -, -, hafter⟩ := hc.found h
    exact countsNonZero_append.mpr ⟨hbefore, hafter⟩
  · exact hc.put h hchildren

end Found

/-- Adding with a count that is not `0`. -/
theorem addAt_countsNonZero (path : List CString) (v : V) {c : Int} (hne : c ≠ 0)
    (hc : CountsNonZero list) : CountsNonZero (addAt path v c list) := by
  induction path generalizing list with
  | nil =>
      rw [addAt_nil]
      simpa using ⟨hc, hne⟩
  | cons name path ih =>
      rw [addAt_cons]
      split
      next f hf => exact hc.put hf (ih (hc.found hf).2.2.1)
      next => simpa using ⟨hc, ih countsNonZero_nil⟩

/-- A get lowers the first count of a queue, or drops a last use. -/
theorem takeFirst_countsNonZero {c : Int} {v : V} {rest : List (MapNode V)}
    (h : takeFirst list = some (c, v, rest)) (hc : CountsNonZero list) : CountsNonZero rest := by
  cases list with
  | nil => cases h
  | cons node tail =>
      cases node with
      | symbol c' name children => cases h
      | value c' v' =>
          obtain ⟨hne, htail⟩ := countsNonZero_value.mp hc
          rw [takeFirst] at h
          -- a count of one goes with its node, so none is lowered to zero
          split_ifs at h with hlast hmore
          · cases h
            exact htail
          · cases h
            exact countsNonZero_value.mpr ⟨hlast, htail⟩
          · cases h
            exact hc

/-- A lookup leaves no count at `0`. -/
theorem getAt_countsNonZero {path : List CString} {r : GetResult V} (h : getAt path list = some r)
    (hc : CountsNonZero list) : CountsNonZero r.list := by
  induction path generalizing list r with
  | nil =>
      obtain ⟨⟨c, v, rest⟩, htake, rfl⟩ := Option.map_eq_some_iff.mp h
      exact takeFirst_countsNonZero htake hc
  | cons name path ih =>
      rw [getAt_cons] at h
      split at h
      next =>
        cases h
        exact hc
      next f hf =>
        obtain ⟨r', hr', rfl⟩ := Option.map_eq_some_iff.mp h
        exact hc.close hf (ih hr' (hc.found hf).2.2.1)

/-- Nor does the removal of optional values. -/
theorem removeAt_countsNonZero (d : Nat) (hc : CountsNonZero list) :
    CountsNonZero (removeAt d list).1 := by
  induction d generalizing list with
  | zero =>
      cases list with
      | nil => exact hc
      | cons node rest =>
          rw [removeAt, removeFirstAlways]
          split
          · rw [← List.singleton_append, countsNonZero_append] at hc
            exact hc.2
          · exact hc
  | succ d ih =>
      rw [removeAt_succ, countsNonZero_iff]
      intro node hm
      obtain ⟨node', hm', he⟩ := List.mem_filterMap.mp hm
      have hnode := countsNonZero_iff.mp hc node' hm'
      cases node' with
      | value c v =>
          cases he
          exact hnode
      | symbol c name children =>
          obtain ⟨hne, hchildren, -⟩ := countsNonZero_symbol.mp hnode
          rw [removeRound_symbol] at he
          split at he
          · cases he
          · cases he
            exact countsNonZero_symbol.mpr ⟨hne, ih hchildren, countsNonZero_nil⟩

/-- **One operation.**  None of the assertions of `get_symbol_value` fails, and the map stays well
formed. -/
theorem run_wellFormed {d : Nat} (step : MapStep V (d + 1)) (hw : WellFormed (d + 1) list) :
    ∃ list', step.run list = some list' ∧ WellFormed (d + 1) list' := by
  obtain ⟨hs, hc⟩ := wellFormed_iff.mp hw
  have hd : 1 ≤ d + 1 := Nat.le_add_left 1 d
  cases step with
  | removeAlways =>
      exact ⟨_, rfl, wellFormed_iff.mpr
        ⟨removeAt_shape hs, removeAt_countsNonZero (d + 1) hc⟩⟩
  | call op =>
      cases op with
      | add path v c =>
          refine ⟨_, rfl, wellFormed_iff.mpr ⟨shape_add hd path v c.1 hs, ?_⟩⟩
          rw [← addAt_of_ne_nil (path.ne_nil hd)]
          exact addAt_countsNonZero path.1 v c.2 hc
      | get path =>
          have hcounts : ∀ {r : GetResult V}, getSymbolValue path.1 list = some r →
              CountsNonZero r.list := by
            intro r hr
            rw [← getAt_of_ne_nil (path.ne_nil hd)] at hr
            exact getAt_countsNonZero hr hc
          -- a get that finds nothing leaves the map as it is
          rcases table_get hd path hs with ⟨-, name, -, hg⟩ | ⟨v, c, q, list', -, hg, hs', -⟩
          · exact ⟨list, by simp [MapStep.run, MapOp.run, hg], hw⟩
          · exact ⟨list', by simp [MapStep.run, MapOp.run, hg],
              wellFormed_iff.mpr ⟨hs', hcounts hg⟩⟩

/-- A sequence of operations. -/
theorem runSteps_wellFormed {d : Nat} (steps : List (MapStep V (d + 1)))
    (hw : WellFormed (d + 1) list) :
    ∃ list', runSteps steps list = some list' ∧ WellFormed (d + 1) list' := by
  induction steps generalizing list with
  | nil => exact ⟨list, rfl, hw⟩
  | cons step steps ih =>
      obtain ⟨list₁, h₁, hw₁⟩ := run_wellFormed step hw
      obtain ⟨list', h', hw'⟩ := ih hw₁
      exact ⟨list', by rw [runSteps, h₁]; exact h', hw'⟩

/-! ### The clean-up -/

/-- `free_symbol_map_value`, with depth `0` for the values of a queue. -/
def freeAt : (d : Nat) → MapNode V → List V
  | 0 => freeValue
  | d + 1 => freeSymbolMapValue d

theorem freeAt_symbol (d : Nat) (c : Int) (name : CString) (children : List (MapNode V)) :
    freeAt (d + 1) (.symbol c name children) = children.flatMap (freeAt d) := by
  cases d with
  | zero => exact listFree_snd freeValue children
  | succ d => exact listFree_snd (freeSymbolMapValue d) children

theorem valuesIn_cons (node : MapNode V) (rest : List (MapNode V)) :
    valuesIn (node :: rest) = (nodesBelow node).flatMap freeValue ++ valuesIn rest := by
  rw [valuesIn, nodesIn, List.flatMap_append, valuesIn]

/-- The clean-up reaches every value, once. -/
theorem flatMap_freeAt {d : Nat} (hs : Shape d list) : list.flatMap (freeAt d) = valuesIn list := by
  induction d generalizing list with
  | zero =>
      induction list with
      | nil => rfl
      | cons node rest ih =>
          obtain ⟨c, v, rfl⟩ := hs node List.mem_cons_self
          rw [List.flatMap_cons, ih fun n hn => hs n (List.mem_cons_of_mem _ hn), valuesIn_cons]
          rfl
  | succ d ihd =>
      obtain ⟨-, hs⟩ := hs
      induction list with
      | nil => rfl
      | cons node rest ih =>
          obtain ⟨c, name, children, rfl, -, hsc⟩ := hs node List.mem_cons_self
          rw [List.flatMap_cons, ih fun n hn => hs n (List.mem_cons_of_mem _ hn), valuesIn_cons,
            freeAt_symbol, ihd hsc]
          rfl

/-- **The representation invariant.**  From an empty map every sequence of operations at one depth
runs to its end and leaves a well-formed map; there every further get runs, and the clean-up with
the depth below releases exactly the values of the map. -/
theorem map_well_formed {d : Nat} (steps : List (MapStep V (d + 1))) :
    ∃ list, runSteps steps [] = some list ∧ WellFormed (d + 1) list ∧
      (∀ path : Path (d + 1), (getSymbolValue path.1 list).isSome) ∧
      (listFree (freeSymbolMapValue d) list).2 = valuesIn list := by
  obtain ⟨list, hrun, hw⟩ := runSteps_wellFormed steps
    (wellFormed_iff.mpr ⟨shape_nil (d + 1), countsNonZero_nil⟩)
  refine ⟨list, hrun, hw, fun path => ?_, ?_⟩
  · obtain ⟨list', hget, -⟩ := run_wellFormed (.call (.get path)) hw
    obtain ⟨r, hr, -⟩ := Option.map_eq_some_iff.mp hget
    obtain ⟨r', hr', -⟩ := Option.map_eq_some_iff.mp hr
    exact Option.isSome_iff_exists.mpr ⟨r', hr'⟩
  · rw [listFree_snd]
    exact flatMap_freeAt (wellFormed_iff.mp hw).1

end Cmocka.SymbolMap
