import Cmocka.Support.CallOrder
import Cmocka.Expectations.Calls
import Cmocka.Alloc.Sequence

/-!
# Expectations — the order of function calls

`_function_called` is `CallOrder.charge` on the names and reference counts of the call-ordering
list.  So the sequences of calls that a list of expectations lets through, with nothing left at the
end of the test, are those of its regular language (`call_ordering_language`).
-/

namespace Cmocka

open Runs CountedQueue CallOrder

/-- A call of `_expect_function_call` with a count it accepts. -/
structure ExpectedCall where
  functionName : CString
  file : CString
  line : Int
  count : Int
  count_ne_zero : count ≠ 0

/-- A call of `_function_called`. -/
structure MockCall where
  function : CString
  file : CString
  line : Int

def ExpectedCall.op (e : ExpectedCall) : Op :=
  .expectFunctionCall e.functionName e.file e.line e.count

def MockCall.op (c : MockCall) : Op := .functionCalled c.function c.file c.line

/-- The name and the count of an expectation. -/
def ExpectedCall.entry (e : ExpectedCall) : CString × Int := (e.functionName, e.count)

/-- The names and the reference counts of the call-ordering list. -/
def Globals.callEntries (s : Globals) : List (CString × Int) :=
  s.globalCallOrdering.map fun e => (e.1.function, e.2)

/-! ### The calls -/

/-- Expectations are appended in the order they are declared in. -/
theorem execOps_expectedCalls (E : List ExpectedCall) (s : Globals) :
    ∃ s', execOps (E.map ExpectedCall.op) s = .ok () s' ∧
      s'.callEntries = s.callEntries ++ E.map ExpectedCall.entry := by
  induction E generalizing s with
  | nil => exact ⟨s, rfl, (List.append_nil _).symm⟩
  | cons e E ih =>
      rcases expectFunctionCall_cases e.functionName e.file e.line e.count s with
        ⟨-, he⟩ | ⟨hzero, -⟩
      · obtain ⟨s', h, hentries⟩ := ih _
        refine ⟨s', (bind_of_ok he _).trans h, hentries.trans ?_⟩
        simp [Globals.callEntries, orderingOf, ExpectedCall.entry]
      · exact absurd hzero e.count_ne_zero

theorem charge_of_scan_none {function : CString} {list : List (FuncOrderingValue × Int)}
    (h : scanCalls function list = none) :
    charge function (list.map fun e => (e.1.function, e.2)) = none := by
  have hall := scanCalls_none.mp h
  clear h
  induction list with
  | nil => rfl
  | cons e list ih =>
      obtain ⟨hne, hle⟩ := hall e List.mem_cons_self
      rw [List.map_cons, charge, if_neg hne, if_neg (by omega),
        ih fun e he => hall e (List.mem_cons_of_mem _ he)]
      rfl

/-- The call is charged to the entry the search stops at, if that is for the function. -/
theorem charge_of_scan_some {function : CString}
    {list before after : List (FuncOrderingValue × Int)} {expected : FuncOrderingValue}
    {refcount : Int} (h : scanCalls function list = some (before, (expected, refcount), after)) :
    charge function (list.map fun e => (e.1.function, e.2)) =
      if expected.function = function then
        some ((chargeCall before expected refcount after).map fun e => (e.1.function, e.2))
      else none := by
  obtain ⟨rfl, hstop, hskip⟩ := scanCalls_some h
  clear h
  induction before with
  | nil =>
      rw [List.nil_append, List.map_cons, charge]
      split
      case isTrue hf =>
        cases hs : spend refcount <;> simp [pop, chargeCall, hs]
      case isFalse hf => rw [if_pos (hstop.resolve_left hf)]
  | cons e before ih =>
      obtain ⟨hne, hle⟩ := hskip e List.mem_cons_self
      rw [List.cons_append, List.map_cons, charge, if_neg hne, if_neg (by omega),
        ih fun e he => hskip e (List.mem_cons_of_mem _ he)]
      split <;> rfl

/-- **`_function_called` charges the call**, or fails. -/
theorem functionCalled_charge (c : MockCall) (s : Globals) :
    (∃ s', c.op.exec s = .ok () s' ∧ charge c.function s.callEntries = some s'.callEntries) ∨
      ((∀ s', c.op.exec s ≠ .ok () s') ∧ charge c.function s.callEntries = none) := by
  rcases functionCalled_cases c.function c.file c.line s with
    ⟨hscan, hf⟩ | ⟨before, expected, refcount, after, hscan, ⟨hname, released, he⟩ | ⟨hname, hf⟩⟩
  · exact .inr ⟨hf.not_ok (), charge_of_scan_none hscan⟩
  · exact .inl ⟨_, he, (charge_of_scan_some hscan).trans (if_pos hname)⟩
  · exact .inr ⟨hf.not_ok (), (charge_of_scan_some hscan).trans (if_neg hname)⟩

/-- A sequence of calls goes through just if the list takes its names. -/
theorem execOps_mockCalls (w : List MockCall) (s : Globals) {P : List (CString × Int) → Prop} :
    (∃ s', execOps (w.map MockCall.op) s = .ok () s' ∧ P s'.callEntries) ↔
      ∃ q, chargeAll (w.map MockCall.function) s.callEntries = some q ∧ P q := by
  induction w generalizing s with
  | nil =>
      constructor
      · rintro ⟨s', h, hP⟩
        cases h
        exact ⟨_, rfl, hP⟩
      · rintro ⟨q, h, hP⟩
        cases h
        exact ⟨s, rfl, hP⟩
  | cons c w ih =>
      rcases functionCalled_charge c s with ⟨s₁, he, hcharge⟩ | ⟨hno, hcharge⟩
      · have hexec : execOps ((c :: w).map MockCall.op) s = execOps (w.map MockCall.op) s₁ :=
          bind_of_ok he _
        rw [hexec, ih s₁, List.map_cons, chargeAll, hcharge]
        rfl
      · rw [List.map_cons, List.map_cons, chargeAll, hcharge]
        refine iff_of_false ?_ ?_
        · rintro ⟨s', h, -⟩
          obtain ⟨_, s₁, h₁, -⟩ := bind_eq_ok.mp h
          exact hno s₁ h₁
        · rintro ⟨q, h, -⟩
          cases h

/-! ### The list on its nodes -/

section Nodes

open NodeHeap

variable {α : Type} {H : NodeHeap α} {head : α} {l : List α}

/-- The entry of a node, with the objects the values point at. -/
def NodeHeap.orderingAt (H : NodeHeap α) (object : Addr → FuncOrderingValue) (a : α) :
    FuncOrderingValue × Int :=
  (object (H.entryAt a).1, (H.entryAt a).2)

/-- The list of the state is the sequence of the entries: on the nodes,
`remove_always_return_values_from_list` leaves and frees the same. -/
theorem removeAlways_refines [DecidableEq α] (object : Addr → FuncOrderingValue)
    (h : H.Rings head l) {bound : Nat} (hbound : l.length < bound) :
    ∃ H' freed kept,
      NodeHeap.removeAlwaysReturnValuesFromList (fun v freed => freed ++ [v]) head bound H [] =
        some (H', freed, l) ∧
      H'.Rings head kept ∧
      Cmocka.removeAlwaysReturnValuesFromList (l.map (H.orderingAt object)) =
        (kept.map (H'.orderingAt object), freed.map object) := by
  obtain ⟨H', hloop, hring, hsame⟩ := removeAlways_ring (fun v freed => freed ++ [v]) [] h hbound
  refine ⟨H', _, _, hloop, hring, ?_⟩
  rw [Cmocka.removeAlwaysReturnValuesFromList]
  refine congrArg₂ Prod.mk ?_ ?_
  · rw [List.filter_map, List.filter_congr (q := fun a => -1 ≤ H.refcountAt a)]
    · refine List.map_congr_left fun a ha => ?_
      rw [orderingAt, orderingAt, hsame a ha]
    · intro a _
      rw [Function.comp_apply, ← decide_not]
      exact decide_eq_decide.mpr Int.not_lt
  · have hfreed : ∀ values : List Addr, values.foldl (fun s v => s ++ [v]) [] = values := by
      intro values
      rw [List.foldl_append_eq_append, List.nil_append, ← List.flatMap_def, List.flatMap_singleton']
    rw [hfreed, List.filter_map, List.map_map, List.map_map]
    rfl

end Nodes

/-! ### The language -/

/-- Nothing is reported at the end just if no obligation is left. -/
theorem leftoverList_eq (errorMessage : CString) (s : Globals) :
    checkForLeftoverValuesList errorMessage
        (removeAlwaysReturnValuesFromList s.globalCallOrdering).1 = (0, []) ↔
      ∀ e ∈ s.callEntries, e.2 < -1 := by
  rw [Globals.callEntries, List.forall_mem_map]
  simp [checkForLeftoverValuesList, removeAlwaysReturnValuesFromList]

/-- **The call-ordering checker accepts its regular language.**  After the expectations `E` of a
test, the calls `w` all return and nothing of the list is reported, if and only if no obligation is
shadowed and the names of `w` are the blocks of the obligations in order. -/
theorem call_ordering_language (E : List ExpectedCall) (w : List MockCall) (errorMessage : CString)
    {s : Globals} (hs : s.globalCallOrdering = []) :
    ∃ s₁, execOps (E.map ExpectedCall.op) s = .ok () s₁ ∧
      ((∃ s₂, execOps (w.map MockCall.op) s₁ = .ok () s₂ ∧
        checkForLeftoverValuesList errorMessage
          (removeAlwaysReturnValuesFromList s₂.globalCallOrdering).1 = (0, [])) ↔
      Unshadowed [] (E.map ExpectedCall.entry) ∧
        w.map MockCall.function ∈ inOrder [] (E.map ExpectedCall.entry)) := by
  obtain ⟨s₁, h₁, hentries⟩ := execOps_expectedCalls E s
  refine ⟨s₁, h₁, ?_⟩
  have hlist : s₁.callEntries = E.map ExpectedCall.entry := by
    rw [hentries, Globals.callEntries, hs]
    rfl
  have hnonzero : NonZero (E.map ExpectedCall.entry) := by
    intro e he
    obtain ⟨e', -, rfl⟩ := List.mem_map.mp he
    exact e'.count_ne_zero
  simp only [leftoverList_eq]
  rw [execOps_mockCalls w s₁ (P := fun q => ∀ e ∈ q, e.2 < -1), hlist]
  exact accepted_iff hnonzero

/-- One call of `f` at least, and two calls of `g` after it. -/
def expectedCalls : List ExpectedCall :=
  [⟨"f".toList, "t.c".toList, 1, -1, by decide⟩, ⟨"g".toList, "t.c".toList, 2, 2, by decide⟩]

/-- `f` may be called again between the calls of `g`. -/
def mockCalls : List MockCall :=
  [⟨"f".toList, "m.c".toList, 1⟩, ⟨"g".toList, "m.c".toList, 2⟩, ⟨"f".toList, "m.c".toList, 1⟩,
    ⟨"g".toList, "m.c".toList, 2⟩]

theorem mockCalls_accepted :
    ∃ s₁ s₂, execOps (expectedCalls.map ExpectedCall.op) (.initial .lp64) = .ok () s₁ ∧
      execOps (mockCalls.map MockCall.op) s₁ = .ok () s₂ ∧
      checkForLeftoverValuesList leftoverCallMessage
        (removeAlwaysReturnValuesFromList s₂.globalCallOrdering).1 = (0, []) := by
  obtain ⟨s₁, h₁, hiff⟩ := call_ordering_language expectedCalls mockCalls leftoverCallMessage
    (s := .initial .lp64) rfl
  have hf : "f".toList ∈ allowed [("f".toList, -1)] := ⟨-1, le_rfl, List.mem_singleton_self _⟩
  have hunshadowed : Unshadowed [] (expectedCalls.map ExpectedCall.entry) := by
    refine ⟨?_, ?_, trivial⟩
    · rintro - ⟨c, -, h⟩
      cases h
    · rintro - ⟨c, -, h⟩
      exact absurd (List.mem_singleton.mp h) (by simp)
  have hblocks : mockCalls.map MockCall.function ∈
      inOrder [] (expectedCalls.map ExpectedCall.entry) := by
    change _ ∈ (words _ * {["f".toList]}) ^ 1 * ((words _ * {["g".toList]}) ^ 2 * words _)
    rw [pow_one, pow_two, mul_assoc (words _ * {["g".toList]})]
    refine cons_mem_block.mpr (.inr ⟨rfl, ?_⟩)
    refine cons_mem_block.mpr (.inr ⟨rfl, ?_⟩)
    refine cons_mem_block.mpr (.inl ⟨hf, ?_⟩)
    exact cons_mem_block.mpr (.inr ⟨rfl, nil_mem_words _⟩)
  obtain ⟨s₂, h₂, hnone⟩ := hiff.mpr ⟨hunshadowed, hblocks⟩
  exact ⟨s₁, s₂, h₁, h₂, hnone⟩

end Cmocka
