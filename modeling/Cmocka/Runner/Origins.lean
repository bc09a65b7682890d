import Cmocka.Expectations.Streams
import Cmocka.Runner.Ownership

/-!
# Runner — where expectations come from

A call that declares an expectation is given the next address, so the address names the call
(`MadeAt`).  What waits in the three structures was declared by such a call of the run, with the
function, the value and the check function the call was made with: `Sourced` is the invariant, and
every call that returns keeps it.
-/

namespace Cmocka

open Runs SymbolMap CountedQueue Splits

/-! ### Declarations -/

/-- The call declares an expectation. -/
def Op.declares : Op → Bool
  | .willReturn .. | .expectCheck .. | .expectFunctionCall .. => true
  | _ => false

/-- In the calls `done`, made from `start`, the call `op` declared the expectation at `p`. -/
def MadeAt (done : List Op) (start : Globals) (op : Op) (p : Addr) : Prop :=
  op.declares = true ∧ ∃ s, Reaches done start op s ∧ s.nextPtr = p

/-- The next address was given to no call. -/
def NextUnused (done : List Op) (start s : Globals) : Prop :=
  ∀ op p, MadeAt done start op p → p < s.nextPtr

theorem reaches_concat {done : List Op} {op op' : Op} {start s s' : Globals}
    (hd : execOps done start = .ok () s) :
    Reaches (done ++ [op']) start op s' ↔ Reaches done start op s' ∨ op = op' ∧ s' = s := by
  constructor
  · rintro ⟨before, after, he, hb⟩
    rcases concat_eq_split.mp he with ⟨mid, rfl, -⟩ | ⟨rfl, rfl, -⟩
    · exact .inl ⟨before, mid, rfl, hb⟩
    · cases hb.symm.trans hd
      exact .inr ⟨rfl, rfl⟩
  · rintro (h | ⟨rfl, rfl⟩)
    · exact h.of_prefix (List.prefix_append done [op'])
    · exact ⟨done, [], rfl, hd⟩

section Declarations

variable {done : List Op} {op op' : Op} {start s s' : Globals} {p : Addr}

theorem MadeAt.concat (h : MadeAt done start op p) (op' : Op) :
    MadeAt (done ++ [op']) start op p := by
  obtain ⟨hop, s, hr, hp⟩ := h
  exact ⟨hop, s, hr.of_prefix (List.prefix_append done [op']), hp⟩

/-- The last call is given the next address. -/
theorem madeAt_last (hd : execOps done start = .ok () s) (hop : op.declares = true) :
    MadeAt (done ++ [op]) start op s.nextPtr :=
  ⟨hop, s, (reaches_concat hd).mpr (.inr ⟨rfl, rfl⟩), rfl⟩

/-- After a call that declares nothing, the next address is as good as before. -/
theorem NextUnused.idle (h : NextUnused done start s) (hd : execOps done start = .ok () s)
    (hop : op'.declares = false) (hn : s'.nextPtr = s.nextPtr) :
    NextUnused (done ++ [op']) start s' := by
  rintro op p ⟨hdeclares, s₁, hr, hp⟩
  rcases (reaches_concat hd).mp hr with hr | ⟨rfl, -⟩
  · exact hn.symm ▸ h op p ⟨hdeclares, s₁, hr, hp⟩
  · cases hdeclares.symm.trans hop

theorem NextUnused.declare (h : NextUnused done start s) (hd : execOps done start = .ok () s)
    (hn : s'.nextPtr = s.nextPtr + 1) : NextUnused (done ++ [op']) start s' := by
  rintro op p ⟨hdeclares, s₁, hr, hp⟩
  rw [hn]
  rcases (reaches_concat hd).mp hr with hr | ⟨-, rfl⟩
  · exact Nat.lt_succ_of_lt (h op p ⟨hdeclares, s₁, hr, hp⟩)
  · rw [← hp]
    exact Nat.lt_succ_self _

end Declarations

/-! ### The invariant -/

/-- Every value queued for a function was declared for it. -/
def ValuesSourced (done : List Op) (start s : Globals) : Prop :=
  ∀ function v c, (v, c) ∈ queuesOf functionPath id s.globalFunctionResultMap function →
    ∃ file line n, MadeAt done start (.willReturn function file line v.name v.value n) v.ptr

/-- Every check queued for a parameter was declared for it. -/
def ChecksSourced (done : List Op) (start s : Globals) : Prop :=
  ∀ parameter check c,
    (check, c) ∈ queuesOf parameterPath id s.globalFunctionParameterMap parameter →
    ∃ file line n, MadeAt done start (.expectCheck parameter.1 parameter.2 file line
      check.checkValue check.checkValueData n) check.ptr

/-- Every expected call was declared. -/
def CallsSourced (done : List Op) (start s : Globals) : Prop :=
  ∀ expected c, (expected, c) ∈ s.globalCallOrdering →
    ∃ file line n, MadeAt done start (.expectFunctionCall expected.function file line n)
      expected.ptr

/-- What waits in the three structures after the calls `done` was declared by them. -/
structure Sourced (done : List Op) (start s : Globals) : Prop where
  run : execOps done start = .ok () s
  results : Shape 1 s.globalFunctionResultMap
  parameters : Shape 2 s.globalFunctionParameterMap
  values : ValuesSourced done start s
  checks : ChecksSourced done start s
  calls : CallsSourced done start s
  unused : NextUnused done start s

section Steps

variable {done : List Op} {op : Op} {start s s' : Globals}

theorem ValuesSourced.idle (h : ValuesSourced done start s) (op : Op)
    (hs : s'.globalFunctionResultMap = s.globalFunctionResultMap) :
    ValuesSourced (done ++ [op]) start s' := by
  intro function v c hmem
  rw [hs] at hmem
  obtain ⟨file, line, n, hmade⟩ := h function v c hmem
  exact ⟨file, line, n, hmade.concat op⟩

theorem ChecksSourced.idle (h : ChecksSourced done start s) (op : Op)
    (hs : s'.globalFunctionParameterMap = s.globalFunctionParameterMap) :
    ChecksSourced (done ++ [op]) start s' := by
  intro parameter check c hmem
  rw [hs] at hmem
  obtain ⟨file, line, n, hmade⟩ := h parameter check c hmem
  exact ⟨file, line, n, hmade.concat op⟩

theorem CallsSourced.idle (h : CallsSourced done start s) (op : Op)
    (hs : ∀ expected c, (expected, c) ∈ s'.globalCallOrdering →
      ∃ c', (expected, c') ∈ s.globalCallOrdering) : CallsSourced (done ++ [op]) start s' := by
  intro expected c hmem
  obtain ⟨c', hmem⟩ := hs expected c hmem
  obtain ⟨file, line, n, hmade⟩ := h expected c' hmem
  exact ⟨file, line, n, hmade.concat op⟩

/-- The value a `_mock` finds is the first that was declared for the function and is left. -/
theorem found_value (hs : Shape 1 s.globalFunctionResultMap) {function : CString}
    {r : GetResult SymbolValue} {v : SymbolValue}
    (hg : getSymbolValue [function] s.globalFunctionResultMap = some r) (hv : r.output = some v) :
    Shape 1 r.list ∧
    (∃ c, (v, c) ∈ queuesOf functionPath id s.globalFunctionResultMap function) ∧
    queuesOf functionPath id r.list =
      (queuesOf functionPath id s.globalFunctionResultMap).take function := by
  rcases queuesOf_get id le_rfl functionPath_injective function hs with
    ⟨-, printed, hg'⟩ | ⟨v', c, q, list', hg', hs', hq, ht⟩
  · cases hg.symm.trans hg'
    cases hv
  · cases hg.symm.trans hg'
    cases hv
    exact ⟨hs', ⟨c, by rw [hq]; exact List.mem_cons_self⟩, ht⟩

/-- The same for the check a `_check_expected` finds. -/
theorem found_check (hs : Shape 2 s.globalFunctionParameterMap) {function parameter : CString}
    {r : GetResult CheckParameterEvent} {check : CheckParameterEvent}
    (hg : getSymbolValue [function, parameter] s.globalFunctionParameterMap = some r)
    (hv : r.output = some check) :
    Shape 2 r.list ∧
    (∃ c, (check, c) ∈
      queuesOf parameterPath id s.globalFunctionParameterMap (function, parameter)) ∧
    queuesOf parameterPath id r.list =
      (queuesOf parameterPath id s.globalFunctionParameterMap).take (function, parameter) := by
  rcases queuesOf_get id (by decide) parameterPath_injective (function, parameter) hs with
    ⟨-, printed, hg'⟩ | ⟨check', c, q, list', hg', hs', hq, ht⟩
  · cases hg.symm.trans hg'
    cases hv
  · cases hg.symm.trans hg'
    cases hv
    exact ⟨hs', ⟨c, by rw [hq]; exact List.mem_cons_self⟩, ht⟩

/-- Charging a call leaves no entry that was not there. -/
theorem mem_chargeCall {before after : List (FuncOrderingValue × Int)}
    {expected expected' : FuncOrderingValue} {refcount c : Int}
    (h : (expected', c) ∈ chargeCall before expected refcount after) :
    ∃ c', (expected', c') ∈ before ++ (expected, refcount) :: after := by
  simp only [chargeCall, List.mem_append, Option.mem_toList, Option.map_eq_some_iff] at h
  rcases h with (h | ⟨c', -, he⟩) | h
  · exact ⟨c, by simp [h]⟩
  · cases he
    exact ⟨refcount, by simp⟩
  · exact ⟨c, by simp [h]⟩

/-- A run of calls that all return is two runs, one after the other. -/
theorem execOps_append {ops ops' : List Op} {s s' : Globals} :
    execOps (ops ++ ops') s = .ok () s' ↔
      ∃ s₁, execOps ops s = .ok () s₁ ∧ execOps ops' s₁ = .ok () s' := by
  induction ops generalizing s with
  | nil =>
      constructor
      · exact fun h => ⟨s, rfl, h⟩
      · rintro ⟨s₁, h, h'⟩
        cases h
        exact h'
  | cons op ops ih =>
      rw [List.cons_append, execOps, execOps, bind_eq_ok]
      constructor
      · rintro ⟨u, s₁, ho, h⟩
        obtain ⟨s₂, h₁, h₂⟩ := ih.mp h
        exact ⟨s₂, (bind_of_ok ho _).trans h₁, h₂⟩
      · rintro ⟨s₂, h, h₂⟩
        obtain ⟨u, s₁, ho, h₁⟩ := bind_eq_ok.mp h
        exact ⟨u, s₁, ho, ih.mpr ⟨s₂, h₁, h₂⟩⟩

/-- **A call that returns** leaves only what was declared. -/
theorem Sourced.step (h : Sourced done start s) (ho : op.exec s = .ok () s') :
    Sourced (done ++ [op]) start s' := by
  have hlast : Cmocka.execOps [op] s = .ok () s' := bind_of_ok ho _
  have hrun := execOps_append.mpr ⟨s, h.run, hlast⟩
  obtain ⟨hd, hr, hp, hvalues, hchecks, hcalls, hunused⟩ := h
  cases Op.exec_ok ho with
  | @willReturn _ f file line name value count hc =>
      refine ⟨hrun, shape_add le_rfl (functionPath f) _ _ hr, hp, ?_, hchecks.idle _ rfl,
        hcalls.idle _ fun _ c hm => ⟨c, hm⟩, hunused.declare hd rfl⟩
      intro function v c hmem
      change (v, c) ∈ queuesOf functionPath id (addSymbolValue (functionPath f).1 _ _ _) _ at hmem
      rw [queuesOf_add id le_rfl functionPath_injective] at hmem
      rcases Table.mem_push hmem with hmem | ⟨rfl, rfl⟩
      · obtain ⟨file', line', n, hmade⟩ := hvalues function v c hmem
        exact ⟨file', line', n, hmade.concat _⟩
      · exact ⟨file, line, count, madeAt_last hd rfl⟩
  | @mock _ _ f file line name r v hg hv hz hi =>
      obtain ⟨_, _, _, _, rfl⟩ := hi
      obtain ⟨hs, -, ht⟩ := found_value hr hg hv
      refine ⟨hrun, hs, hp, ?_, hchecks.idle _ rfl, hcalls.idle _ fun _ c hm => ⟨c, hm⟩,
        hunused.idle hd rfl rfl⟩
      intro function v' c hmem
      change (v', c) ∈ queuesOf functionPath id r.list function at hmem
      rw [ht] at hmem
      obtain ⟨c', hmem⟩ := Table.exists_mem_of_mem_take hmem
      obtain ⟨file', line', n, hmade⟩ := hvalues function v' c' hmem
      exact ⟨file', line', n, hmade.concat _⟩
  | @expectCheck _ f p file line check data count =>
      refine ⟨hrun, hr, shape_add (by decide) (parameterPath (f, p)) _ _ hp, hvalues.idle _ rfl, ?_,
        hcalls.idle _ fun _ c hm => ⟨c, hm⟩, hunused.declare hd rfl⟩
      intro parameter check' c hmem
      change (check', c) ∈ queuesOf parameterPath id
        (addSymbolValue (parameterPath (f, p)).1 _ _ _) _ at hmem
      rw [queuesOf_add id (by decide) parameterPath_injective] at hmem
      rcases Table.mem_push hmem with hmem | ⟨rfl, rfl⟩
      · obtain ⟨file', line', n, hmade⟩ := hchecks parameter check' c hmem
        exact ⟨file', line', n, hmade.concat _⟩
      · exact ⟨file, line, count, madeAt_last hd rfl⟩
  | @checkExpected _ _ f p file line value r check hg hv hz hi =>
      obtain ⟨_, _, _, _, rfl⟩ := hi
      obtain ⟨hs, -, ht⟩ := found_check hp hg hv
      refine ⟨hrun, hr, hs, hvalues.idle _ rfl, ?_, hcalls.idle _ fun _ c hm => ⟨c, hm⟩,
        hunused.idle hd rfl rfl⟩
      intro parameter check' c hmem
      change (check', c) ∈ queuesOf parameterPath id r.list parameter at hmem
      rw [ht] at hmem
      obtain ⟨c', hmem⟩ := Table.exists_mem_of_mem_take hmem
      obtain ⟨file', line', n, hmade⟩ := hchecks parameter check' c' hmem
      exact ⟨file', line', n, hmade.concat _⟩
  | @expectFunctionCall _ f file line count hc =>
      refine ⟨hrun, hr, hp, hvalues.idle _ rfl, hchecks.idle _ rfl, ?_, hunused.declare hd rfl⟩
      intro expected c hmem
      rcases List.mem_append.mp hmem with hmem | hmem
      · obtain ⟨file', line', n, hmade⟩ := hcalls expected c hmem
        exact ⟨file', line', n, hmade.concat _⟩
      · cases List.mem_singleton.mp hmem
        exact ⟨file, line, count, madeAt_last hd rfl⟩
  | functionCalled hl hf =>
      exact ⟨hrun, hr, hp, hvalues.idle _ rfl, hchecks.idle _ rfl,
        hcalls.idle _ fun _ _ hm => hl ▸ mem_chargeCall hm, hunused.idle hd rfl rfl⟩
  | other cell hop hi =>
      obtain ⟨_, _, _, _, rfl⟩ := hi
      have hno : op.declares = false := by
        cases op <;> first | rfl | cases hop
      exact ⟨hrun, hr, hp, hvalues.idle _ rfl, hchecks.idle _ rfl,
        hcalls.idle _ fun _ c hm => ⟨c, hm⟩, hunused.idle hd hno rfl⟩

end Steps

/-- Before the first call nothing waits. -/
theorem sourced_start {start : Globals} (hr : start.globalFunctionResultMap = [])
    (hp : start.globalFunctionParameterMap = []) (hc : start.globalCallOrdering = []) :
    Sourced [] start start where
  run := rfl
  results := hr ▸ shape_nil 1
  parameters := hp ▸ shape_nil 2
  values := by
    intro function v c hmem
    rw [hr, queuesOf_nil] at hmem
    cases hmem
  checks := by
    intro parameter check c hmem
    rw [hp, queuesOf_nil] at hmem
    cases hmem
  calls := by
    intro expected c hmem
    rw [hc] at hmem
    cases hmem
  unused := by
    rintro op p ⟨-, s, ⟨before, after, he, -⟩, -⟩
    simp at he

/-- **A run of calls** leaves only what was declared. -/
theorem Sourced.execOps {done ops : List Op} {start s s' : Globals} (h : Sourced done start s)
    (he : execOps ops s = .ok () s') : Sourced (done ++ ops) start s' := by
  induction ops generalizing done s with
  | nil =>
      cases he
      simpa using h
  | cons op ops ih =>
      obtain ⟨_, s₁, h₁, h₂⟩ := bind_eq_ok.mp he
      simpa using ih (h.step h₁) h₂

end Cmocka
