import Cmocka.Expectations.Streams

/-!
# Expectations — declaring expectations earlier

A registration appends to one queue or to the call-ordering list, and a retrieval that succeeds uses
the front of a queue or the first entry of the list its search stops at.  What is appended later is
behind that, so a registration may be made before the retrieval without changing it
(`Retrieves.register`).  Hence all registrations of a script may be moved to its front: every
retrieval returns the same value, uses the same entry, and the structures end with the same
contents (`registrations_first`).
-/

namespace Cmocka

open Runs SymbolMap CountedQueue

/-! ### Scripts -/

/-- A registration, with a count that is not zero. -/
def Op.isRegistration : Op → Bool
  | .willReturn _ _ _ _ _ count => count != 0
  | .expectCheck _ _ _ _ _ _ count => count != 0
  | .expectFunctionCall _ _ _ count => count != 0
  | _ => false

def Op.isRetrieval : Op → Bool
  | .mock .. | .checkExpected .. | .functionCalled .. => true
  | _ => false

theorem not_both {op : Op} (hg : op.isRegistration = true) (hr : op.isRetrieval = true) : False := by
  cases op with
  | mock => cases hg
  | checkExpected => cases hg
  | functionCalled => cases hg
  | _ => cases hr

/-- The entry of the structures a retrieval used. -/
def Event.isUse : Event → Bool
  | .mocked _ | .checked _ | .called _ => true
  | _ => false

/-- A call, and the values it returned. -/
def Op.values : Op → CM (List CMockaValueData)
  | .mock function file line name => do
      let value ← Cmocka.mock function file line name
      return [value]
  | op => do
      op.exec
      return []

/-- The calls in order, and the values the mocks returned. -/
def execValues : List Op → CM (List CMockaValueData)
  | [] => return []
  | op :: ops => do
      let values ← op.values
      let rest ← execValues ops
      return values ++ rest

/-! ### The contents of the structures -/

/-- What is queued for every function and every parameter, the call-ordering list, and the address
of the next entry. -/
structure Expected where
  results : Table CString SymbolValue
  parameters : Table (CString × CString) CheckParameterEvent
  calls : List (FuncOrderingValue × Int)
  nextPtr : Addr

/-- The contents, whatever the order of the symbols in the maps. -/
def Globals.expected (s : Globals) : Expected where
  results := queuesOf functionPath id s.globalFunctionResultMap
  parameters := queuesOf parameterPath id s.globalFunctionParameterMap
  calls := s.globalCallOrdering
  nextPtr := s.nextPtr

/-- What a registration adds. -/
def Expected.register (a : Expected) : Op → Expected
  | .willReturn functionName file line name value count =>
      { a with
        results := a.results.push functionName
          ⟨a.nextPtr, name, setSourceLocation file line, value⟩ count
        nextPtr := a.nextPtr + 1 }
  | .expectCheck function parameter file line checkFunction checkData count =>
      { a with
        parameters := a.parameters.push (function, parameter)
          ⟨a.nextPtr, setSourceLocation file line, parameter, checkFunction, checkData⟩ count
        nextPtr := a.nextPtr + 1 }
  | .expectFunctionCall functionName file line count =>
      { a with
        calls := a.calls ++ [(⟨a.nextPtr, setSourceLocation file line, functionName⟩, count)]
        nextPtr := a.nextPtr + 1 }
  | _ => a

/-- A retrieval that succeeds: the values returned, the entry used, and the contents after it. -/
inductive Retrieves : Op → Expected → List CMockaValueData → Event → Expected → Prop where
  | mock {a : Expected} {function file : CString} {line : Int} {name : Option CString}
      {v : SymbolValue} {c : Int} {q : List (SymbolValue × Int)}
      (hq : a.results function = (v, c) :: q) (hc : c ≠ 0) (hname : typeMatches name v = true) :
      Retrieves (.mock function file line name) a [v.value] (.mocked v.ptr)
        { a with results := a.results.take function }
  | checkExpected {a : Expected} {functionName parameterName file : CString} {line : Int}
      {value : CMockaValueData} {check : CheckParameterEvent} {c : Int}
      {q : List (CheckParameterEvent × Int)}
      (hq : a.parameters (functionName, parameterName) = (check, c) :: q) (hc : c ≠ 0)
      (hcheck : check.outcome value = .returned true) :
      Retrieves (.checkExpected functionName parameterName file line value) a [] (.checked check.ptr)
        { a with parameters := a.parameters.take (functionName, parameterName) }
  | functionCalled {a : Expected} {function file : CString} {line : Int}
      {before after : List (FuncOrderingValue × Int)} {expected : FuncOrderingValue} {c : Int}
      (hscan : scanCalls function a.calls = some (before, (expected, c), after))
      (hf : expected.function = function) :
      Retrieves (.functionCalled function file line) a [] (.called expected.ptr)
        { a with calls := chargeCall before expected c after }

/-! ### A registration before a retrieval -/

theorem scanCalls_append {function : CString} {list before after : List (FuncOrderingValue × Int)}
    {e : FuncOrderingValue × Int} (h : scanCalls function list = some (before, e, after))
    (more : List (FuncOrderingValue × Int)) :
    scanCalls function (list ++ more) = some (before, e, after ++ more) := by
  induction list generalizing before with
  | nil => cases h
  | cons first rest ih =>
      obtain ⟨expected, refcount⟩ := first
      by_cases hc : expected.function = function ∨ refcount > -2
      · rw [scanCalls, if_pos hc] at h
        cases h
        rw [List.cons_append, scanCalls, if_pos hc]
      · rw [scanCalls, if_neg hc] at h
        obtain ⟨⟨before', e', after'⟩, hr, he⟩ := Option.map_eq_some_iff.mp h
        cases he
        rw [List.cons_append, scanCalls, if_neg hc, ih hr]
        rfl

theorem chargeCall_append (before : List (FuncOrderingValue × Int)) (expected : FuncOrderingValue)
    (c : Int) (after more : List (FuncOrderingValue × Int)) :
    chargeCall before expected c (after ++ more) = chargeCall before expected c after ++ more := by
  simp [chargeCall]

/-- **A registration made earlier changes nothing** for a retrieval that succeeds without it. -/
theorem Retrieves.register {op : Op} {a a' : Expected} {values : List CMockaValueData} {used : Event}
    (h : Retrieves op a values used a') (g : Op) :
    Retrieves op (a.register g) values used (a'.register g) := by
  cases h with
  | mock hq hc hname =>
      cases g with
      | willReturn functionName file line name value count =>
          obtain ⟨q', hq'⟩ := Table.push_cons hq functionName
            ⟨a.nextPtr, name, setSourceLocation file line, value⟩ count
          unfold Expected.register
          dsimp only
          rw [← Table.take_push (by rw [hq]; simp)]
          exact .mock hq' hc hname
      | _ => exact .mock hq hc hname
  | checkExpected hq hc hcheck =>
      cases g with
      | expectCheck function parameter file line checkFunction checkData count =>
          obtain ⟨q', hq'⟩ := Table.push_cons hq (function, parameter)
            ⟨a.nextPtr, setSourceLocation file line, parameter, checkFunction, checkData⟩ count
          unfold Expected.register
          dsimp only
          rw [← Table.take_push (by rw [hq]; simp)]
          exact .checkExpected hq' hc hcheck
      | _ => exact .checkExpected hq hc hcheck
  | functionCalled hscan hf =>
      cases g with
      | expectFunctionCall functionName file line count =>
          unfold Expected.register
          dsimp only
          rw [← chargeCall_append]
          exact .functionCalled (scanCalls_append hscan _) hf
      | _ => exact .functionCalled hscan hf

/-- Several registrations made earlier. -/
theorem Retrieves.registerAll {op : Op} {a a' : Expected} {values : List CMockaValueData}
    {used : Event} (h : Retrieves op a values used a') (gs : List Op) :
    Retrieves op (gs.foldl Expected.register a) values used (gs.foldl Expected.register a') := by
  induction gs generalizing a a' with
  | nil => exact h
  | cons g gs ih => exact ih (h.register g)

/-! ### The calls on the contents -/

/-- The maps have the shape the calls keep. -/
structure MapsShaped (s : Globals) : Prop where
  results : Shape 1 s.globalFunctionResultMap
  parameters : Shape 2 s.globalFunctionParameterMap

/-- A registration returns, adds its entry and uses none. -/
theorem values_register {g : Op} (hg : g.isRegistration = true) {s : Globals} (hs : MapsShaped s) :
    ∃ s', g.values s = .ok [] s' ∧ MapsShaped s' ∧ s'.expected = s.expected.register g ∧
      s'.trace.filter Event.isUse = s.trace.filter Event.isUse := by
  cases g with
  | willReturn functionName file line name value count =>
      rcases willReturn_cases functionName file line name value count s with ⟨hc, h⟩ | ⟨hc, -⟩
      · refine ⟨_, bind_of_ok h _, ⟨shape_add le_rfl (functionPath functionName) _ _ hs.results,
          hs.parameters⟩, ?_, by simp [Event.isUse]⟩
        simp only [Globals.expected, Expected.register, Expected.mk.injEq, and_true]
        exact queuesOf_add id le_rfl functionPath_injective functionName _ _ _
      · subst hc
        cases hg
  | expectCheck function parameter file line checkFunction checkData count =>
      refine ⟨_, bind_of_ok (expectCheck_apply function parameter file line checkFunction checkData
        count s) _, ⟨hs.results,
          shape_add (by decide) (parameterPath (function, parameter)) _ _ hs.parameters⟩, ?_,
          by simp [Event.isUse]⟩
      simp only [Globals.expected, Expected.register, Expected.mk.injEq, and_true, true_and]
      exact queuesOf_add id (by decide) parameterPath_injective (function, parameter) _ _ _
  | expectFunctionCall functionName file line count =>
      rcases expectFunctionCall_cases functionName file line count s with ⟨hc, h⟩ | ⟨hc, -⟩
      · exact ⟨_, bind_of_ok h _, ⟨hs.results, hs.parameters⟩, rfl, by simp [Event.isUse]⟩
      · subst hc
        cases hg
  | _ => cases hg

/-- The trace of a retrieval. -/
theorem filter_isUse_append (trace released : List Event)
    (hreleased : ∀ e ∈ released, e.isUse = false)
    {used : Event} (h : used.isUse = true) :
    (trace ++ (released ++ [used])).filter Event.isUse = trace.filter Event.isUse ++ [used] := by
  have hnone : released.filter Event.isUse = [] :=
    List.filter_eq_nil_iff.mpr fun e he => by rw [hreleased e he]; decide
  rw [List.filter_append, List.filter_append, hnone, List.nil_append, List.filter_cons_of_pos h]
  rfl

/-- A retrieval of `op` in `s` does what the contents say, or neither returns nor is possible. -/
def Settled (op : Op) (s : Globals) : Prop :=
  (∃ values used s', op.values s = .ok values s' ∧ MapsShaped s' ∧
    Retrieves op s.expected values used s'.expected ∧
    s'.trace.filter Event.isUse = s.trace.filter Event.isUse ++ [used]) ∨
  ((∀ values s', op.values s ≠ .ok values s') ∧
    ∀ values used a, ¬Retrieves op s.expected values used a)

theorem mock_settled (function file : CString) (line : Int) (name : Option CString) {s : Globals}
    (hs : MapsShaped s) : Settled (.mock function file line name) s := by
  have hfails (hf : ∀ value s', mock function file line name s ≠ .ok value s') (values : List _)
      (s' : Globals) : (Op.mock function file line name).values s ≠ .ok values s' := by
    intro h
    obtain ⟨value, s₁, h₁, -⟩ := bind_eq_ok.mp h
    exact hf value s₁ h₁
  have hcases := mock_cases function file line name s
  rcases queuesOf_get id le_rfl functionPath_injective function hs.results with
    ⟨hq, printed, hg⟩ | ⟨v, c, q, list', hg, hs', hq, ht⟩
  · change getSymbolValue [function] _ = _ at hg
    -- nothing queued for the function
    refine .inr ⟨hfails ?_, ?_⟩
    · rcases hcases with ⟨-, hf⟩ | ⟨r, hr, ⟨-, hf⟩ | ⟨v, hv, -⟩⟩
      · exact hf.not_ok
      · exact hf.not_ok
      · cases hg.symm.trans hr
        cases hv
    · rintro values used a h
      cases h with
      | mock hq' => cases hq.symm.trans hq'
  · change getSymbolValue [function] _ = _ at hg
    rw [id_eq] at hq
    rcases hcases with ⟨hn, -⟩ | ⟨r, hr, ⟨hr', hf⟩ | ⟨v', hv', hc, hm⟩⟩
    · cases hg.symm.trans hn
    · cases hg.symm.trans hr
      have hc : c = 0 := by simpa using hr'
      -- a count of `0` reads as no value
      refine .inr ⟨hfails hf.not_ok, ?_⟩
      rintro values used a h
      cases h with
      | mock hq' hc' =>
          cases hq.symm.trans hq'
          exact hc' hc
    · cases hg.symm.trans hr
      cases hv'
      rcases hm with ⟨hm, s', he, m, e, o, b, rfl⟩ | ⟨hm, hf⟩
      · refine .inl ⟨[v.value], .mocked v.ptr, _, bind_of_ok he _, ⟨hs', hs.parameters⟩, ?_, ?_⟩
        · simp only [Globals.expected, ht]
          exact .mock hq hc hm
        · refine filter_isUse_append _ _ ?_ rfl
          intro e he
          split at he
          · cases List.mem_singleton.mp he
            rfl
          · cases he
      · refine .inr ⟨hfails hf.not_ok, ?_⟩
        rintro values used a h
        cases h with
        | mock hq' hc' hm' =>
            cases hq.symm.trans hq'
            rw [hm] at hm'
            cases hm'

theorem checkExpected_settled (functionName parameterName file : CString) (line : Int)
    (value : CMockaValueData) {s : Globals} (hs : MapsShaped s) :
    Settled (.checkExpected functionName parameterName file line value) s := by
  have hfails (hf : ∀ u s', checkExpected functionName parameterName file line value s ≠ .ok u s')
      (values : List _) (s' : Globals) :
      (Op.checkExpected functionName parameterName file line value).values s ≠ .ok values s' := by
    intro h
    obtain ⟨u, s₁, h₁, -⟩ := bind_eq_ok.mp h
    exact hf u s₁ h₁
  have hcases := checkExpected_cases functionName parameterName file line value s
  rcases queuesOf_get id (by decide) parameterPath_injective (functionName, parameterName)
    hs.parameters with ⟨hq, printed, hg⟩ | ⟨check, c, q, list', hg, hs', hq, ht⟩
  · change getSymbolValue [functionName, parameterName] _ = _ at hg
    refine .inr ⟨hfails ?_, ?_⟩
    · rcases hcases with ⟨-, hf⟩ | ⟨r, hr, ⟨-, hf⟩ | ⟨v, hv, -⟩⟩
      · exact hf.not_ok
      · exact hf.not_ok
      · cases hg.symm.trans hr
        cases hv
    · rintro values used a h
      cases h with
      | checkExpected hq' => cases hq.symm.trans hq'
  · change getSymbolValue [functionName, parameterName] _ = _ at hg
    rw [id_eq] at hq
    rcases hcases with ⟨hn, -⟩ | ⟨r, hr, ⟨hr', hf⟩ | ⟨check', hv', hc, hm⟩⟩
    · cases hg.symm.trans hn
    · cases hg.symm.trans hr
      have hc : c = 0 := by simpa using hr'
      refine .inr ⟨hfails hf.not_ok, ?_⟩
      rintro values used a h
      cases h with
      | checkExpected hq' hc' =>
          cases hq.symm.trans hq'
          exact hc' hc
    · cases hg.symm.trans hr
      cases hv'
      rcases hm with ⟨hm, s', he, m, e, o, b, rfl⟩ | ⟨hm, hf⟩
      · refine .inl ⟨[], .checked check.ptr, _, bind_of_ok he _, ⟨hs.results, hs'⟩, ?_, ?_⟩
        · simp only [Globals.expected, ht]
          exact .checkExpected hq hc hm
        · refine filter_isUse_append _ _ ?_ rfl
          intro e he
          rcases List.mem_cons.mp he with rfl | he
          · rfl
          · split at he
            · cases List.mem_singleton.mp he
              rfl
            · cases he
      · refine .inr ⟨hfails hf.not_ok, ?_⟩
        rintro values used a h
        cases h with
        | checkExpected hq' hc' hm' =>
            cases hq.symm.trans hq'
            exact hm hm'

theorem functionCalled_settled (function file : CString) (line : Int) {s : Globals}
    (hs : MapsShaped s) : Settled (.functionCalled function file line) s := by
  have hfails (hf : FailsFrom (functionCalled function file line s) s) (values : List _)
      (s' : Globals) : (Op.functionCalled function file line).values s ≠ .ok values s' := by
    intro h
    obtain ⟨u, s₁, h₁, -⟩ := bind_eq_ok.mp h
    exact hf.not_ok u s₁ h₁
  rcases functionCalled_cases function file line s with
    ⟨hscan, hf⟩ | ⟨before, expected, c, after, hscan, ⟨hf, released, he⟩ | ⟨hne, hf⟩⟩
  · refine .inr ⟨hfails hf, ?_⟩
    rintro values used a h
    cases h with
    | functionCalled hscan' => cases hscan.symm.trans hscan'
  · refine .inl ⟨[], .called expected.ptr, _, bind_of_ok he _, ⟨hs.results, hs.parameters⟩,
      .functionCalled hscan hf, filter_isUse_append _ _ ?_ rfl⟩
    intro e he
    obtain ⟨ptr, -, rfl⟩ := List.mem_map.mp he
    rfl
  · refine .inr ⟨hfails hf, ?_⟩
    rintro values used a h
    cases h with
    | functionCalled hscan' hf' =>
        cases hscan.symm.trans hscan'
        exact hne hf'

theorem settled {op : Op} (hop : op.isRetrieval = true) {s : Globals} (hs : MapsShaped s) :
    Settled op s := by
  cases op with
  | mock function file line name => exact mock_settled function file line name hs
  | checkExpected functionName parameterName file line value =>
      exact checkExpected_settled functionName parameterName file line value hs
  | functionCalled function file line => exact functionCalled_settled function file line hs
  | _ => cases hop

/-- A retrieval has one outcome. -/
theorem Retrieves.unique {op : Op} {a a₁ a₂ : Expected} {values₁ values₂ : List CMockaValueData}
    {used₁ used₂ : Event} (h₁ : Retrieves op a values₁ used₁ a₁)
    (h₂ : Retrieves op a values₂ used₂ a₂) : values₁ = values₂ ∧ used₁ = used₂ ∧ a₁ = a₂ := by
  cases h₁ with
  | mock hq =>
      cases h₂ with
      | mock hq' =>
          cases hq.symm.trans hq'
          exact ⟨rfl, rfl, rfl⟩
  | checkExpected hq =>
      cases h₂ with
      | checkExpected hq' =>
          cases hq.symm.trans hq'
          exact ⟨rfl, rfl, rfl⟩
  | functionCalled hscan =>
      cases h₂ with
      | functionCalled hscan' =>
          cases hscan.symm.trans hscan'
          exact ⟨rfl, rfl, rfl⟩

/-- A retrieval the contents allow returns. -/
theorem values_of_retrieves {op : Op} (hop : op.isRetrieval = true) {s : Globals}
    (hs : MapsShaped s) {values : List CMockaValueData} {used : Event} {a : Expected}
    (h : Retrieves op s.expected values used a) :
    ∃ s', op.values s = .ok values s' ∧ MapsShaped s' ∧ s'.expected = a ∧
      s'.trace.filter Event.isUse = s.trace.filter Event.isUse ++ [used] := by
  rcases settled hop hs with ⟨values', used', s', hrun, hs', h', htrace⟩ | ⟨-, hno⟩
  · obtain ⟨rfl, rfl, rfl⟩ := h.unique h'
    exact ⟨s', hrun, hs', rfl, htrace⟩
  · exact absurd h (hno values used a)

/-- A retrieval that returns is one the contents allow. -/
theorem retrieves_of_values {op : Op} (hop : op.isRetrieval = true) {s s' : Globals}
    (hs : MapsShaped s) {values : List CMockaValueData} (h : op.values s = .ok values s') :
    MapsShaped s' ∧ ∃ used, Retrieves op s.expected values used s'.expected ∧
      s'.trace.filter Event.isUse = s.trace.filter Event.isUse ++ [used] := by
  rcases settled hop hs with ⟨values', used, s₁, hrun, hs', h', htrace⟩ | ⟨hno, -⟩
  · cases h.symm.trans hrun
    exact ⟨hs', used, h', htrace⟩
  · exact absurd h (hno values s')

/-! ### Scripts with the registrations first -/

/-- The registrations at the front. -/
theorem execValues_registrations {gs : List Op} (hgs : ∀ g ∈ gs, g.isRegistration = true)
    (ops : List Op) {s : Globals} (hs : MapsShaped s) :
    ∃ s', execValues (gs ++ ops) s = execValues ops s' ∧ MapsShaped s' ∧
      s'.expected = gs.foldl Expected.register s.expected ∧
      s'.trace.filter Event.isUse = s.trace.filter Event.isUse := by
  induction gs generalizing s with
  | nil => exact ⟨s, rfl, hs, rfl, rfl⟩
  | cons g gs ih =>
      obtain ⟨hg, hgs⟩ := List.forall_mem_cons.mp hgs
      obtain ⟨s₁, hrun, hs₁, hexp, htrace⟩ := values_register hg hs
      obtain ⟨s', hrun', hs', hexp', htrace'⟩ := ih hgs hs₁
      refine ⟨s', ?_, hs', by rw [hexp', hexp]; rfl, htrace'.trans htrace⟩
      rw [List.cons_append, execValues, bind_of_ok hrun, ← hrun']
      simp only [List.nil_append, bind_pure]

/-- The retrievals of a script in `s₀`, which has the registrations of the script already, do what
they do in the script from `s`. -/
theorem execValues_retrievals {ops : List Op}
    (hops : ∀ op ∈ ops, op.isRegistration = true ∨ op.isRetrieval = true) {s s₀ s₁ : Globals}
    (hs : MapsShaped s) (hs₀ : MapsShaped s₀)
    (hexp : s₀.expected = (ops.filter Op.isRegistration).foldl Expected.register s.expected)
    (htrace : s₀.trace.filter Event.isUse = s.trace.filter Event.isUse)
    {values : List CMockaValueData} (h : execValues ops s = .ok values s₁) :
    ∃ s₂, execValues (ops.filter Op.isRetrieval) s₀ = .ok values s₂ ∧
      s₂.expected = s₁.expected ∧
      s₂.trace.filter Event.isUse = s₁.trace.filter Event.isUse := by
  induction ops generalizing s s₀ values with
  | nil =>
      cases h
      exact ⟨s₀, rfl, hexp, htrace⟩
  | cons op ops ih =>
      obtain ⟨hop, hops⟩ := List.forall_mem_cons.mp hops
      obtain ⟨first, s', h₁, h⟩ := bind_eq_ok.mp h
      obtain ⟨rest, s'', h₂, h⟩ := bind_eq_ok.mp h
      cases h
      rcases hop with hop | hop
      · -- a registration only moves to the front, and is counted in `hexp`
        have hnot : ¬op.isRetrieval = true := fun hr => not_both hop hr
        obtain ⟨s₂, hrun, hs', hexp', htrace'⟩ := values_register hop hs
        cases h₁.symm.trans hrun
        rw [List.filter_cons_of_pos hop, List.foldl_cons, ← hexp'] at hexp
        rw [List.filter_cons_of_neg hnot, List.nil_append]
        exact ih hops hs' hs₀ hexp (htrace.trans htrace'.symm) h₂
      · -- a retrieval does the same with the later registrations already there
        have hnot : ¬op.isRegistration = true := fun hg => not_both hg hop
        obtain ⟨hs', used, hretrieves, htrace'⟩ := retrieves_of_values hop hs h₁
        rw [List.filter_cons_of_neg hnot] at hexp
        have hlater := hretrieves.registerAll (ops.filter Op.isRegistration)
        rw [← hexp] at hlater
        obtain ⟨s₀', hrun, hs₀', hexp', htrace₀⟩ := values_of_retrieves hop hs₀ hlater
        obtain ⟨s₂, hrest, hsame, huses⟩ :=
          ih hops hs' hs₀' hexp' (by rw [htrace₀, htrace, htrace']) h₂
        refine ⟨s₂, ?_, hsame, huses⟩
        rw [List.filter_cons_of_pos hop, execValues, bind_of_ok hrun, bind_of_ok hrest]
        rfl

/-- **Declaring expectations earlier.**  In a script of registrations and retrievals that all
succeed, the registrations may all be made first: the retrievals succeed, return the same values and
use the same entries, and every queue and the call-ordering list end the same. -/
theorem registrations_first (ops : List Op)
    (hops : ∀ op ∈ ops, op.isRegistration = true ∨ op.isRetrieval = true) (s s₁ : Globals)
    (hresults : Shape 1 s.globalFunctionResultMap) (hparameters : Shape 2 s.globalFunctionParameterMap)
    (values : List CMockaValueData) (h : execValues ops s = .ok values s₁) :
    ∃ s₂, execValues (ops.filter Op.isRegistration ++ ops.filter Op.isRetrieval) s = .ok values s₂ ∧
      s₂.trace.filter Event.isUse = s₁.trace.filter Event.isUse ∧
      (∀ function, table 1 s₂.globalFunctionResultMap (functionPath function) =
        table 1 s₁.globalFunctionResultMap (functionPath function)) ∧
      (∀ parameter, table 2 s₂.globalFunctionParameterMap (parameterPath parameter) =
        table 2 s₁.globalFunctionParameterMap (parameterPath parameter)) ∧
      s₂.globalCallOrdering = s₁.globalCallOrdering := by
  have hs : MapsShaped s := ⟨hresults, hparameters⟩
  have hgs : ∀ g ∈ ops.filter Op.isRegistration, g.isRegistration = true :=
    fun g hg => (List.mem_filter.mp hg).2
  obtain ⟨s₀, hrun₀, hs₀, hexp, htrace⟩ :=
    execValues_registrations hgs (ops.filter Op.isRetrieval) hs
  obtain ⟨s₂, hrun, hsame, huses⟩ := execValues_retrievals hops hs hs₀ hexp htrace h
  refine ⟨s₂, hrun₀.trans hrun, huses, fun function => ?_, fun parameter => ?_,
    congrArg Expected.calls hsame⟩
  · have hq := congrFun (congrArg Expected.results hsame) function
    simpa [Globals.expected, queuesOf] using hq
  · have hq := congrFun (congrArg Expected.parameters hsame) parameter
    simpa [Globals.expected, queuesOf] using hq

/-- A value returned before the next one is declared. -/
def lateDeclaration : List Op :=
  [.willReturn "f".toList "t.c".toList 1 none 7 1, .mock "f".toList "t.c".toList 2 none,
   .willReturn "f".toList "t.c".toList 3 none 8 1, .mock "f".toList "t.c".toList 4 none]

/-- Both may be declared first. -/
theorem lateDeclaration_first :
    ∃ s₁ s₂, execValues lateDeclaration (Globals.initial .lp64) = .ok [7, 8] s₁ ∧
      execValues (lateDeclaration.filter Op.isRegistration ++ lateDeclaration.filter Op.isRetrieval)
        (Globals.initial .lp64) = .ok [7, 8] s₂ ∧
      s₂.trace.filter Event.isUse = s₁.trace.filter Event.isUse := by
  have h : execValues lateDeclaration (Globals.initial .lp64) =
      .ok [7, 8] (final (execValues lateDeclaration (Globals.initial .lp64))) :=
    eq_ok_of_value (by decide +kernel)
  obtain ⟨s₂, hrun, huses, -⟩ := registrations_first lateDeclaration (by decide +kernel) _ _
    (shape_nil 1) (shape_nil 2) [7, 8] h
  exact ⟨_, s₂, h, hrun, huses⟩

end Cmocka
