import Cmocka.Expectations.Calls

/-!
# Expectations — mocks read the declared values in order

A test declares values for a function with `_will_return` and its mock takes them with `_mock`;
checks of a parameter are declared with `_expect_check` and used by `_check_expected`.  Whatever
other calls come in between, the `k`-th `_mock` of a function sees the `k`-th element of the stream
its declarations spell out, and likewise for the checks of a parameter.
-/

namespace Cmocka

open Runs SymbolMap CountedQueue

/-! ### The two maps as tables -/

/-- What a call does to the values queued for the functions: the type name and the value. -/
def Op.onResults : Op → Act CString (Option CString × CMockaValueData)
  | .willReturn functionName _ _ name value count => .push functionName (name, value) count
  | .mock function _ _ _ => .take function
  | _ => .idle

/-- What a call does to the checks queued for the parameters. -/
def Op.onParameters : Op → Act (CString × CString) (CheckParameterValue × CMockaValueData)
  | .expectCheck function parameter _ _ checkFunction checkData count =>
      .push (function, parameter) (checkFunction, checkData) count
  | .checkExpected functionName parameterName _ _ _ => .take (functionName, parameterName)
  | _ => .idle

/-- The path of a function in the result map. -/
def functionPath (function : CString) : Path 1 := ⟨[function], rfl⟩

/-- The path of a parameter in the parameter map. -/
def parameterPath (parameter : CString × CString) : Path 2 := ⟨[parameter.1, parameter.2], rfl⟩

/-- Each function has a path of its own. -/
theorem functionPath_injective : Function.Injective functionPath := by
  intro f g h
  simpa [functionPath] using h

theorem parameterPath_injective : Function.Injective parameterPath := by
  rintro ⟨f, p⟩ ⟨g, q⟩ h
  simpa [parameterPath] using h

/-- The queues of a map along an indexing of its paths, seen through `view`. -/
def queuesOf {V K α : Type} {d : Nat} (path : K → Path d) (view : V → α)
    (list : List (MapNode V)) : Table K α :=
  fun k => (table d list (path k)).map (Prod.map view id)

section Queues

variable {V K α : Type} {d : Nat} {path : K → Path d} (view : V → α)

theorem queuesOf_nil : queuesOf path view [] = fun _ => [] := by
  funext k
  simp [queuesOf, table_nil]

variable [DecidableEq K]

/-- `add_symbol_value` is a push on the queue of its key. -/
theorem queuesOf_add (hd : 1 ≤ d) (hp : Function.Injective path) (k : K) (v : V) (c : Int)
    (list : List (MapNode V)) :
    queuesOf path view (addSymbolValue (path k).1 v c list) =
      (queuesOf path view list).push k (view v) c := by
  funext k'
  by_cases hk : k' = k
  · subst hk
    simp [queuesOf, table_add hd]
  · simp [queuesOf, table_add hd, Table.push_of_ne _ hk, Table.push_of_ne _ (hp.ne hk)]

/-- A retrieval finds nothing in an empty queue, and takes the front entry of another. -/
theorem queuesOf_get (hd : 1 ≤ d) (hp : Function.Injective path) (k : K)
    {list : List (MapNode V)} (hs : Shape d list) :
    (queuesOf path view list k = [] ∧
      ∃ printed, getSymbolValue (path k).1 list = some ⟨0, none, list, printed⟩) ∨
    ∃ v c q list', getSymbolValue (path k).1 list = some ⟨c, some v, list', []⟩ ∧ Shape d list' ∧
      queuesOf path view list k = (view v, c) :: q ∧
      queuesOf path view list' = (queuesOf path view list).take k := by
  rcases table_get hd (path k) hs with ⟨hq, name, -, hg⟩ | ⟨v, c, q, list', hq, hg, hs', ht⟩
  · exact .inl ⟨by simp [queuesOf, hq], _, hg⟩
  · refine .inr ⟨v, c, q.map (Prod.map view id), list', hg, hs', by simp [queuesOf, hq],
      funext fun k' => ?_⟩
    by_cases hk : k' = k
    · subst hk
      simp [queuesOf, ht, pop_map]
    · simp [queuesOf, ht, Table.take_of_ne _ hk, Table.take_of_ne _ (hp.ne hk)]

end Queues

/-! ### A run of calls -/

/-- A value without its allocation and where it was declared. -/
def valueView (v : SymbolValue) : Option CString × CMockaValueData := (v.name, v.value)

/-- A check without its allocation and where it was declared. -/
def checkView (check : CheckParameterEvent) : CheckParameterValue × CMockaValueData :=
  (check.checkValue, check.checkValueData)

/-- The values queued for the functions. -/
def Globals.valueQueues (s : Globals) : Table CString (Option CString × CMockaValueData) :=
  queuesOf functionPath valueView s.globalFunctionResultMap

/-- The checks queued for the parameters. -/
def Globals.checkQueues (s : Globals) :
    Table (CString × CString) (CheckParameterValue × CMockaValueData) :=
  queuesOf parameterPath checkView s.globalFunctionParameterMap

/-- The mocks so far took the declared values in order. -/
structure ValuesServed (ops : List Op) (s : Globals) : Prop where
  shape : Shape 1 s.globalFunctionResultMap
  nonzero : NonZeroActs (ops.map Op.onResults)
  served : AllServed (ops.map Op.onResults) s.valueQueues

/-- The checks so far used the declared ones in order. -/
structure ChecksServed (ops : List Op) (s : Globals) : Prop where
  shape : Shape 2 s.globalFunctionParameterMap
  served : AllServed (ops.map Op.onParameters) s.checkQueues

/-- A call that leaves the result map alone. -/
theorem ValuesServed.idle {ops : List Op} {op : Op} {s s' : Globals} (h : ValuesServed ops s)
    (hop : op.onResults = .idle)
    (hs : s'.globalFunctionResultMap = s.globalFunctionResultMap) :
    ValuesServed (ops ++ [op]) s' where
  shape := by rw [hs]; exact h.shape
  nonzero := by simpa [hop, NonZeroActs] using h.nonzero
  served := by simpa [hop, Globals.valueQueues, hs] using h.served.idle

/-- Every call that returns keeps the results served. -/
theorem ValuesServed.step {ops : List Op} {op : Op} {s s' : Globals} (h : ValuesServed ops s)
    (hop : Returns op s s') : ValuesServed (ops ++ [op]) s' := by
  cases hop with
  | @willReturn _ f file line name value count hc =>
      refine ⟨shape_add le_rfl (functionPath f) _ _ h.shape, ?_, ?_⟩
      · intro g a hm
        rw [List.map_append, List.mem_append] at hm
        rcases hm with hm | hm
        · exact h.nonzero g a hm
        · simp only [Op.onResults, List.map_cons, List.map_nil, List.mem_singleton,
            Act.push.injEq] at hm
          exact hc hm.2.2.symm
      · rw [List.map_append, Globals.valueQueues]
        exact (queuesOf_add _ le_rfl functionPath_injective f _ _ _).symm ▸ h.served.push _ _ _
  | @mock _ _ f file line name r v hg hv hz hi =>
      obtain ⟨_, _, _, _, rfl⟩ := hi
      rcases queuesOf_get valueView le_rfl functionPath_injective f h.shape with
        ⟨-, printed, hg'⟩ | ⟨v', c, q, list', hg', hs, hq, ht⟩
      · cases hg.symm.trans hg'
        cases hv
      · cases hg.symm.trans hg'
        refine ⟨hs, ?_, ?_⟩
        · simpa [NonZeroActs, Op.onResults] using h.nonzero
        · rw [List.map_append, Globals.valueQueues, ht]
          exact h.served.take (k := f) (by rw [Globals.valueQueues, hq]; simp)
  | expectCheck => exact h.idle rfl rfl
  | checkExpected hg hv hz hi =>
      obtain ⟨_, _, _, _, rfl⟩ := hi
      exact h.idle rfl rfl
  | expectFunctionCall hc => exact h.idle rfl rfl
  | functionCalled hl => exact h.idle rfl rfl
  | other cell hop hi =>
      obtain ⟨_, _, _, _, rfl⟩ := hi
      refine h.idle ?_ rfl
      cases op <;> first | rfl | cases hop

/-- A call that does not touch the parameters. -/
theorem ChecksServed.idle {ops : List Op} {op : Op} {s s' : Globals} (h : ChecksServed ops s)
    (hop : op.onParameters = .idle)
    (hs : s'.globalFunctionParameterMap = s.globalFunctionParameterMap) :
    ChecksServed (ops ++ [op]) s' where
  shape := by rw [hs]; exact h.shape
  served := by simpa [hop, Globals.checkQueues, hs] using h.served.idle

/-- Every call that returns keeps the parameters served. -/
theorem ChecksServed.step {ops : List Op} {op : Op} {s s' : Globals} (h : ChecksServed ops s)
    (hop : Returns op s s') : ChecksServed (ops ++ [op]) s' := by
  cases hop with
  | willReturn hc => exact h.idle rfl rfl
  | mock hg hv hz hi =>
      obtain ⟨_, _, _, _, rfl⟩ := hi
      exact h.idle rfl rfl
  | @expectCheck _ f p file line check data count =>
      refine ⟨shape_add (by decide) (parameterPath (f, p)) _ _ h.shape, ?_⟩
      rw [List.map_append, Globals.checkQueues]
      exact (queuesOf_add _ (by decide) parameterPath_injective (f, p) _ _ _).symm ▸
        h.served.push _ _ _
  | @checkExpected _ _ f p file line value r check hg hv hz hi =>
      obtain ⟨_, _, _, _, rfl⟩ := hi
      rcases queuesOf_get checkView (by decide) parameterPath_injective (f, p) h.shape with
        ⟨-, printed, hg'⟩ | ⟨v', c, q, list', hg', hs, hq, ht⟩
      · cases hg.symm.trans hg'
        cases hv
      · cases hg.symm.trans hg'
        refine ⟨hs, ?_⟩
        rw [List.map_append, Globals.checkQueues, ht]
        exact h.served.take (k := (f, p)) (by rw [Globals.checkQueues, hq]; simp)
  | expectFunctionCall hc => exact h.idle rfl rfl
  | functionCalled hl => exact h.idle rfl rfl
  | other cell hop hi =>
      obtain ⟨_, _, _, _, rfl⟩ := hi
      refine h.idle ?_ rfl
      cases op <;> first | rfl | cases hop

theorem valuesServed_of_exec {ops : List Op} {s s₁ : Globals}
    (hs : s.globalFunctionResultMap = []) (h : execOps ops s = .ok () s₁) : ValuesServed ops s₁ :=
  execOps_invariant (fun _ _ _ _ hI hop => hI.step hop) [] h
    { shape := by rw [hs]; exact shape_nil 1
      nonzero := by intro k a hm; cases hm
      served := by
        rw [Globals.valueQueues, hs, queuesOf_nil]
        exact allServed_nil }

theorem checksServed_of_exec {ops : List Op} {s s₁ : Globals}
    (hs : s.globalFunctionParameterMap = []) (h : execOps ops s = .ok () s₁) :
    ChecksServed ops s₁ :=
  execOps_invariant (fun _ _ _ _ hI hop => hI.step hop) [] h
    { shape := by rw [hs]; exact shape_nil 2
      served := by
        rw [Globals.checkQueues, hs, queuesOf_nil]
        exact allServed_nil }

/-! ### What the next call sees -/

theorem typeMatches_iff {name : Option CString} {v : SymbolValue} :
    typeMatches name v = true ↔ name = none ∨ v.name = name := by
  cases name with
  | none => simp [typeMatches]
  | some n => simp [typeMatches]

/-- The next `_mock` returns the next declared value, if the type names agree. -/
theorem ValuesServed.mock_iff {ops : List Op} {s : Globals} (h : ValuesServed ops s)
    (function file : CString) (line : Int) (name : Option CString) (value : CMockaValueData) :
    (∃ s', mock function file line name s = .ok value s') ↔
      ∃ symbolName, nth (declared function (ops.map Op.onResults))
          (uses function (ops.map Op.onResults)) = some (symbolName, value) ∧
        (name = none ∨ symbolName = name) := by
  rw [h.served.head h.nonzero function]
  have hcases := mock_cases function file line name s
  rcases queuesOf_get valueView le_rfl functionPath_injective function h.shape with
    ⟨hq, printed, hg⟩ | ⟨v, c, q, list', hg, -, hq, -⟩
  · change getSymbolValue [function] _ = _ at hg
    have hf : ∀ s', mock function file line name s ≠ .ok value s' := by
      rcases hcases with ⟨-, hf⟩ | ⟨r, hr, ⟨-, hf⟩ | ⟨v, hv, -⟩⟩
      · exact hf.not_ok value
      · exact hf.not_ok value
      · cases hg.symm.trans hr
        cases hv
    simp [Globals.valueQueues, hq, hf]
  · change getSymbolValue [function] _ = _ at hg
    -- a queued count is not `0`, so the value found is handed out
    have hc : c ≠ 0 := (h.served function).nonZero (h.nonzero.declared function) (valueView v, c)
      (by simp [Globals.valueQueues, hq])
    rw [Globals.valueQueues, hq]
    rcases hcases with ⟨hn, -⟩ | ⟨r, hr, ⟨hr', -⟩ | ⟨v', hv', -, hm⟩⟩
    · cases hg.symm.trans hn
    · cases hg.symm.trans hr
      simp [hc] at hr'
    · cases hg.symm.trans hr
      cases hv'
      rcases hm with ⟨hm, s', he, -⟩ | ⟨hm, hf⟩
      · have hname := typeMatches_iff.mp hm
        constructor
        · rintro ⟨s₂, h₂⟩
          cases he.symm.trans h₂
          exact ⟨v.name, rfl, hname⟩
        · rintro ⟨n, hn, -⟩
          cases hn
          exact ⟨s', he⟩
      · constructor
        · rintro ⟨s₂, h₂⟩
          exact absurd h₂ (hf.not_ok _ _)
        · rintro ⟨n, hn, hname⟩
          cases hn
          rw [typeMatches_iff.mpr hname] at hm
          cases hm

/-- The next `_check_expected` applies the next declared check. -/
theorem ChecksServed.checkExpected_iff {ops : List Op} {s : Globals} (h : ChecksServed ops s)
    (hz : NonZeroActs (ops.map Op.onParameters)) (functionName parameterName file : CString)
    (line : Int) (value : CMockaValueData) :
    (∃ s', checkExpected functionName parameterName file line value s = .ok () s') ↔
      ∃ check data, nth (declared (functionName, parameterName) (ops.map Op.onParameters))
          (uses (functionName, parameterName) (ops.map Op.onParameters)) = some (check, data) ∧
        (check value data).2 = .returned true := by
  rw [h.served.head hz (functionName, parameterName)]
  have hcases := checkExpected_cases functionName parameterName file line value s
  rcases queuesOf_get checkView (by decide) parameterPath_injective (functionName, parameterName)
    h.shape with ⟨hq, printed, hg⟩ | ⟨v, c, q, list', hg, -, hq, -⟩
  · change getSymbolValue [functionName, parameterName] _ = _ at hg
    have hf : ∀ s', checkExpected functionName parameterName file line value s ≠ .ok () s' := by
      rcases hcases with ⟨-, hf⟩ | ⟨r, hr, ⟨-, hf⟩ | ⟨v, hv, -⟩⟩
      · exact hf.not_ok ()
      · exact hf.not_ok ()
      · cases hg.symm.trans hr
        cases hv
    simp [Globals.checkQueues, hq, hf]
  · change getSymbolValue [functionName, parameterName] _ = _ at hg
    have hc : c ≠ 0 := (h.served (functionName, parameterName)).nonZero (hz.declared _)
      (checkView v, c) (by simp [Globals.checkQueues, hq])
    rw [Globals.checkQueues, hq]
    rcases hcases with ⟨hn, -⟩ | ⟨r, hr, ⟨hr', -⟩ | ⟨v', hv', -, hm⟩⟩
    · cases hg.symm.trans hn
    · cases hg.symm.trans hr
      simp [hc] at hr'
    · cases hg.symm.trans hr
      cases hv'
      rcases hm with ⟨hm, s', he, -⟩ | ⟨hm, hf⟩
      · constructor
        · rintro -
          exact ⟨v.checkValue, v.checkValueData, rfl, hm⟩
        · rintro -
          exact ⟨s', he⟩
      · constructor
        · rintro ⟨s₂, h₂⟩
          exact absurd h₂ (hf.not_ok _ _)
        · rintro ⟨check, data, hn, ho⟩
          cases hn
          exact absurd ho hm

/-- **A symbol map is a table of queues.**  Over every sequence of adds and gets on an empty map for
paths of `d` names, the queues and the answers are those of the abstract table, and a get on an
empty queue leaves the whole map as it was.  Consequently, after any calls that returned, the next
`_mock` of a function and the next `_check_expected` of a parameter see the element of the declared
stream numbered by the mocks, or checks, before it. -/
theorem symbol_map_refines_queues :
    (∀ (V : Type) (d : Nat), 1 ≤ d → ∀ ops : List (MapOp V d), ∃ list answers,
      runOps ops [] = some (list, answers) ∧ specOps ops (fun _ => []) = (table d list, answers) ∧
      ∀ path, table d list path = [] →
        ∃ printed, getSymbolValue path.1 list = some ⟨0, none, list, printed⟩) ∧
    (∀ (ops : List Op) (s s₁ : Globals), s.globalFunctionResultMap = [] →
      execOps ops s = .ok () s₁ → ∀ function file line name value,
        (∃ s₂, mock function file line name s₁ = .ok value s₂) ↔
          ∃ symbolName, nth (declared function (ops.map Op.onResults))
              (uses function (ops.map Op.onResults)) = some (symbolName, value) ∧
            (name = none ∨ symbolName = name)) ∧
    (∀ (ops : List Op) (s s₁ : Globals), s.globalFunctionParameterMap = [] →
      NonZeroActs (ops.map Op.onParameters) → execOps ops s = .ok () s₁ →
        ∀ functionName parameterName file line value,
          (∃ s₂, checkExpected functionName parameterName file line value s₁ = .ok () s₂) ↔
            ∃ check data, nth (declared (functionName, parameterName) (ops.map Op.onParameters))
                (uses (functionName, parameterName) (ops.map Op.onParameters)) =
                  some (check, data) ∧
              (check value data).2 = .returned true) := by
  refine ⟨fun V d hd ops => ?_, fun ops s s₁ hs h => ?_, fun ops s s₁ hs hz h => ?_⟩
  · obtain ⟨list, answers, hr, hshape, -, ha⟩ := run_refines hd ops (shape_nil (V := V) d)
      (by rw [table_nil]; intro path e he; cases he)
    rw [table_nil] at ha
    refine ⟨list, answers, hr, ha, fun path hq => ?_⟩
    rcases table_get hd path hshape with ⟨-, name, -, hg⟩ | ⟨v, c, q, list', hq', -⟩
    · exact ⟨_, hg⟩
    · rw [hq] at hq'
      cases hq'
  · exact (valuesServed_of_exec hs h).mock_iff
  · exact (checksServed_of_exec hs h).checkExpected_iff hz

/-- Two uses of a value, and another for every use after them. -/
def twoThenAlways : List Op :=
  [.willReturn "f".toList "t.c".toList 1 none 10 2,
    .willReturn "f".toList "t.c".toList 2 none 20 (-1),
    .mock "f".toList "t.c".toList 3 none, .mock "f".toList "t.c".toList 4 none]

/-- After two calls the next one gets the other value. -/
theorem twoThenAlways_next :
    ∃ s₁, execOps twoThenAlways (Globals.initial .lp64) = .ok () s₁ ∧
      ∃ s₂, mock "f".toList "t.c".toList 5 none s₁ = .ok 20 s₂ := by
  have h : execOps twoThenAlways (Globals.initial .lp64) =
      .ok () (final (execOps twoThenAlways (Globals.initial .lp64))) :=
    eq_ok_of_value (by decide +kernel)
  refine ⟨_, h, ?_⟩
  exact (symbol_map_refines_queues.2.1 _ _ _ rfl h _ _ _ _ _).mpr ⟨none, by decide +kernel, .inl rfl⟩

end Cmocka
