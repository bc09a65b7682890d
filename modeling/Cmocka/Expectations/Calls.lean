import Cmocka.Expectations.MapEntries
import Cmocka.Runner.Frames

/-!
# Expectations — what each call does

One lemma a call on the expectation structures: the state it leaves when it returns, and the state
it is abandoned in when it fails, up to what was printed.  Nothing after this module unfolds the
calls.  `get_cases` does the same for `get_symbol_value` on a map of the shape.
-/

namespace Cmocka

open Runs SymbolMap CountedQueue Ledger

/-! ### Symbolic execution -/

@[simp] theorem printAll_apply (texts : List CString) (s : Globals) :
    printAll texts s = .ok ()
      { s with cmErrorMessage := texts.foldl vcmockaPrintError s.cmErrorMessage } := rfl

@[simp] theorem cmockaPrintError_apply (text : CString) (s : Globals) :
    cmockaPrintError text s = .ok ()
      { s with cmErrorMessage := vcmockaPrintError s.cmErrorMessage text } := rfl

@[simp] theorem record_apply (events : List Event) (s : Globals) :
    record events s = .ok () { s with trace := s.trace ++ events } := rfl

@[simp] theorem freeAll_apply (ptrs : List Addr) (s : Globals) :
    freeAll ptrs s = .ok () { s with trace := s.trace ++ ptrs.map Event.freed } := rfl

@[simp] theorem allocPtr_apply (s : Globals) :
    allocPtr s = .ok s.nextPtr { s with nextPtr := s.nextPtr + 1 } := rfl

@[simp] theorem assertTrue_true (expression : CString) (line : Int) :
    assertTrue true expression line = pure () := rfl

/-! ### Failing -/

/-- The result is a failure, in `s` up to what was printed. -/
def FailsFrom {α : Type} (r : EStateM.Result Exit Globals α) (s : Globals) : Prop :=
  ∃ e s', r = .error e s' ∧ Inert s s' ∧ Fails s e

/-- What fails does not return. -/
theorem FailsFrom.not_ok {α : Type} {r : EStateM.Result Exit Globals α} {s : Globals}
    (h : FailsFrom r s) (a : α) (s' : Globals) : r ≠ .ok a s' := by
  obtain ⟨e, s₁, rfl, -⟩ := h
  intro hc
  cases hc

/-- Printing before a failure does not matter. -/
theorem FailsFrom.of_inert {α : Type} {r : EStateM.Result Exit Globals α} {s s₁ : Globals}
    (h : FailsFrom r s₁) (hi : Inert s s₁) : FailsFrom r s := by
  obtain ⟨e, s', he, hi', hf⟩ := h
  exact ⟨e, s', he, trans_of Inert hi hi', hi.fails hf⟩

/-- What prints and does not return fails. -/
theorem Prints.failsFrom {α : Type} {x : CM α} (hx : Prints x) {s : Globals}
    (hne : ∀ a s', x s ≠ .ok a s') : FailsFrom (x s) s := by
  cases h : x s with
  | ok a s' => exact absurd h (hne a s')
  | error e s' => exact ⟨e, s', rfl, hx.error h⟩

/-- After something that only prints. -/
theorem FailsFrom.of_bind {α β : Type} {x : CM α} {f : α → CM β} {s s₁ : Globals} {a : α}
    (hx : x s = .ok a s₁) (hi : Inert s s₁) (hf : FailsFrom (f a s₁) s₁) :
    FailsFrom ((x >>= f) s) s := by
  rw [bind_of_ok hx]
  exact hf.of_inert hi

theorem failsFrom_fail {α : Type} (file : CString) (line : Int) (s : Globals) :
    FailsFrom ((fail file line : CM α) s) s :=
  (prints_fail file line).failsFrom fun a s' => fail_ne_ok file line s s' a

theorem failsFrom_of_exit {α : Type} {r : EStateM.Result Exit Globals α} {s s' : Globals}
    (h : r = .error (s'.exitOf .fail) s') (hi : Inert s s') : FailsFrom r s :=
  ⟨_, s', h, hi, hi.fails (.inl rfl)⟩

/-- An internal assertion that does not hold. -/
theorem failsFrom_assertFalse {α : Type} (expression : CString) (line : Int) (f : Unit → CM α)
    (s : Globals) : FailsFrom ((assertTrue false expression line >>= f) s) s := by
  have h : FailsFrom (assertTrue false expression line s) s :=
    .of_bind (cmockaPrintError_apply _ s) ⟨_, _, _, _, rfl⟩ (failsFrom_fail _ _ _)
  obtain ⟨e, s', he, hi, hf⟩ := h
  exact ⟨e, s', bind_of_error he f, hi, hf⟩

/-! ### Return values -/

/-- What `_will_return` stores. -/
def returnValueOf (s : Globals) (file : CString) (line : Int) (name : Option CString)
    (value : CMockaValueData) : SymbolValue :=
  { ptr := s.nextPtr, name, location := setSourceLocation file line, value }

/-- **`_will_return`** asserts that the count is not `0` and adds the value. -/
theorem willReturn_cases (functionName file : CString) (line : Int) (name : Option CString)
    (value : CMockaValueData) (count : Int) (s : Globals) :
    (count ≠ 0 ∧ willReturn functionName file line name value count s = .ok ()
      { s with
        nextPtr := s.nextPtr + 1
        globalFunctionResultMap := addSymbolValue [functionName]
          (returnValueOf s file line name value) count s.globalFunctionResultMap
        trace := s.trace ++ [.willReturn s.nextPtr functionName count] }) ∨
    (count = 0 ∧ FailsFrom (willReturn functionName file line name value count s)
      { s with nextPtr := s.nextPtr + 1 }) := by
  by_cases hc : count = 0
  · subst hc
    exact .inr ⟨rfl, failsFrom_assertFalse _ _ _ _⟩
  · have hb : (count != 0) = true := bne_iff_ne.mpr hc
    refine .inl ⟨hc, ?_⟩
    simp only [willReturn, hb, assertTrue_true]
    rfl

/-- **`_mock`.**  The four ways it can go. -/
theorem mock_cases (function file : CString) (line : Int) (name : Option CString) (s : Globals) :
    (getSymbolValue [function] s.globalFunctionResultMap = none ∧
      FailsFrom (mock function file line name s) s) ∨
    ∃ r, getSymbolValue [function] s.globalFunctionResultMap = some r ∧
      (((r.output = none ∨ r.returnValue = 0) ∧
        FailsFrom (mock function file line name s) { s with globalFunctionResultMap := r.list }) ∨
      ∃ v, r.output = some v ∧ r.returnValue ≠ 0 ∧
        ((typeMatches name v = true ∧ ∃ s', mock function file line name s = .ok v.value s' ∧
          Inert { s with
            globalFunctionResultMap := r.list
            globalLastMockValueLocation := v.location
            trace := s.trace ++ ((if r.returnValue = 1 then [.freed v.ptr] else []) ++
              [.mocked v.ptr]) } s') ∨
        (typeMatches name v = false ∧ FailsFrom (mock function file line name s)
          { s with
            globalFunctionResultMap := r.list
            trace := s.trace ++ [.freed v.ptr] }))) := by
  cases hg : getSymbolValue [function] s.globalFunctionResultMap with
  | none =>
      refine .inl ⟨rfl, ?_⟩
      -- `assert_true(return_value)`: a node without values, which the operations never leave behind
      unfold mock
      rw [bind_of_ok (get_apply s), hg]
      exact failsFrom_assertFalse _ _ _ _
  | some r =>
      refine .inr ⟨r, rfl, ?_⟩
      cases ho : r.output with
      | none =>
          -- no value for the function: `rc` is `0`
          refine .inl ⟨.inl rfl, ?_⟩
          simp only [mock, bind_apply, get_apply, set_apply, hg, ho, printAll_apply,
            exitTest_apply]
          exact failsFrom_of_exit rfl ⟨_, _, _, _, rfl⟩
      | some v =>
          by_cases hz : r.returnValue = 0
          · refine .inl ⟨.inr hz, ?_⟩
            simp only [mock, bind_apply, get_apply, set_apply, hg, ho, if_pos hz, printAll_apply,
              exitTest_apply]
            exact failsFrom_of_exit rfl ⟨_, _, _, _, rfl⟩
          · refine .inr ⟨v, rfl, hz, ?_⟩
            cases hm : typeMatches name v with
            | true =>
                refine .inl ⟨rfl, ?_⟩
                by_cases h1 : r.returnValue = 1
                · simp only [mock, bind_apply, get_apply, set_apply, hg, ho, if_neg hz, hm, if_true,
                    printAll_apply, modify_apply, if_pos h1, freeAll_apply, record_apply,
                    pure_apply, List.append_assoc]
                  exact ⟨_, rfl, ⟨_, _, _, _, rfl⟩⟩
                · simp only [mock, bind_apply, get_apply, set_apply, hg, ho, if_neg hz, hm, if_true,
                    printAll_apply, modify_apply, if_neg h1, record_apply, pure_apply]
                  exact ⟨_, rfl, ⟨_, _, _, _, rfl⟩⟩
            | false =>
                refine .inr ⟨rfl, ?_⟩
                -- the value is released whatever its count says
                simp only [mock, bind_apply, get_apply, set_apply, hg, ho, if_neg hz, hm,
                  printAll_apply, freeAll_apply, exitTest_apply, Bool.false_eq_true, if_false]
                exact failsFrom_of_exit rfl ⟨_, _, _, _, rfl⟩

/-! ### Parameter checks -/

/-- What `_expect_check` stores. -/
def checkOf (s : Globals) (parameter file : CString) (line : Int)
    (checkFunction : CheckParameterValue) (checkData : CMockaValueData) : CheckParameterEvent :=
  { ptr := s.nextPtr, location := setSourceLocation file line, parameterName := parameter
    checkValue := checkFunction, checkValueData := checkData }

/-- **`_expect_check`** adds the check. -/
theorem expectCheck_apply (function parameter file : CString) (line : Int)
    (checkFunction : CheckParameterValue) (checkData : CMockaValueData) (count : Int)
    (s : Globals) :
    expectCheck function parameter file line checkFunction checkData count s = .ok ()
      { s with
        nextPtr := s.nextPtr + 1
        globalFunctionParameterMap := addSymbolValue [function, parameter]
          (checkOf s parameter file line checkFunction checkData) count
          s.globalFunctionParameterMap
        trace := s.trace ++ [.expectCheck s.nextPtr function parameter count] } := rfl

/-- The outcome of an event's check function on a value. -/
def CheckParameterEvent.outcome (check : CheckParameterEvent) (value : CMockaValueData) :
    CheckOutcome := (check.checkValue value check.checkValueData).2

@[simp] theorem CheckParameterEvent.call_apply (check : CheckParameterEvent)
    (value : CMockaValueData) (s : Globals) :
    check.call value s = .ok (check.outcome value)
      { s with
        trace := s.trace ++ [.checkCalled check.ptr value (check.outcome value)]
        cmErrorMessage := (check.checkValue value check.checkValueData).1.foldl vcmockaPrintError
          s.cmErrorMessage } := rfl

/-- The check function came back. -/
def CheckOutcome.returns : CheckOutcome → Bool
  | .returned _ => true
  | .failed .. => false

/-- **`_check_expected`.**  The ways it can go.  An event that is found is passed to its check
function first, and released after that if it was its last use and the check function came back. -/
theorem checkExpected_cases (functionName parameterName file : CString) (line : Int)
    (value : CMockaValueData) (s : Globals) :
    (getSymbolValue [functionName, parameterName] s.globalFunctionParameterMap = none ∧
      FailsFrom (checkExpected functionName parameterName file line value s) s) ∨
    ∃ r, getSymbolValue [functionName, parameterName] s.globalFunctionParameterMap = some r ∧
      (((r.output = none ∨ r.returnValue = 0) ∧
        FailsFrom (checkExpected functionName parameterName file line value s)
          { s with globalFunctionParameterMap := r.list }) ∨
      ∃ check, r.output = some check ∧ r.returnValue ≠ 0 ∧
        ((check.outcome value = .returned true ∧
          ∃ s', checkExpected functionName parameterName file line value s = .ok () s' ∧
          Inert { s with
            globalFunctionParameterMap := r.list
            globalLastParameterLocation := check.location
            trace := s.trace ++ (.checkCalled check.ptr value (.returned true) ::
              (if r.returnValue = 1 then [.freed check.ptr] else []) ++ [.checked check.ptr]) }
            s') ∨
        (check.outcome value ≠ .returned true ∧
          FailsFrom (checkExpected functionName parameterName file line value s)
          { s with
            globalFunctionParameterMap := r.list
            globalLastParameterLocation := check.location
            trace := s.trace ++ .checkCalled check.ptr value (check.outcome value) ::
              if (check.outcome value).returns ∧ r.returnValue = 1 then [.freed check.ptr]
              else [] }))) := by
  cases hg : getSymbolValue [functionName, parameterName] s.globalFunctionParameterMap with
  | none =>
      refine .inl ⟨rfl, ?_⟩
      unfold checkExpected
      rw [bind_of_ok (get_apply s), hg]
      exact failsFrom_assertFalse _ _ _ _
  | some r =>
      refine .inr ⟨r, rfl, ?_⟩
      cases ho : r.output with
      | none =>
          refine .inl ⟨.inl rfl, ?_⟩
          simp only [checkExpected, bind_apply, get_apply, set_apply, hg, ho, printAll_apply,
            exitTest_apply]
          exact failsFrom_of_exit rfl ⟨_, _, _, _, rfl⟩
      | some check =>
          by_cases hz : r.returnValue = 0
          · refine .inl ⟨.inr hz, ?_⟩
            simp only [checkExpected, bind_apply, get_apply, set_apply, hg, ho, if_pos hz,
              printAll_apply, exitTest_apply]
            exact failsFrom_of_exit rfl ⟨_, _, _, _, rfl⟩
          · refine .inr ⟨check, rfl, hz, ?_⟩
            cases hc : check.outcome value with
            | failed file' line' =>
                -- the check function ended the test itself, before the event could be released
                refine .inr ⟨by simp, ?_⟩
                simp only [checkExpected, bind_apply, get_apply, set_apply, hg, ho, if_neg hz,
                  printAll_apply, modify_apply, CheckParameterEvent.call_apply, hc,
                  CheckOutcome.returns, Bool.false_eq_true, false_and, if_false]
                exact (failsFrom_fail _ _ _).of_inert ⟨_, _, _, _, rfl⟩
            | returned succeeded =>
                cases succeeded with
                | true =>
                    refine .inl ⟨rfl, ?_⟩
                    by_cases h1 : r.returnValue = 1
                    · simp only [checkExpected, bind_apply, get_apply, set_apply, hg, ho, if_neg hz,
                        printAll_apply, modify_apply, CheckParameterEvent.call_apply, hc, if_pos h1,
                        freeAll_apply, record_apply, if_true, List.append_assoc]
                      exact ⟨_, rfl, ⟨_, _, _, _, rfl⟩⟩
                    · simp only [checkExpected, bind_apply, get_apply, set_apply, hg, ho, if_neg hz,
                        printAll_apply, modify_apply, CheckParameterEvent.call_apply, hc, if_neg h1,
                        record_apply, if_true, List.append_assoc]
                      exact ⟨_, rfl, ⟨_, _, _, _, rfl⟩⟩
                | false =>
                    refine .inr ⟨by simp, ?_⟩
                    by_cases h1 : r.returnValue = 1
                    · rw [if_pos ⟨rfl, h1⟩]
                      simp only [checkExpected, bind_apply, get_apply, set_apply, hg, ho, if_neg hz,
                        printAll_apply, modify_apply, CheckParameterEvent.call_apply, hc, if_pos h1,
                        freeAll_apply, Bool.false_eq_true, if_false, cmockaPrintError_apply,
                        List.append_assoc]
                      exact (failsFrom_fail _ _ _).of_inert ⟨_, _, _, _, rfl⟩
                    · rw [if_neg fun h => h1 h.2]
                      simp only [checkExpected, bind_apply, get_apply, set_apply, hg, ho, if_neg hz,
                        printAll_apply, modify_apply, CheckParameterEvent.call_apply, hc, if_neg h1,
                        Bool.false_eq_true, if_false, cmockaPrintError_apply]
                      exact (failsFrom_fail _ _ _).of_inert ⟨_, _, _, _, rfl⟩

/-! ### Call ordering -/

/-- What `_expect_function_call` stores. -/
def orderingOf (s : Globals) (functionName file : CString) (line : Int) : FuncOrderingValue :=
  { ptr := s.nextPtr, location := setSourceLocation file line, function := functionName }

/-- **`_expect_function_call`** asserts that the count is not `0` and adds the call. -/
theorem expectFunctionCall_cases (functionName file : CString) (line : Int) (count : Int)
    (s : Globals) :
    (count ≠ 0 ∧ expectFunctionCall functionName file line count s = .ok ()
      { s with
        nextPtr := s.nextPtr + 1
        globalCallOrdering :=
          s.globalCallOrdering ++ [(orderingOf s functionName file line, count)]
        trace := s.trace ++ [.expectFunctionCall s.nextPtr functionName count] }) ∨
    (count = 0 ∧ FailsFrom (expectFunctionCall functionName file line count s) s) := by
  by_cases hc : count = 0
  · subst hc
    exact .inr ⟨rfl, failsFrom_assertFalse _ _ _ _⟩
  · have hb : (count != 0) = true := bne_iff_ne.mpr hc
    refine .inl ⟨hc, ?_⟩
    simp only [expectFunctionCall, hb, assertTrue_true]
    rfl

/-- The list after the call is charged to the entry `(expected, refcount)` between `before` and
`after`. -/
def chargeCall (before : List (FuncOrderingValue × Int)) (expected : FuncOrderingValue)
    (refcount : Int) (after : List (FuncOrderingValue × Int)) : List (FuncOrderingValue × Int) :=
  before ++ ((spend refcount).map fun c => (expected, c)).toList ++ after

/-- What the search stops at, and what it went over. -/
theorem scanCalls_some {function : CString} {list before after : List (FuncOrderingValue × Int)}
    {e : FuncOrderingValue × Int} (h : scanCalls function list = some (before, e, after)) :
    list = before ++ e :: after ∧ (e.1.function = function ∨ e.2 > -2) ∧
      ∀ e' ∈ before, e'.1.function ≠ function ∧ e'.2 ≤ -2 := by
  induction list generalizing before with
  | nil => cases h
  | cons first rest ih =>
      obtain ⟨expected, refcount⟩ := first
      by_cases hc : expected.function = function ∨ refcount > -2
      · rw [scanCalls, if_pos hc] at h
        cases h
        exact ⟨rfl, hc, by simp⟩
      · rw [scanCalls, if_neg hc] at h
        obtain ⟨⟨before', e', after'⟩, hr, he⟩ := Option.map_eq_some_iff.mp h
        cases he
        obtain ⟨hl, hstop, hskip⟩ := ih hr
        rw [not_or] at hc
        refine ⟨by rw [hl]; rfl, hstop, fun e' he' => ?_⟩
        rcases List.mem_cons.mp he' with rfl | he'
        · exact ⟨hc.1, by simpa using hc.2⟩
        · exact hskip e' he'

/-- The scan finds no call if all of them are optional and of other functions. -/
theorem scanCalls_none {function : CString} {list : List (FuncOrderingValue × Int)} :
    scanCalls function list = none ↔ ∀ e ∈ list, e.1.function ≠ function ∧ e.2 ≤ -2 := by
  induction list with
  | nil => simp [scanCalls]
  | cons first rest ih =>
      obtain ⟨expected, refcount⟩ := first
      by_cases hc : expected.function = function ∨ refcount > -2
      · rw [scanCalls, if_pos hc]
        constructor
        · intro h
          cases h
        · intro h
          have hf := h (expected, refcount) (by simp)
          rcases hc with hc | hc
          · exact absurd hc hf.1
          · exact absurd hf.2 (by omega)
      · rw [scanCalls, if_neg hc, Option.map_eq_none_iff, ih]
        rw [not_or] at hc
        simp [hc.1, not_lt.mp hc.2]

/-- **`_function_called`.**  The call is charged to the entry the search stops at, if that is for
the function, and fails otherwise. -/
theorem functionCalled_cases (function file : CString) (line : Int) (s : Globals) :
    (scanCalls function s.globalCallOrdering = none ∧
      FailsFrom (functionCalled function file line s) s) ∨
    ∃ before expected refcount after,
      scanCalls function s.globalCallOrdering = some (before, (expected, refcount), after) ∧
      ((expected.function = function ∧ ∃ released : List Addr,
        functionCalled function file line s = .ok ()
          { s with
            globalCallOrdering := chargeCall before expected refcount after
            trace := s.trace ++ (released.map .freed ++ [.called expected.ptr]) }) ∨
      (expected.function ≠ function ∧ FailsFrom (functionCalled function file line s) s)) := by
  cases hl : scanCalls function s.globalCallOrdering with
  | none =>
      refine .inl ⟨rfl, ?_⟩
      by_cases he : s.globalCallOrdering.isEmpty
      · simp only [functionCalled, bind_apply, get_apply, he, if_true, cmockaPrintError_apply,
          exitTest_apply]
        exact failsFrom_of_exit rfl ⟨_, _, _, _, rfl⟩
      · simp only [functionCalled, bind_apply, get_apply, he, hl, cmockaPrintError_apply,
          exitTest_apply, Bool.false_eq_true, if_false]
        exact failsFrom_of_exit rfl ⟨_, _, _, _, rfl⟩
  | some found =>
      obtain ⟨before, ⟨expected, refcount⟩, after⟩ := found
      have hlist := (scanCalls_some hl).1
      have he : s.globalCallOrdering.isEmpty = false := by simp [hlist]
      refine .inr ⟨before, expected, refcount, after, rfl, ?_⟩
      by_cases hf : expected.function = function
      · refine .inl ⟨hf, ?_⟩
        simp only [functionCalled, bind_apply, get_apply, he, hl, Bool.false_eq_true, if_false,
          if_pos hf, chargeCall]
        rcases (by omega : refcount = 1 ∨ (-2 < refcount ∧ refcount ≠ 1) ∨ refcount ≤ -2) with
          rfl | ⟨hgt, hne⟩ | hle
        · exact ⟨[expected.ptr], by simp [bind_apply]⟩
        · refine ⟨[], ?_⟩
          have hs : spend refcount = some (refcount - 1) := by
            rw [spend, if_neg hne, if_pos hgt]
          simp [bind_apply, hgt, hs, show refcount - 1 ≠ 0 by omega]
        · refine ⟨[], ?_⟩
          simp [show ¬ refcount > -2 by omega, spend_of_le hle, ← hlist]
      · refine .inr ⟨hf, ?_⟩
        simp only [functionCalled, bind_apply, get_apply, he, hl, Bool.false_eq_true, if_false,
          if_neg hf, cmockaPrintError_apply, exitTest_apply]
        exact failsFrom_of_exit rfl ⟨_, _, _, _, rfl⟩

/-! ### The end of a test -/

/-- What is still expected of the result map. -/
def Globals.resultsLeft (s : Globals) : Bool :=
  mapHasLeftover (symbolValueLocation s.platform) leftoverResultMessage 1 s.globalFunctionResultMap

/-- What is still expected of the parameter map. -/
def Globals.parametersLeft (s : Globals) : Bool :=
  mapHasLeftover CheckParameterEvent.location leftoverParameterMessage 2
    s.globalFunctionParameterMap

/-- What is still expected of the call-ordering list. -/
def Globals.callsLeft (s : Globals) : Bool :=
  (removeAlwaysReturnValuesFromList s.globalCallOrdering).1.length != 0

/-- What `has_leftover_values` reports. -/
def Globals.anyLeft (s : Globals) : Bool := s.resultsLeft || s.parametersLeft || s.callsLeft

/-- The state after the removal of optional values from the three structures. -/
def Globals.dropOptionals (s : Globals) : Globals :=
  { s with
    globalFunctionResultMap := (removeAlwaysReturnValues 1 s.globalFunctionResultMap).1
    globalFunctionParameterMap := (removeAlwaysReturnValues 2 s.globalFunctionParameterMap).1
    globalCallOrdering := (removeAlwaysReturnValuesFromList s.globalCallOrdering).1
    trace := s.trace ++
      (((removeAlwaysReturnValues 1 s.globalFunctionResultMap).2.map SymbolValue.ptr ++
        (removeAlwaysReturnValues 2 s.globalFunctionParameterMap).2.map CheckParameterEvent.ptr ++
        (removeAlwaysReturnValuesFromList s.globalCallOrdering).2.map FuncOrderingValue.ptr).map
          .freed) }

/-- The search among the results: optional values are released, and the rest is noted. -/
theorem leftoverResults_apply (s : Globals) :
    leftoverResults s = .ok s.resultsLeft
      { s with
        globalFunctionResultMap := (removeAlwaysReturnValues 1 s.globalFunctionResultMap).1
        trace := s.trace ++ ((removeAlwaysReturnValues 1 s.globalFunctionResultMap).2.map
          SymbolValue.ptr).map .freed
        cmErrorMessage := (checkForLeftoverValues (symbolValueLocation s.platform)
          leftoverResultMessage 1 (removeAlwaysReturnValues 1 s.globalFunctionResultMap).1).2.foldl
            vcmockaPrintError s.cmErrorMessage } := rfl

/-- The search among the parameters. -/
theorem leftoverParameters_apply (s : Globals) :
    leftoverParameters s = .ok s.parametersLeft
      { s with
        globalFunctionParameterMap := (removeAlwaysReturnValues 2 s.globalFunctionParameterMap).1
        trace := s.trace ++ ((removeAlwaysReturnValues 2 s.globalFunctionParameterMap).2.map
          CheckParameterEvent.ptr).map .freed
        cmErrorMessage := (checkForLeftoverValues CheckParameterEvent.location
          leftoverParameterMessage 2
            (removeAlwaysReturnValues 2 s.globalFunctionParameterMap).1).2.foldl
              vcmockaPrintError s.cmErrorMessage } := rfl

/-- The search among the calls. -/
theorem leftoverCalls_apply (s : Globals) :
    leftoverCalls s = .ok s.callsLeft
      { s with
        globalCallOrdering := (removeAlwaysReturnValuesFromList s.globalCallOrdering).1
        trace := s.trace ++ ((removeAlwaysReturnValuesFromList s.globalCallOrdering).2.map
          FuncOrderingValue.ptr).map .freed
        cmErrorMessage := (checkForLeftoverValuesList leftoverCallMessage
          (removeAlwaysReturnValuesFromList s.globalCallOrdering).1).2.foldl
            vcmockaPrintError s.cmErrorMessage } := rfl

/-- **`has_leftover_values`** answers whether anything is left but optional values. -/
theorem hasLeftoverValues_spec (s : Globals) :
    ∃ s', hasLeftoverValues s = .ok s.anyLeft s' ∧
      Inert s.dropOptionals s' := by
  simp only [hasLeftoverValues, bind_apply, leftoverResults_apply, leftoverParameters_apply,
    leftoverCalls_apply, pure_apply]
  refine ⟨_, rfl, Inert.of_eq ?_⟩
  simp only [Globals.dropOptionals, List.map_append, List.append_assoc]

/-- **`fail_if_leftover_values`** fails exactly if something is left. -/
theorem failIfLeftoverValues_cases (s : Globals) :
    (s.anyLeft = false ∧ ∃ s', failIfLeftoverValues s = .ok () s' ∧ Inert s.dropOptionals s') ∨
    (s.anyLeft = true ∧ FailsFrom (failIfLeftoverValues s) s.dropOptionals) := by
  obtain ⟨s', hs', hi⟩ := hasLeftoverValues_spec s
  cases hl : s.anyLeft with
  | false =>
      rw [hl] at hs'
      refine .inl ⟨rfl, s', ?_, hi⟩
      rw [failIfLeftoverValues, bind_of_ok hs']
      rfl
  | true =>
      rw [hl] at hs'
      refine .inr ⟨rfl, ?_⟩
      rw [failIfLeftoverValues, bind_of_ok hs']
      exact failsFrom_of_exit (exitTest_apply _ _) hi

theorem freeCallOrdering_fst (list : List (FuncOrderingValue × Int)) :
    (freeCallOrdering list).1 = [] := by
  induction list with
  | nil => rfl
  | cons e rest ih => exact ih

theorem freeCallOrdering_snd (list : List (FuncOrderingValue × Int)) :
    (freeCallOrdering list).2 = list.map Prod.fst := by
  induction list with
  | nil => rfl
  | cons e rest ih => simp [freeCallOrdering, ih]

/-- The addresses `teardown_testing` releases. -/
def Globals.tornDown (s : Globals) : List Addr :=
  (listFree (freeSymbolMapValue 0) s.globalFunctionResultMap).2.map SymbolValue.ptr ++
    (listFree (freeSymbolMapValue 1) s.globalFunctionParameterMap).2.map CheckParameterEvent.ptr ++
    s.globalCallOrdering.map fun e => e.1.ptr

/-- **`teardown_testing` leaves the structures empty.** -/
theorem teardownTesting_apply (s : Globals) :
    teardownTesting s = .ok ()
      { s with
        globalFunctionResultMap := []
        globalLastMockValueLocation := initializeSourceLocation
        globalFunctionParameterMap := []
        globalLastParameterLocation := initializeSourceLocation
        globalCallOrdering := []
        globalLastCallOrderingLocation := initializeSourceLocation
        trace := s.trace ++ s.tornDown.map .freed } := by
  simp only [teardownTesting, bind_apply, get_apply, set_apply, freeAll_apply, listFree_fst,
    freeCallOrdering_fst, freeCallOrdering_snd, Globals.tornDown, List.map_append, List.map_map,
    List.append_assoc]
  rfl

/-! ### The calls of a callback -/

/-- A call on the expectation structures. -/
def Op.isExpectation : Op → Bool
  | .willReturn .. | .mock .. | .expectCheck .. | .checkExpected .. | .expectFunctionCall ..
  | .functionCalled .. => true
  | _ => false

/-- What a call that returns did to the state. -/
inductive Returns : Op → Globals → Globals → Prop where
  | willReturn {s : Globals} {functionName file : CString} {line : Int} {name : Option CString}
      {value : CMockaValueData} {count : Int} (hc : count ≠ 0) :
      Returns (.willReturn functionName file line name value count) s
        { s with
          nextPtr := s.nextPtr + 1
          globalFunctionResultMap := addSymbolValue [functionName]
            (returnValueOf s file line name value) count s.globalFunctionResultMap
          trace := s.trace ++ [.willReturn s.nextPtr functionName count] }
  | mock {s s' : Globals} {function file : CString} {line : Int} {name : Option CString}
      {r : GetResult SymbolValue} {v : SymbolValue}
      (hg : getSymbolValue [function] s.globalFunctionResultMap = some r)
      (hv : r.output = some v) (hz : r.returnValue ≠ 0)
      (hi : Inert { s with
        globalFunctionResultMap := r.list
        globalLastMockValueLocation := v.location
        trace := s.trace ++ ((if r.returnValue = 1 then [.freed v.ptr] else []) ++
          [.mocked v.ptr]) } s')
      (hname : typeMatches name v = true) (hrun : mock function file line name s = .ok v.value s') :
      Returns (.mock function file line name) s s'
  | expectCheck {s : Globals} {function parameter file : CString} {line : Int}
      {checkFunction : CheckParameterValue} {checkData : CMockaValueData} {count : Int} :
      Returns (.expectCheck function parameter file line checkFunction checkData count) s
        { s with
          nextPtr := s.nextPtr + 1
          globalFunctionParameterMap := addSymbolValue [function, parameter]
            (checkOf s parameter file line checkFunction checkData) count
            s.globalFunctionParameterMap
          trace := s.trace ++ [.expectCheck s.nextPtr function parameter count] }
  | checkExpected {s s' : Globals} {functionName parameterName file : CString} {line : Int}
      {value : CMockaValueData} {r : GetResult CheckParameterEvent} {check : CheckParameterEvent}
      (hg : getSymbolValue [functionName, parameterName] s.globalFunctionParameterMap = some r)
      (hv : r.output = some check) (hz : r.returnValue ≠ 0)
      (hi : Inert { s with
        globalFunctionParameterMap := r.list
        globalLastParameterLocation := check.location
        trace := s.trace ++ (.checkCalled check.ptr value (.returned true) ::
          (if r.returnValue = 1 then [.freed check.ptr] else []) ++ [.checked check.ptr]) } s')
      (hcheck : check.outcome value = .returned true) :
      Returns (.checkExpected functionName parameterName file line value) s s'
  | expectFunctionCall {s : Globals} {functionName file : CString} {line count : Int}
      (hc : count ≠ 0) :
      Returns (.expectFunctionCall functionName file line count) s
        { s with
          nextPtr := s.nextPtr + 1
          globalCallOrdering :=
            s.globalCallOrdering ++ [(orderingOf s functionName file line, count)]
          trace := s.trace ++ [.expectFunctionCall s.nextPtr functionName count] }
  | functionCalled {s : Globals} {function file : CString} {line refcount : Int}
      {before after : List (FuncOrderingValue × Int)} {expected : FuncOrderingValue}
      {released : List Addr}
      (hl : s.globalCallOrdering = before ++ (expected, refcount) :: after)
      (hf : expected.function = function) :
      Returns (.functionCalled function file line) s
        { s with
          globalCallOrdering := chargeCall before expected refcount after
          trace := s.trace ++ (released.map .freed ++ [.called expected.ptr]) }
  | other {op : Op} {s s' : Globals} (stateCell : Addr) (hop : op.isExpectation = false)
      (hi : Inert { s with stateCell } s') : Returns op s s'

/-- A call of the allocator whose result is not used. -/
theorem returns_of_prints {α : Type} {op : Op} (hop : op.isExpectation = false) {x : CM α}
    (hx : Prints x) {s s' : Globals} (h : (do let _ ← x : CM Unit) s = .ok () s') :
    Returns op s s' := by
  obtain ⟨a, s₁, h₁, h₂⟩ := bind_eq_ok.mp h
  cases h₂
  exact .other s.stateCell hop (hx.ok h₁)

/-- **A call that returns.** -/
theorem Op.exec_ok {op : Op} {s s' : Globals} (h : op.exec s = .ok () s') : Returns op s s' := by
  cases op with
  | willReturn f file line name value count =>
      rcases willReturn_cases f file line name value count s with ⟨hc, he⟩ | ⟨-, hf⟩
      · rw [Op.exec, he] at h
        cases h
        exact .willReturn hc
      · exact absurd h (hf.not_ok _ _)
  | mock f file line name =>
      obtain ⟨a, s₁, h₁, h₂⟩ := bind_eq_ok.mp h
      cases h₂
      rcases mock_cases f file line name s with
        ⟨-, hf⟩ | ⟨r, hg, ⟨-, hf⟩ | ⟨v, hv, hz, ⟨hname, s₂, he, hi⟩ | ⟨-, hf⟩⟩⟩
      · exact absurd h₁ (hf.not_ok _ _)
      · exact absurd h₁ (hf.not_ok _ _)
      · rw [he] at h₁
        cases h₁
        exact .mock hg hv hz hi hname he
      · exact absurd h₁ (hf.not_ok _ _)
  | expectCheck f p file line check data count =>
      rw [Op.exec, expectCheck_apply] at h
      cases h
      exact .expectCheck
  | checkExpected f p file line value =>
      rcases checkExpected_cases f p file line value s with
        ⟨-, hf⟩ | ⟨r, hg, ⟨-, hf⟩ | ⟨check, hv, hz, ⟨hcheck, s₂, he, hi⟩ | ⟨-, hf⟩⟩⟩
      · exact absurd h (hf.not_ok _ _)
      · exact absurd h (hf.not_ok _ _)
      · rw [Op.exec, he] at h
        cases h
        exact .checkExpected hg hv hz hi hcheck
      · exact absurd h (hf.not_ok _ _)
  | expectFunctionCall f file line count =>
      rcases expectFunctionCall_cases f file line count s with ⟨hc, he⟩ | ⟨-, hf⟩
      · rw [Op.exec, he] at h
        cases h
        exact .expectFunctionCall hc
      · exact absurd h (hf.not_ok _ _)
  | functionCalled f file line =>
      rcases functionCalled_cases f file line s with
        ⟨-, hf⟩ | ⟨before, expected, refcount, after, hl, ⟨hname, released, he⟩ | ⟨-, hf⟩⟩
      · exact absurd h (hf.not_ok _ _)
      · rw [Op.exec, he] at h
        cases h
        exact .functionCalled (scanCalls_some hl).1 hname
      · exact absurd h (hf.not_ok _ _)
  | testMalloc size file line libc => exact returns_of_prints rfl (prints_testMalloc ..) h
  | testCalloc n size file line libc => exact returns_of_prints rfl (prints_testCalloc ..) h
  | testRealloc ptr size file line libc => exact returns_of_prints rfl (prints_testRealloc ..) h
  | testFree ptr file line =>
      exact .other s.stateCell rfl ((prints_testFree ptr file line).ok h)
  | storeByte ptr byte =>
      cases h
      exact .other s.stateCell rfl ⟨_, _, _, _, rfl⟩
  | storeState state =>
      cases h
      exact .other state rfl (refl_of Inert _)
  | printError text =>
      cases h
      exact .other s.stateCell rfl ⟨_, _, _, _, rfl⟩

/-- **Invariants of a run of calls**: what every returning call keeps, all calls keep. -/
theorem execOps_invariant {I : List Op → Globals → Prop}
    (hstep : ∀ ops op s s', I ops s → Returns op s s' → I (ops ++ [op]) s') (done : List Op)
    {ops : List Op} {s s' : Globals} (h : execOps ops s = .ok () s') (hI : I done s) :
    I (done ++ ops) s' := by
  induction ops generalizing done s with
  | nil =>
      cases h
      simpa using hI
  | cons op ops ih =>
      obtain ⟨_, s₁, h₁, h₂⟩ := bind_eq_ok.mp h
      simpa using ih (done ++ [op]) h₂ (hstep done op s s₁ hI (Op.exec_ok h₁))

end Cmocka
