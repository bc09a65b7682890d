import Cmocka.Checks.Bodies
import Cmocka.Alloc.Leaks
import Cmocka.Runner.Callback

/-!
# Checks — groups of tests that make assertions

A test that only makes assertions fails exactly if one of them does not hold; its message is the
error of the first such assertion.  A group of such tests runs each of the selected ones to its end,
whatever the others do, and returns the number of those that fail (`run_assertionTests`).
-/

namespace Cmocka

open Runs SymbolMap

/-! ### Tests -/

/-- An assertion, and where it stands. -/
structure Check where
  assertion : Assertion
  file : CString
  line : Int

/-- A test whose function makes assertions and nothing else. -/
structure AssertionTest where
  name : CString
  addr : Addr
  initialState : Addr
  checks : List Check

/-- The texts that are printed where an assertion does not hold. -/
def Check.texts (p : Platform) (output : BitVec 32) (c : Check) : List CString :=
  c.assertion.error p output ++ failureTexts output c.file c.line

namespace AssertionTest

/-- The test function. -/
def text (t : AssertionTest) : TestText where
  statements := t.checks.map fun c => .assertion c.assertion c.file c.line
  ending := .ret 0

/-- The entry of the test in the array of a group. -/
def unitTest (p : Platform) (output : BitVec 32) (t : AssertionTest) : CMUnitTest where
  name := some t.name
  testFunc := some ⟨t.addr, t.text.script p output⟩
  setupFunc := none
  teardownFunc := none
  initialState := t.initialState

/-- The first assertion that does not hold. -/
def broken (t : AssertionTest) : Option Check := t.checks.find? fun c => !decide c.assertion.Holds

/-- Every assertion of the test holds. -/
abbrev Passes (t : AssertionTest) : Prop := ∀ c ∈ t.checks, c.assertion.Holds

/-- What the test leaves as its message. -/
def message (p : Platform) (output : BitVec 32) (t : AssertionTest) : Option CString :=
  t.broken.elim none fun c => (c.texts p output).foldl vcmockaPrintError none

theorem passes_iff (t : AssertionTest) : t.Passes ↔ t.broken = none := by
  simp only [Passes, broken, List.find?_eq_none, Bool.not_eq_true', Bool.not_eq_false,
    decide_eq_true_eq]

/-- The script of the test function. -/
theorem script_eq (p : Platform) (output : BitVec 32) (t : AssertionTest) :
    t.text.script p output =
      match t.broken with
      | none => ⟨[], .ret 0⟩
      | some c => ⟨(c.assertion.error p output).map .printError, .fail c.file c.line⟩ := by
  rw [TestText.script, text, broken]
  dsimp only
  induction t.checks with
  | nil => rfl
  | cons c checks ih =>
      rw [List.map_cons, scriptOf, List.find?_cons]
      by_cases hc : c.assertion.Holds
      · rw [if_pos hc, decide_eq_true hc]
        exact ih
      · rw [if_neg hc, decide_eq_false hc]
        rfl

end AssertionTest

/-! ### Between tests -/

/-- The state between two callbacks, with the blocks of `t` live and a message. -/
structure Between (t : BlockTable) (p : Platform) (output : BitVec 32) (message : Option CString)
    (s : Globals) : Prop where
  has : s.Has t
  platform : s.platform = p
  output : s.output = output
  skip : s.globalSkipTest = false
  stop : s.globalStopTest = false
  message : s.cmErrorMessage = message

/-- The leak check finds nothing if nothing was allocated. -/
theorem failIfBlocksAllocated_none {s : Globals} {t : BlockTable} (hs : s.Has t)
    (testName : CString) :
    failIfBlocksAllocated ((nodesOf s.platform t.live).getLastD .head) testName s =
      .ok () (s.withHeap s.globalAllocatedBlocks.getAllocatedBlocksList) := by
  obtain ⟨hrep, -, -⟩ := hs.getAllocatedBlocksList
  obtain ⟨cell, hcell, hnext⟩ := hrep.cell_at (List.append_nil _).symm
  have hdisplay : displayAllocatedBlocks ((nodesOf s.platform t.live).getLastD .head) s =
      .ok 0 (s.withHeap s.globalAllocatedBlocks.getAllocatedBlocksList) := by
    rw [displayAllocatedBlocks, bind_of_ok (modify_apply _ _), bind_of_ok (get_apply _)]
    dsimp only
    rw [hcell]
    dsimp only
    rw [hnext]
    rfl
  rw [failIfBlocksAllocated, bind_of_ok hdisplay]
  rfl

/-- Nothing is left over if nothing was expected. -/
theorem failIfLeftoverValues_none {s : Globals} (hr : s.globalFunctionResultMap = [])
    (hp : s.globalFunctionParameterMap = []) (hc : s.globalCallOrdering = []) :
    failIfLeftoverValues s = .ok () s := by
  obtain ⟨⟩ := s
  cases hr
  cases hp
  cases hc
  rw [failIfLeftoverValues, hasLeftoverValues]
  simp only [bind_apply, leftoverResults_apply, leftoverParameters_apply, leftoverCalls_apply,
    pure_apply]
  simp [Globals.resultsLeft, Globals.parametersLeft, Globals.callsLeft, mapHasLeftover,
    removeAlwaysReturnValues, removeAlwaysReturnValuesFromList, checkForLeftoverValues,
    checkForLeftoverValuesList]

/-! ### One callback -/

/-- The run of the test function. -/
def AssertionTest.invocation (t : AssertionTest) (state : Addr) : Invocation where
  fn := t.addr
  kind := .test
  received := state
  left := state
  ending := if t.Passes then .returned 0 else .jumped .fail
  rc := if t.Passes then 0 else -1

section Callback

variable {bt : BlockTable} {p : Platform} {output : BitVec 32} {s : Globals}

/-- The test function of a test that passes returns to the checks, which find nothing. -/
theorem setjmp_passes (hs : s.Has bt) (hr : s.globalFunctionResultMap = [])
    (hp : s.globalFunctionParameterMap = []) (hc : s.globalCallOrdering = [])
    (functionName : CString) (addr : Addr) :
    setjmp (runCallback functionName ⟨addr, ⟨[], .ret 0⟩⟩ .test
        ((nodesOf s.platform bt.live).getLastD .head)) runAfterLongjmp s =
      .ok (0, .returned 0)
        { s with
          trace := s.trace ++ [.enter addr s.snapshot]
          globalAllocatedBlocks := s.globalAllocatedBlocks.getAllocatedBlocksList
          globalRunningTest := false } := by
  have hleak := failIfBlocksAllocated_none (s := s.calling ⟨addr, ⟨[], .ret 0⟩⟩) hs functionName
  have hleft := failIfLeftoverValues_none
    (s := (s.calling ⟨addr, ⟨[], .ret 0⟩⟩).withHeap
      s.globalAllocatedBlocks.getAllocatedBlocksList) hr hp hc
  have hbody : runCallback functionName ⟨addr, ⟨[], .ret 0⟩⟩ .test
      ((nodesOf s.platform bt.live).getLastD .head) s = .ok (0, .returned 0) _ :=
    (bind_of_ok hleak _).trans (bind_of_ok hleft _)
  rw [setjmp, hbody]
  rfl

/-- The test function of a test that fails jumps out of its first broken assertion. -/
theorem setjmp_fails (hstop : s.globalStopTest = false) (hexit : s.exitOf .fail = .longjmp .fail)
    (functionName : CString) (addr : Addr) (checkPoint : BlockNode) (c : Check) :
    setjmp (runCallback functionName
        ⟨addr, ⟨(c.assertion.error s.platform s.output).map .printError, .fail c.file c.line⟩⟩ .test
        checkPoint) runAfterLongjmp s =
      .ok (-1, .jumped .fail)
        { s.asked.printed (c.texts s.platform s.output) with
          trace := s.trace ++ [.enter addr s.snapshot]
          globalRunningTest := false } := by
  have hscript := printed_fail_apply (c.assertion.error s.platform s.output) c.file c.line
    (s.calling ⟨addr, ⟨(c.assertion.error s.platform s.output).map .printError,
      .fail c.file c.line⟩⟩)
  rw [show Globals.exitOf (Globals.calling _ _) .fail = _ from hexit] at hscript
  have hbody : runCallback functionName ⟨addr, ⟨(c.assertion.error s.platform s.output).map
      .printError, .fail c.file c.line⟩⟩ .test checkPoint s = .error (.longjmp .fail) _ :=
    bind_of_error hscript _
  rw [setjmp, hbody]
  dsimp only
  rw [runAfterLongjmp, bind_of_ok (modify_apply _ _), bind_of_ok (get_apply _)]
  exact congrFun (if_neg (ne_true_of_eq_false hstop)) _

/-- **A run of the test function.** -/
theorem runOne_assertionTest (h : Between bt p output none s) (habort : p.abortTest = false)
    (functionName : CString) (t : AssertionTest) (state : Addr) :
    ∃ s', cmockaRunOneTestOrFixture functionName (t.unitTest p output).testFunc none none state none
        s = .ok ⟨if t.Passes then 0 else -1, state, some (t.invocation state)⟩ s' ∧
      Between bt p output (t.message p output) s' ∧
      s'.trace = s.trace ++
        [.enter t.addr runningSnapshot, .leave (t.invocation state) idleSnapshot] := by
  obtain ⟨hhas, rfl, rfl, hskip, hstop, hmessage⟩ := h
  obtain ⟨hkept, -, -⟩ := hhas.getAllocatedBlocksList
  -- the state in which the function starts
  obtain ⟨s₀, hs₀⟩ : ∃ s₀, (s.withHeap s.globalAllocatedBlocks.getAllocatedBlocksList).entering
      state = s₀ := ⟨_, rfl⟩
  have hsnapshot : s₀.snapshot = runningSnapshot := by
    rw [← hs₀]
    exact entering_snapshot (refl_of Inert _) hstop
  have hhas₀ : s₀.Has bt := by
    rw [← hs₀]
    exact hkept
  have hexit : s₀.exitOf .fail = .longjmp .fail := by
    rw [← hs₀, Globals.exitOf, if_neg]
    · rfl
    · rw [Bool.and_eq_true, not_and]
      exact fun _ => ne_true_of_eq_false habort
  have hsame : s₀.platform = s.platform ∧ s₀.output = s.output := by
    rw [← hs₀]
    exact ⟨rfl, rfl⟩
  rw [runOne_eq]
  dsimp only
  rw [bind_of_ok (checkPointAllocatedBlocks_eq hhas), runFrom_apply, hs₀, AssertionTest.unitTest,
    runUnderSetjmp_eq rfl, t.script_eq, AssertionTest.invocation, AssertionTest.message,
    ← hsame.1, ← hsame.2]
  cases hb : t.broken with
  | none =>
      have hpass : t.Passes := t.passes_iff.mpr hb
      dsimp only
      rw [setjmp_passes hhas₀ (by rw [← hs₀]; rfl) (by rw [← hs₀]; rfl) (by rw [← hs₀]; rfl),
        hsnapshot]
      simp only [if_pos hpass]
      have hidle := tearDown_snapshot (s := { s₀ with
        trace := s₀.trace ++ [.enter t.addr runningSnapshot]
        globalAllocatedBlocks := s₀.globalAllocatedBlocks.getAllocatedBlocksList
        globalRunningTest := false }) rfl (by rw [← hs₀]; exact hstop)
      rw [hidle, hsame.1, hsame.2]
      obtain ⟨hkept₀, -, -⟩ := hhas₀.getAllocatedBlocksList
      subst hs₀
      refine ⟨_, rfl, ⟨hkept₀, rfl, rfl, hskip, hstop, hmessage⟩, ?_⟩
      exact (congrArg (· ++ [_]) (List.append_nil _)).trans (List.append_assoc _ _ _)
  | some c =>
      have hfail : ¬t.Passes := fun hpass => by
        rw [t.passes_iff, hb] at hpass
        cases hpass
      dsimp only
      rw [setjmp_fails (by rw [← hs₀]; exact hstop) hexit, hsnapshot]
      simp only [if_neg hfail]
      have hidle := tearDown_snapshot (s := { s₀.asked.printed (c.texts s₀.platform s₀.output) with
        trace := s₀.trace ++ [.enter t.addr runningSnapshot]
        globalRunningTest := false }) rfl (by rw [← hs₀]; exact hstop)
      rw [hidle]
      subst hs₀
      refine ⟨_, rfl, ⟨hhas₀, rfl, asked_output _, hskip, hstop, ?_⟩, ?_⟩
      · exact congrArg (List.foldl vcmockaPrintError · _) hmessage
      · exact (congrArg (· ++ [_]) (List.append_nil _)).trans (List.append_assoc _ _ _)

end Callback

/-! ### One test -/

namespace AssertionTest

/-- The status of the test. -/
def status (t : AssertionTest) : CMUnitTestStatus := if t.Passes then .passed else .failed

/-- The record of the test after it was run. -/
def finished (p : Platform) (output : BitVec 32) (t : AssertionTest) : CMUnitTestState where
  checkPoint := none
  test := t.unitTest p output
  state := t.initialState
  errorMessage := t.message p output
  status := t.status

/-- The callbacks of the test. -/
def testRecord (t : AssertionTest) : TestRecord where
  setup := none
  test := some (t.invocation t.initialState)
  teardown := none
  status := t.status

/-- What is recorded of a run of the test, the `n`-th of its group. -/
def events (p : Platform) (output : BitVec 32) (n : Nat) (t : AssertionTest) : List Event :=
  [.cmprintf .testStart n t.name none, .enter t.addr runningSnapshot,
    .leave (t.invocation t.initialState) idleSnapshot, .testDone t.testRecord,
    .cmprintf (if t.Passes then .testSuccess else .testFailure) n t.name (t.message p output)]

end AssertionTest

section Run

variable {bt : BlockTable} {p : Platform} {output : BitVec 32} {s : Globals}

theorem between_record {message : Option CString} (h : Between bt p output message s)
    (events : List Event) :
    Between bt p output message { s with trace := s.trace ++ events } :=
  ⟨h.has, h.platform, h.output, h.skip, h.stop, h.message⟩

/-- **One test.** -/
theorem runOneTests_assertionTest (h : Between bt p output none s) (habort : p.abortTest = false)
    (t : AssertionTest) :
    ∃ s', cmockaRunOneTests { t.finished p output with errorMessage := none, status := .notStarted }
        s = .ok (0, t.finished p output) s' ∧
      Between bt p output none s' ∧
      s'.trace = s.trace ++ [.enter t.addr runningSnapshot,
        .leave (t.invocation t.initialState) idleSnapshot, .testDone t.testRecord] := by
  obtain ⟨s₁, hrun, h₁, htrace⟩ :=
    runOne_assertionTest h habort (t.unitTest p output).nameText t t.initialState
  have hbody : runTestBody { t.finished p output with errorMessage := none, status := .notStarted }
      s = .ok ({ t.finished p output with errorMessage := none },
        some (t.invocation t.initialState)) s₁ := by
    refine (bind_of_ok hrun _).trans ?_
    rw [AssertionTest.finished, AssertionTest.status]
    by_cases hpass : t.Passes
    · simp only [if_pos hpass]
      rfl
    · simp only [if_neg hpass]
      exact congrFun (if_neg (ne_true_of_eq_false h₁.skip)) _
  have hall : cmockaRunOneTests { t.finished p output with
      errorMessage := none, status := .notStarted } s =
      .ok (0, { t.finished p output with errorMessage := s₁.cmErrorMessage }) _ :=
    bind_of_ok hbody _
  rw [h₁.message] at hall
  refine ⟨_, hall, ⟨h₁.has, h₁.platform, h₁.output, h₁.skip, h₁.stop, rfl⟩, ?_⟩
  refine (congrArg (· ++ [_]) htrace).trans ?_
  rw [List.append_assoc]
  rfl

/-- The report on the test and its counter. -/
theorem countTest_finished (p : Platform) (output : BitVec 32) (n : Nat) (t : AssertionTest)
    (totals : Totals) (s : Globals) :
    countTest n 0 (t.finished p output) totals s = .ok
      { totals with
        executed := totals.executed + 1
        passed := totals.passed + if t.Passes then 1 else 0
        failed := totals.failed + if t.Passes then 0 else 1 }
      { s with trace := s.trace ++ [.cmprintf (if t.Passes then .testSuccess else .testFailure) n
        t.name (t.message p output)] } := by
  rw [countTest, if_pos rfl, AssertionTest.finished, AssertionTest.status]
  by_cases hpass : t.Passes
  · simp only [if_pos hpass]
    rfl
  · simp only [if_neg hpass]
    rfl

/-- **The loop over the tests.** -/
theorem runTests_assertionTests (h : Between bt p output none s) (habort : p.abortTest = false)
    (tests : List AssertionTest) (n : Nat) (totals : Totals) :
    ∃ s', runTests 0 (tests.map (AssertionTest.unitTest p output)) n totals s = .ok
        ({ totals with
            executed := totals.executed + tests.length
            passed := totals.passed + tests.countP (·.Passes)
            failed := totals.failed + tests.countP (¬·.Passes) },
          tests.map (AssertionTest.finished p output)) s' ∧
      Between bt p output none s' ∧
      s'.trace = s.trace ++
        (tests.zipIdx n).flatMap fun e => e.1.events p output e.2 := by
  induction tests generalizing s n totals with
  | nil => exact ⟨s, rfl, h, (List.append_nil _).symm⟩
  | cons t tests ih =>
      obtain ⟨s₁, hone, h₁, htrace₁⟩ := runOneTests_assertionTest
        (between_record h [.cmprintf .testStart n t.name none]) habort t
      have hcount := countTest_finished p output n t totals s₁
      obtain ⟨s', hrest, h', htrace'⟩ := ih (between_record h₁ [.cmprintf
        (if t.Passes then .testSuccess else .testFailure) n t.name (t.message p output)]) (n + 1)
        { totals with
          executed := totals.executed + 1
          passed := totals.passed + if t.Passes then 1 else 0
          failed := totals.failed + if t.Passes then 0 else 1 }
      refine ⟨s', ?_, h', ?_⟩
      · rw [List.map_cons, runTests]
        refine (bind_of_ok rfl _).trans ((bind_of_ok hone _).trans ?_)
        refine (bind_of_ok hcount _).trans ((bind_of_ok hrest _).trans ?_)
        simp only [List.length_cons, List.countP_cons, List.map_cons, decide_not, Bool.not_eq_true',
          decide_eq_true_eq, decide_eq_false_iff_not, ite_not, Nat.add_assoc, Nat.add_comm 1,
          Nat.add_comm (ite _ _ _)]
        rfl
      · rw [htrace', List.zipIdx_cons, List.flatMap_cons]
        simp [htrace₁, AssertionTest.events]

/-- **A group of tests that make assertions**: each selected test is run, whatever the others do;
it fails exactly if one of its assertions does not hold; and the number of failed tests is
returned. -/
theorem run_assertionTests (h : Between bt p output none s) (habort : p.abortTest = false)
    (groupName : CString) (tests : List AssertionTest) :
    let selected := tests.filter fun t =>
      isSelected s.globalTestFilterPattern s.globalSkipFilterPattern (t.unitTest p output)
    ∃ s', cmockaRunGroupTests groupName (tests.map (AssertionTest.unitTest p output)) none none true
        s = .ok (toCInt (selected.countP (¬·.Passes))) s' ∧
      Between bt p output none s' ∧
      s'.trace = s.trace ++ .groupStart groupName selected.length ::
        ((selected.zipIdx 1).flatMap fun e => e.1.events p output e.2) ++
        [.groupFinish groupName selected.length (selected.countP (·.Passes))
          (selected.countP (¬·.Passes)) 0 0
          (selected.map fun t => (t.name, t.status, t.message p output))] := by
  intro selected
  obtain ⟨hhas, hplatform, hout, hskip, hstop, hmessage⟩ := h
  obtain ⟨hkept, -, -⟩ := hhas.getAllocatedBlocksList
  have hselected : (tests.map (AssertionTest.unitTest p output)).filter
      (isSelected s.globalTestFilterPattern s.globalSkipFilterPattern) =
      selected.map (AssertionTest.unitTest p output) := List.filter_map
  obtain ⟨s₁, hrun, h₁, htrace⟩ := runTests_assertionTests (s := { s with
      globalAllocatedBlocks := s.globalAllocatedBlocks.getAllocatedBlocksList
      trace := s.trace ++ [.groupStart groupName selected.length] })
    ⟨hkept, hplatform, hout, hskip, hstop, hmessage⟩ habort selected 1 ⟨0, 0, 0, 0, 0⟩
  -- nothing is left allocated at the end either
  obtain ⟨s₂, hs₂⟩ : ∃ s₂ : Globals, { s₁ with
    trace := s₁.trace ++ [.groupFinish groupName selected.length (selected.countP (·.Passes))
      (selected.countP (¬·.Passes)) 0 0
      (selected.map fun t => (t.name, t.status, t.message p output))] } = s₂ := ⟨_, rfl⟩
  have h₂ : Between bt p output none s₂ := hs₂ ▸ between_record h₁ _
  have hleak := failIfBlocksAllocated_none h₂.has "cmocka_group_tests".toList
  obtain ⟨hkept₂, -, -⟩ := h₂.has.getAllocatedBlocksList
  rw [h₂.platform] at hleak
  rw [cmockaRunGroupTests, bind_of_ok (checkPointAllocatedBlocks_eq hhas)]
  dsimp only
  rw [if_neg (by decide), bind_of_ok (get_apply _), hplatform]
  dsimp only [Globals.withHeap]
  rw [hselected, List.length_map]
  refine ⟨s₂.withHeap s₂.globalAllocatedBlocks.getAllocatedBlocksList,
    (bind_of_ok rfl _).trans ((bind_of_ok rfl _).trans ?_),
    ⟨hkept₂, h₂.platform, h₂.output, h₂.skip, h₂.stop, h₂.message⟩, ?_⟩
  · dsimp only
    rw [if_pos rfl]
    refine (bind_of_ok hrun _).trans ((bind_of_ok rfl _).trans ((bind_of_ok rfl _).trans ?_))
    dsimp only
    simp only [Nat.zero_add, List.map_map]
    refine (congrArg _ hs₂).trans ?_
    exact (bind_of_ok hleak _).trans rfl
  · rw [← hs₂]
    simp [Globals.withHeap, htrace]

end Run

/-- A process is between callbacks when it starts. -/
theorem between_initial (p : Platform) :
    Between .empty p (Globals.initial p).output none (.initial p) :=
  ⟨represents_zeroed p, rfl, rfl, rfl, rfl, rfl⟩

/-- Two tests, the first of which asserts that one is two. -/
def oneIsTwo : List AssertionTest :=
  [{ name := "one".toList, addr := 0x400000, initialState := 0,
     checks := [⟨.intNotEqual 1 2, "t.c".toList, 6⟩, ⟨.intEqual 1 2, "t.c".toList, 7⟩] },
   { name := "two".toList, addr := 0x400100, initialState := 0,
     checks := [⟨.memoryEqual 2 #v[5, 6] #v[5, 6], "t.c".toList, 8⟩] }]

theorem run_oneIsTwo :
    ∃ s', cmockaRunGroupTests "g".toList (oneIsTwo.map (AssertionTest.unitTest .lp64 1)) none none
        true (.initial .lp64) = .ok 1 s' ∧
      s'.trace.getLast? = some (.groupFinish "g".toList 2 1 1 0 0
        [("one".toList, .failed,
          some "1 != 2\n[   LINE   ] --- t.c:7: error: Failure!".toList),
         ("two".toList, .passed, none)]) := by
  have hstart : Between .empty .lp64 1 none (.initial .lp64) := between_initial .lp64
  obtain ⟨s', hrun, -, htrace⟩ := run_assertionTests hstart rfl "g".toList oneIsTwo
  refine ⟨s', hrun.trans (congrArg (EStateM.Result.ok · s') (by decide +kernel)), ?_⟩
  refine (congrArg List.getLast? htrace).trans ?_
  decide +kernel

end Cmocka
