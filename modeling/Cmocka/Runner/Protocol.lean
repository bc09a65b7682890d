import Cmocka.Runner.Callback

/-!
# Runner — the callbacks of a test and of a group

What the runner does, in terms of the runs of callbacks it is made of: `TestRun` for one test,
`TestsRun` for the loop over the tests and `GroupRun` for a group.  They say which callbacks run,
with which state, and what becomes of the skip flag, the status and the counters; the calls inside
the callbacks do not appear.  Each function of the runner, when it returns, is such a run
(`cmockaRunOneTests_run`, `runTests_run`, `group_run`).
-/

namespace Cmocka

open Runs

/-! ### States between callbacks -/

/-- From one state between callbacks to a later one. -/
structure Steps (s s' : Globals) (skip : Bool) (events : List Event) : Prop where
  idle : s'.snapshot = idleSnapshot
  platform : s'.platform = s.platform
  testFilter : s'.globalTestFilterPattern = s.globalTestFilterPattern
  skipFilter : s'.globalSkipFilterPattern = s.globalSkipFilterPattern
  skip : s'.globalSkipTest = skip
  trace : s'.trace = s.trace ++ events

/-- Two stretches of a run, one behind the other. -/
theorem Steps.trans {s s₁ s₂ : Globals} {skip₁ skip₂ : Bool} {events₁ events₂ : List Event}
    (h : Steps s s₁ skip₁ events₁) (h' : Steps s₁ s₂ skip₂ events₂) :
    Steps s s₂ skip₂ (events₁ ++ events₂) :=
  ⟨h'.idle, h'.platform.trans h.platform, h'.testFilter.trans h.testFilter,
    h'.skipFilter.trans h.skipFilter, h'.skip, by rw [h'.trace, h.trace, List.append_assoc]⟩

/-- Nothing happened. -/
theorem steps_refl {s : Globals} (h : s.snapshot = idleSnapshot) :
    Steps s s s.globalSkipTest [] := ⟨h, rfl, rfl, rfl, rfl, by simp⟩

theorem Inert.snapshot_eq {s s' : Globals} (h : Inert s s') : s'.snapshot = s.snapshot := by
  obtain ⟨_, _, _, _, rfl⟩ := h
  rfl

/-- What only prints and allocates is nothing here. -/
theorem Inert.steps {s s' : Globals} (h : Inert s s') (hs : s.snapshot = idleSnapshot) :
    Steps s s' s.globalSkipTest [] :=
  ⟨h.snapshot_eq.trans hs, h.quiet.platform, h.quiet.testFilter, h.quiet.skipFilter, h.quiet.skip,
    by simpa using h.trace_eq⟩

/-- Printing afterwards. -/
theorem Steps.inert {s s₁ s₂ : Globals} {skip : Bool} {events : List Event}
    (h : Steps s s₁ skip events) (hi : Inert s₁ s₂) : Steps s s₂ skip events := by
  have h' := h.trans (hi.steps h.idle)
  rwa [h.skip, List.append_nil] at h'

/-- Events of the runner afterwards. -/
theorem Steps.record {s s₁ : Globals} {skip : Bool} {events : List Event}
    (h : Steps s s₁ skip events) (more : List Event) :
    Steps s { s₁ with trace := s₁.trace ++ more } skip (events ++ more) :=
  { h with trace := by rw [h.trace, List.append_assoc] }

/-- No `stop()` is pending between callbacks. -/
theorem stop_of_idle {s : Globals} (h : s.snapshot = idleSnapshot) : s.globalStopTest = false :=
  congrArg Snapshot.globalStopTest h

/-- The callback of a run ended by `skip()`. -/
def CallbackRun.skipped (run : CallbackRun) : Bool := run.invocation.any (·.ending.skipped)

/-- **A callback** takes the runner from one idle state to the next. -/
theorem RunSpec.steps {callback : Option (UserFn × CallbackKind)} {state : Addr} {s s' : Globals}
    {run : CallbackRun} (h : RunSpec callback state s run s') :
    ∃ events, RunEvents callback state run events ∧
      Steps s s' (s.globalSkipTest || run.skipped) events := by
  obtain ⟨events, htr, he⟩ := h.trace
  exact ⟨events, he, h.snapshot, h.platform, h.testFilter, h.skipFilter, h.skip, htr⟩

/-! ### One test -/

/-- The callbacks of a test that are not `NULL`, each with its kind. -/
def CMUnitTest.setup (t : CMUnitTest) : Option (UserFn × CallbackKind) :=
  t.setupFunc.map (·, .setup)

@[inherit_doc CMUnitTest.setup]
def CMUnitTest.body (t : CMUnitTest) : Option (UserFn × CallbackKind) :=
  t.testFunc.map (·, .test)

@[inherit_doc CMUnitTest.setup]
def CMUnitTest.teardown (t : CMUnitTest) : Option (UserFn × CallbackKind) :=
  t.teardownFunc.map (·, .teardown)

/-- The status after the test function, with the skip flag as it is then. -/
def bodyStatus (skip : Bool) (rc : Int) : CMUnitTestStatus :=
  if rc = 0 then .passed else if skip then .skipped else .failed

/-- The status after the teardown. -/
def finalStatus (status : CMUnitTestStatus) (teardownRc : Int) : CMUnitTestStatus :=
  if teardownRc = 0 then status else .error

/-- A run of one test: the record, the `rc` of `cmocka_run_one_tests`, the skip flag after it, and
the events. -/
inductive TestRun (t : CMUnitTest) (state : Addr) (skip : Bool) :
    TestRecord → Int → Bool → List Event → Prop where
  | setupFailed {run : CallbackRun} {events : List Event}
      (hrun : RunEvents t.setup state run events) (hrc : run.rc ≠ 0) :
      TestRun t state skip ⟨run.invocation, none, none, .error⟩ run.rc (skip || run.skipped) events
  | ran {setup body teardown : CallbackRun} {events₁ events₂ events₃ : List Event}
      (hsetup : RunEvents t.setup state setup events₁) (hrc : setup.rc = 0)
      (hbody : RunEvents t.body setup.state body events₂)
      (hteardown : RunEvents t.teardown body.state teardown events₃) :
      TestRun t state skip
        ⟨setup.invocation, body.invocation, teardown.invocation,
          finalStatus (bodyStatus (skip || setup.skipped || body.skipped) body.rc) teardown.rc⟩
        teardown.rc
        ((decide (body.rc = 0) && (skip || setup.skipped || body.skipped)) || teardown.skipped)
        (events₁ ++ events₂ ++ events₃)

theorem theCallback_test (f : Option UserFn) :
    theCallback f none none = f.map (·, .test) := by cases f <;> rfl

/-- The setup of a test. -/
theorem runTestSetup_run {ts ts' : CMUnitTestState} {s s' : Globals} {rc : Int}
    {i : Option Invocation} (hs : s.snapshot = idleSnapshot)
    (h : runTestSetup ts s = .ok (rc, ts', i) s') :
    ∃ run events, RunEvents ts.test.setup ts.state run events ∧
      Steps s s' (s.globalSkipTest || run.skipped) events ∧ rc = run.rc ∧ i = run.invocation ∧
      ts'.test = ts.test ∧ ts'.state = run.state ∧ (run.rc ≠ 0 → ts'.status = .error) := by
  cases hf : ts.test.setupFunc with
  | none =>
      simp only [runTestSetup, hf, pure_apply] at h
      cases h
      refine ⟨⟨0, ts.state, none⟩, [], ?_, ?_, rfl, rfl, rfl, rfl, fun h => absurd rfl h⟩
      · rw [CMUnitTest.setup, hf]
        exact .absent ts.state
      · simpa [CallbackRun.skipped] using steps_refl hs
  | some f =>
      simp only [runTestSetup, hf] at h
      obtain ⟨checkPoint, s₁, h₁, h⟩ := bind_eq_ok.mp h
      obtain ⟨run, s₂, h₂, h⟩ := bind_eq_ok.mp h
      have hi := prints_checkPointAllocatedBlocks.ok h₁
      have hs₁ := hi.snapshot_eq.trans hs
      obtain ⟨events, he, hsteps⟩ := (runOne_spec (stop_of_idle hs₁) h₂).steps
      have hall := (hi.steps hs).trans hsteps
      rw [hi.quiet.skip, List.nil_append] at hall
      refine ⟨run, events, ?_, ?_⟩
      · rw [CMUnitTest.setup, hf]
        exact he
      · by_cases hrc : run.rc = 0
        · simp only [hrc, ne_eq, not_true_eq_false, if_false, pure_apply] at h
          cases h
          exact ⟨hall, hrc.symm, rfl, rfl, rfl, fun h => absurd hrc h⟩
        · simp only [hrc, ne_eq, not_false_eq_true, if_true] at h
          obtain ⟨_, s₃, h₃, h⟩ := bind_eq_ok.mp h
          cases h
          exact ⟨hall.inert ((prints_cmockaPrintError _).ok h₃), rfl, rfl, rfl, rfl, fun _ => rfl⟩

/-- The test function; its status is decided by `rc` and the skip flag. -/
theorem runTestBody_run {ts ts' : CMUnitTestState} {s s' : Globals} {i : Option Invocation}
    (hs : s.snapshot = idleSnapshot) (h : runTestBody ts s = .ok (ts', i) s') :
    ∃ run events, RunEvents ts.test.body ts.state run events ∧
      Steps s s' (decide (run.rc = 0) && (s.globalSkipTest || run.skipped)) events ∧
      i = run.invocation ∧ ts'.test = ts.test ∧ ts'.state = run.state ∧
      ts'.status = bodyStatus (s.globalSkipTest || run.skipped) run.rc := by
  obtain ⟨run, s₁, h₁, h⟩ := bind_eq_ok.mp h
  obtain ⟨events, he, hsteps⟩ := (runOne_spec (stop_of_idle hs) h₁).steps
  rw [theCallback_test] at he
  refine ⟨run, events, he, ?_⟩
  by_cases hrc : run.rc = 0
  · simp only [hrc, if_true, pure_apply] at h
    cases h
    exact ⟨by simpa [hrc] using hsteps, rfl, rfl, rfl, by simp [bodyStatus, hrc]⟩
  · simp only [hrc, if_false] at h
    obtain ⟨_, s₂, h₂, h⟩ := bind_eq_ok.mp h
    cases h₂
    cases hskip : s₁.globalSkipTest with
    | false =>
        simp only [hskip, Bool.false_eq_true, if_false, pure_apply] at h
        cases h
        have hk := hsteps.skip.symm.trans hskip
        refine ⟨{ hsteps with skip := by simp [hrc, hskip] }, rfl, rfl, rfl, ?_⟩
        simp [bodyStatus, hrc, hk]
    | true =>
        simp only [hskip, if_true] at h
        cases h
        have hk := hsteps.skip.symm.trans hskip
        refine ⟨⟨hsteps.idle, hsteps.platform, hsteps.testFilter, hsteps.skipFilter,
          by simp [hrc], hsteps.trace⟩, rfl, rfl, rfl, ?_⟩
        simp [bodyStatus, hrc, hk]

/-- The teardown of a test. -/
theorem runTestTeardown_run {ts ts' : CMUnitTestState} {s s' : Globals} {rc : Int}
    {i : Option Invocation} (hs : s.snapshot = idleSnapshot)
    (h : runTestTeardown ts s = .ok (rc, ts', i) s') :
    ∃ run events, RunEvents ts.test.teardown ts.state run events ∧
      Steps s s' (s.globalSkipTest || run.skipped) events ∧ rc = run.rc ∧ i = run.invocation ∧
      ts'.test = ts.test ∧ ts'.status = finalStatus ts.status run.rc := by
  cases hf : ts.test.teardownFunc with
  | none =>
      simp only [runTestTeardown, hf, pure_apply] at h
      cases h
      refine ⟨⟨0, ts.state, none⟩, [], ?_, ?_, rfl, rfl, rfl, rfl⟩
      · rw [CMUnitTest.teardown, hf]
        exact .absent ts.state
      · simpa [CallbackRun.skipped] using steps_refl hs
  | some f =>
      simp only [runTestTeardown, hf] at h
      obtain ⟨run, s₁, h₁, h⟩ := bind_eq_ok.mp h
      obtain ⟨events, he, hsteps⟩ := (runOne_spec (stop_of_idle hs) h₁).steps
      refine ⟨run, events, ?_, ?_⟩
      · rw [CMUnitTest.teardown, hf]
        exact he
      · by_cases hrc : run.rc = 0
        · simp only [hrc, ne_eq, not_true_eq_false, if_false, pure_apply] at h
          cases h
          exact ⟨hsteps, hrc.symm, rfl, rfl, by simp [finalStatus, hrc]⟩
        · simp only [hrc, ne_eq, not_false_eq_true, if_true] at h
          obtain ⟨_, s₂, h₂, h⟩ := bind_eq_ok.mp h
          cases h
          exact ⟨hsteps.inert ((prints_cmockaPrintError _).ok h₂), rfl, rfl, rfl,
            by simp [finalStatus, hrc]⟩

/-- The record of a test. -/
theorem finishTest_run {ts ts' : CMUnitTestState} {s s' : Globals}
    {setup test teardown : Option Invocation} (hs : s.snapshot = idleSnapshot)
    (h : finishTest ts setup test teardown s = .ok ts' s') :
    Steps s s' s.globalSkipTest [.testDone { setup, test, teardown, status := ts.status }] ∧
      ts'.test = ts.test ∧ ts'.status = ts.status := by
  obtain ⟨_, s₁, h₁, h⟩ := bind_eq_ok.mp h
  cases h₁
  cases h
  exact ⟨⟨hs, rfl, rfl, rfl, rfl, rfl⟩, rfl, rfl⟩

/-- **`cmocka_run_one_tests` runs a test.** -/
theorem cmockaRunOneTests_run {ts ts' : CMUnitTestState} {s s' : Globals} {rc : Int}
    (hs : s.snapshot = idleSnapshot) (h : cmockaRunOneTests ts s = .ok (rc, ts') s') :
    ∃ record skip events, TestRun ts.test ts.state s.globalSkipTest record rc skip events ∧
      Steps s s' skip (events ++ [.testDone record]) ∧ ts'.test = ts.test ∧
      ts'.status = record.status := by
  obtain ⟨⟨rc₁, ts₁, i₁⟩, s₁, h₁, h⟩ := bind_eq_ok.mp h
  obtain ⟨setup, events₁, he₁, hst₁, rfl, rfl, ht₁, hstate₁, herr⟩ := runTestSetup_run hs h₁
  by_cases hrc : setup.rc = 0
  · simp only [hrc, if_true] at h
    obtain ⟨⟨ts₂, i₂⟩, s₂, h₂, h⟩ := bind_eq_ok.mp h
    obtain ⟨body, events₂, he₂, hst₂, rfl, ht₂, hstate₂, hstatus₂⟩ := runTestBody_run hst₁.idle h₂
    obtain ⟨⟨rc₃, ts₃, i₃⟩, s₃, h₃, h⟩ := bind_eq_ok.mp h
    obtain ⟨teardown, events₃, he₃, hst₃, rfl, rfl, ht₃, hstatus₃⟩ :=
      runTestTeardown_run hst₂.idle h₃
    obtain ⟨ts₄, s₄, h₄, h⟩ := bind_eq_ok.mp h
    cases h
    obtain ⟨hst₄, ht₄, hstatus₄⟩ := finishTest_run hst₃.idle h₄
    rw [ht₁, hstate₁] at he₂
    rw [ht₂, ht₁, hstate₂] at he₃
    have hall := ((hst₁.trans hst₂).trans hst₃).trans hst₄
    rw [hst₃.skip, hst₂.skip, hst₁.skip] at hall
    rw [hst₁.skip] at hstatus₂
    rw [hstatus₂] at hstatus₃
    refine ⟨_, _, _, .ran he₁ hrc he₂ he₃, ?_, by rw [ht₄, ht₃, ht₂, ht₁], ?_⟩
    · rw [hstatus₃] at hall
      exact hall
    · rw [hstatus₄, hstatus₃]
  · simp only [hrc, if_false] at h
    obtain ⟨ts₂, s₂, h₂, h⟩ := bind_eq_ok.mp h
    cases h
    obtain ⟨hst₂, ht₂, hstatus₂⟩ := finishTest_run hst₁.idle h₂
    rw [herr hrc] at hst₂ hstatus₂
    have hall := hst₁.trans hst₂
    rw [hst₁.skip] at hall
    exact ⟨_, _, _, .setupFailed he₁ hrc, hall, by rw [ht₂, ht₁], hstatus₂⟩

/-! ### The loop over the tests -/

/-- An event of the reports of a group. -/
def Event.isReport : Event → Bool
  | .groupStart .. | .cmprintf .. | .printError .. | .groupFinish .. => true
  | _ => false

/-- The report of the default branch of the status switch. -/
def Event.isInternalError : Event → Bool
  | .cmprintf .testError _ _ (some message) => message == "Internal cmocka error".toList
  | _ => false

/-- The counter a finished test goes to. -/
def Totals.count (totals : Totals) (rc : Int) (status : CMUnitTestStatus) : Totals :=
  let totals := { totals with executed := totals.executed + 1 }
  if rc = 0 then
    match status with
    | .passed => { totals with passed := totals.passed + 1 }
    | .skipped => { totals with skipped := totals.skipped + 1 }
    | .failed => { totals with failed := totals.failed + 1 }
    | _ => { totals with errors := totals.errors + 1 }
  else { totals with errors := totals.errors + 1 }

/-- The report on a finished test. -/
def testReport (testNumber : Nat) (rc : Int) (ts : CMUnitTestState) : Event :=
  if rc = 0 then
    match ts.status with
    | .passed => .cmprintf .testSuccess testNumber ts.test.nameText ts.errorMessage
    | .skipped => .cmprintf .testSkipped testNumber ts.test.nameText ts.errorMessage
    | .failed => .cmprintf .testFailure testNumber ts.test.nameText ts.errorMessage
    | _ => .cmprintf .testError testNumber ts.test.nameText (some "Internal cmocka error".toList)
  else .cmprintf .testError testNumber ts.test.nameText
    (some (("Could not run test: ".toList ++ fmtS ts.errorMessage).take 2047))

/-- The reports on the tests of a group, with the `rc` of each. -/
def testReports : Nat → List (CMUnitTestState × Int) → List Event
  | _, [] => []
  | testNumber, (ts, rc) :: rest =>
      .cmprintf .testStart testNumber ts.test.nameText none :: testReport testNumber rc ts ::
        testReports (testNumber + 1) rest

theorem testReport_isReport (testNumber : Nat) (rc : Int) (ts : CMUnitTestState) :
    (testReport testNumber rc ts).isReport = true := by
  unfold testReport
  split
  · split <;> rfl
  · rfl

/-- The report on a test and the counter it goes to. -/
theorem countTest_run {testNumber : Nat} {rc : Int} {ts : CMUnitTestState} {totals totals' : Totals}
    {s s' : Globals} (h : countTest testNumber rc ts totals s = .ok totals' s') :
    totals' = totals.count rc ts.status ∧
      s' = { s with trace := s.trace ++ [testReport testNumber rc ts] } := by
  by_cases hrc : rc = 0
  · simp only [countTest, Totals.count, testReport, hrc, if_true] at h ⊢
    cases hst : ts.status <;> simp only [hst] at h ⊢ <;> cases h <;> exact ⟨rfl, rfl⟩
  · simp only [countTest, Totals.count, testReport, hrc, if_false] at h ⊢
    cases h
    exact ⟨rfl, rfl⟩

/-- A run of the loop: the record and the `rc` of each test, and the skip flag after it. -/
inductive TestsRun (groupState : Addr) : List CMUnitTest → Bool → List (TestRecord × Int) → Bool →
    List Event → Prop where
  | nil (skip : Bool) : TestsRun groupState [] skip [] skip []
  | cons {t : CMUnitTest} {rest : List CMUnitTest} {skip skip₁ skip₂ : Bool} {record : TestRecord}
      {rc : Int} {records : List (TestRecord × Int)} {events events' : List Event}
      {start finish : Event} (hstart : start.isReport = true) (hfinish : finish.isReport = true)
      (ht : TestRun t (initialTestState groupState t) skip record rc skip₁ events)
      (hrest : TestsRun groupState rest skip₁ records skip₂ events') :
      TestsRun groupState (t :: rest) skip ((record, rc) :: records) skip₂
        (start :: events ++ [.testDone record, finish] ++ events')

/-- The counters after some tests. -/
def Totals.countAll (totals : Totals) (records : List (TestRecord × Int)) : Totals :=
  records.foldl (fun totals r => totals.count r.2 r.1.status) totals

/-- A callback reports nothing. -/
theorem RunEvents.noReports {callback : Option (UserFn × CallbackKind)} {state : Addr}
    {run : CallbackRun} {events : List Event} (h : RunEvents callback state run events) :
    events.filter Event.isReport = [] := by
  refine List.filter_eq_nil_iff.mpr fun e he => ?_
  cases h with
  | absent => cases he
  | run f kind state i calls hfn hkind hreceived hi hcalls =>
      simp only [List.cons_append, List.mem_cons, List.mem_append, List.not_mem_nil,
        or_false] at he
      rcases he with rfl | he | rfl
      · exact Bool.false_ne_true
      · have hcall := hcalls e he
        cases e <;> first | exact Bool.false_ne_true | exact absurd hcall Bool.false_ne_true
      · exact Bool.false_ne_true

/-- Nor does a test; the loop over the tests does. -/
theorem TestRun.noReports {t : CMUnitTest} {state : Addr} {skip skip' : Bool}
    {record : TestRecord} {rc : Int} {events : List Event}
    (h : TestRun t state skip record rc skip' events) : events.filter Event.isReport = [] := by
  cases h with
  | setupFailed hrun hrc => exact hrun.noReports
  | ran hsetup hrc hbody hteardown =>
      simp only [List.filter_append, hsetup.noReports, hbody.noReports, hteardown.noReports,
        List.append_nil]

/-- **The loop runs its tests**, reports on each and counts it. -/
theorem runTests_run {groupState : Addr} {tests : List CMUnitTest} {testNumber : Nat}
    {totals totals' : Totals} {done : List CMUnitTestState} {s s' : Globals}
    (hs : s.snapshot = idleSnapshot)
    (h : runTests groupState tests testNumber totals s = .ok (totals', done) s') :
    ∃ records skip events, TestsRun groupState tests s.globalSkipTest records skip events ∧
      Steps s s' skip events ∧ totals' = totals.countAll records ∧
      done.map CMUnitTestState.test = tests ∧
      done.map CMUnitTestState.status = records.map (·.1.status) ∧
      events.filter Event.isReport = testReports testNumber (done.zip (records.map Prod.snd)) := by
  induction tests generalizing testNumber totals totals' done s s' with
  | nil =>
      cases h
      exact ⟨[], _, [], .nil _, steps_refl hs, rfl, rfl, rfl, rfl⟩
  | cons t rest ih =>
      obtain ⟨_, s₀, h₀, h⟩ := bind_eq_ok.mp h
      cases h₀
      obtain ⟨⟨rc, ts⟩, s₁, h₁, h⟩ := bind_eq_ok.mp h
      obtain ⟨record, skip₁, events, hrun, hst₁, htest, hstatus⟩ :=
        cmockaRunOneTests_run (by exact hs) h₁
      obtain ⟨totals₁, s₂, h₂, h⟩ := bind_eq_ok.mp h
      obtain ⟨rfl, rfl⟩ := countTest_run h₂
      obtain ⟨⟨totals₂, done₂⟩, s₃, h₃, h⟩ := bind_eq_ok.mp h
      cases h
      obtain ⟨records, skip₂, events', hrest, hst₃, rfl, htests, hstatuses, hreports⟩ :=
        ih (by exact hst₁.idle) h₃
      -- the skip flag the next test starts from is the one this test left
      let finish := testReport testNumber rc ts
      have hskip : (({ s₁ with trace := s₁.trace ++ [finish] } : Globals)).globalSkipTest = skip₁ :=
        hst₁.skip
      rw [hskip] at hrest
      let start : Event := .cmprintf .testStart testNumber t.nameText none
      have hstart : start.isReport = true := rfl
      have hfinish : finish.isReport = true := testReport_isReport testNumber rc ts
      have ht : ts.test = t := htest
      refine ⟨(record, rc) :: records, skip₂, _, .cons hstart hfinish hrun hrest, ?_, ?_, ?_, ?_, ?_⟩
      · have hall := ((steps_refl hs).record [start]).trans ((hst₁.record [finish]).trans hst₃)
        simpa using hall
      · rw [hstatus]
        rfl
      · rw [List.map_cons, ht, htests]
      · rw [List.map_cons, List.map_cons, hstatus, hstatuses]
      · have hdone : (Event.testDone record).isReport = false := rfl
        simp only [List.filter_append, List.filter_cons, hstart, hfinish, hdone, hrun.noReports,
          hreports, if_true, Bool.false_eq_true, if_false, List.filter_nil, List.map_cons,
          List.zip_cons_cons, testReports, ht]
        rfl

/-! ### A group -/

/-- A run of a group over its selected tests: the runs of the group fixtures, the records of the
tests, the skip flag after it and the events. -/
inductive GroupRun (selected : List CMUnitTest) (groupSetup groupTeardown : Option UserFn)
    (skip : Bool) : CallbackRun → List (TestRecord × Int) → CallbackRun → Bool → List Event → Prop
    where
  | ran {setup teardown : CallbackRun} {records : List (TestRecord × Int)} {skip₁ : Bool}
      {events₁ events₂ events₃ before after : List Event}
      (hbefore : ∀ e ∈ before, e.isReport = true) (hafter : ∀ e ∈ after, e.isReport = true)
      (hsetup : RunEvents (groupSetup.map (·, .setup)) 0 setup events₁) (hrc : setup.rc = 0)
      (htests : TestsRun setup.state selected (skip || setup.skipped) records skip₁ events₂)
      (hteardown : RunEvents (groupTeardown.map (·, .teardown)) setup.state teardown events₃) :
      GroupRun selected groupSetup groupTeardown skip setup records teardown
        (skip₁ || teardown.skipped) (before ++ events₁ ++ events₂ ++ events₃ ++ after)
  | setupFailed {setup teardown : CallbackRun} {events₁ events₃ before between after : List Event}
      (hbefore : ∀ e ∈ before, e.isReport = true) (hbetween : ∀ e ∈ between, e.isReport = true)
      (hafter : ∀ e ∈ after, e.isReport = true)
      (hsetup : RunEvents (groupSetup.map (·, .setup)) 0 setup events₁) (hrc : setup.rc ≠ 0)
      (hteardown : RunEvents (groupTeardown.map (·, .teardown)) setup.state teardown events₃) :
      GroupRun selected groupSetup groupTeardown skip setup [] teardown
        (skip || setup.skipped || teardown.skipped)
        (before ++ events₁ ++ between ++ events₃ ++ after)

/-- The counters of a group. -/
def groupTotals (setupRc : Int) (records : List (TestRecord × Int)) : Totals :=
  if setupRc = 0 then Totals.countAll ⟨0, 0, 0, 0, 0⟩ records else ⟨0, 0, 0, 1, 0⟩

/-- One more event. -/
theorem record_run {event : Event} {s s' : Globals} {u : Unit} (hs : s.snapshot = idleSnapshot)
    (h : record [event] s = .ok u s') :
    ∃ event', event' = event ∧ Steps s s' s.globalSkipTest [event'] := by
  cases h
  exact ⟨event, rfl, (steps_refl hs).record [event]⟩

theorem forall_mem_snoc {reports : List Event} (h : ∀ e ∈ reports, e.isReport = true)
    {report : Event} (hr : report.isReport = true) :
    ∀ e ∈ reports ++ [report], e.isReport = true := by
  intro e he
  rcases List.mem_append.mp he with he | he
  · exact h e he
  · rw [List.mem_singleton.mp he]
    exact hr

/-- The report on a fixture of the group. -/
theorem reportGroupFixture_run {groupName text : CString} {s s' : Globals} {u : Unit}
    (htext : text ≠ "Internal cmocka error".toList) (hs : s.snapshot = idleSnapshot)
    (h : reportGroupFixture groupName text s = .ok u s') :
    ∃ reports, (∀ e ∈ reports, Event.isReport e = true) ∧
      (∀ e ∈ reports, Event.isInternalError e = false) ∧
      Steps s s' s.globalSkipTest reports := by
  obtain ⟨_, s₁, h₁, h⟩ := bind_eq_ok.mp h
  cases h₁
  have hlast : (Event.cmprintf .testError 0 groupName (some text)).isInternalError = false :=
    beq_eq_false_iff_ne.mpr htext
  cases hm : s.cmErrorMessage with
  | none =>
      simp only [hm] at h
      cases h
      exact ⟨[_], by simp [Event.isReport], by simpa using hlast, (steps_refl hs).record _⟩
  | some message =>
      simp only [hm] at h
      cases h
      refine ⟨[.printError ("[  ERROR   ] --- ".toList ++ message ++ "\n".toList),
        .cmprintf .testError 0 groupName (some text)], by simp [Event.isReport], ?_,
        ⟨hs, rfl, rfl, rfl, rfl, ?_⟩⟩
      · rw [List.forall_mem_cons, List.forall_mem_singleton]
        exact ⟨rfl, hlast⟩
      · simp

/-- The group setup. -/
theorem runGroupSetup_run {groupSetup : Option UserFn} {groupCheckPoint : BlockNode}
    {s s' : Globals} {rc : Int} {groupState : Addr} (hs : s.snapshot = idleSnapshot)
    (h : runGroupSetup groupSetup groupCheckPoint s = .ok (rc, groupState) s') :
    ∃ run events, RunEvents (groupSetup.map (·, .setup)) 0 run events ∧
      Steps s s' (s.globalSkipTest || run.skipped) events ∧ rc = run.rc ∧
      groupState = run.state := by
  cases groupSetup with
  | none =>
      cases h
      refine ⟨⟨0, 0, none⟩, [], .absent 0, ?_, rfl, rfl⟩
      simpa [CallbackRun.skipped] using steps_refl hs
  | some f =>
      obtain ⟨run, s₁, h₁, h⟩ := bind_eq_ok.mp h
      cases h
      rw [cmockaRunGroupFixture] at h₁
      obtain ⟨events, he, hsteps⟩ := (runOne_spec (stop_of_idle hs) h₁).steps
      exact ⟨run, events, he, hsteps, rfl, rfl⟩

/-- The group teardown, with the report on its failure. -/
theorem runGroupTeardown_run {groupName : CString} {groupTeardown : Option UserFn}
    {groupState : Addr} {groupCheckPoint : BlockNode} {s s' : Globals} {u : Unit}
    (hs : s.snapshot = idleSnapshot)
    (h : runGroupTeardown groupName groupTeardown groupState groupCheckPoint s = .ok u s') :
    ∃ run events reports, RunEvents (groupTeardown.map (·, .teardown)) groupState run events ∧
      Steps s s' (s.globalSkipTest || run.skipped) (events ++ reports) ∧
      (∀ e ∈ reports, Event.isReport e = true) ∧
      (∀ e ∈ reports, Event.isInternalError e = false) ∧ (run.rc = 0 → reports = []) := by
  cases groupTeardown with
  | none =>
      cases h
      refine ⟨⟨0, groupState, none⟩, [], [], .absent groupState, ?_, by simp, by simp, fun _ => rfl⟩
      simpa [CallbackRun.skipped] using steps_refl hs
  | some f =>
      obtain ⟨run, s₁, h₁, h⟩ := bind_eq_ok.mp h
      rw [cmockaRunGroupFixture] at h₁
      obtain ⟨events, he, hsteps⟩ := (runOne_spec (stop_of_idle hs) h₁).steps
      by_cases hrc : run.rc = 0
      · simp only [hrc, ne_eq, not_true_eq_false, if_false] at h
        cases h
        exact ⟨run, events, [], he, by simpa using hsteps, by simp, by simp, fun _ => rfl⟩
      · simp only [hrc, ne_eq, not_false_eq_true, if_true] at h
        obtain ⟨reports, hreports, hint, hst⟩ :=
          reportGroupFixture_run (by decide +kernel) hsteps.idle h
        have hall := hsteps.trans hst
        rw [hsteps.skip] at hall
        exact ⟨run, events, reports, he, hall, hreports, hint, fun h => absurd h hrc⟩

/-- `_cmocka_run_group_tests` between its check point and its own leak check. -/
def runGroupBody (groupName : CString) (tests : List CMUnitTest)
    (groupSetup groupTeardown : Option UserFn) (groupCheckPoint : BlockNode) : CM Totals := do
  let s ← get
  let selected := tests.filter (isSelected s.globalTestFilterPattern s.globalSkipFilterPattern)
  record [.groupStart groupName selected.length]
  let (rc, groupState) ← runGroupSetup groupSetup groupCheckPoint
  let (totals, done) ←
    if rc = 0 then runTests groupState selected 1 ⟨0, 0, 0, 0, 0⟩
    else do
      reportGroupFixture groupName "[  FAILED  ] GROUP SETUP".toList
      pure (⟨0, 0, 0, 1, 0⟩, selected.map CMUnitTestState.ofTest)
  runGroupTeardown groupName groupTeardown groupState groupCheckPoint
  record [.groupFinish groupName totals.executed totals.passed totals.failed totals.errors
    totals.skipped (done.map fun ts => (ts.test.nameText, ts.status, ts.errorMessage))]
  return totals

/-- A group is its body between the check point and the search for leaks. -/
theorem cmockaRunGroupTests_eq (groupName : CString) (tests : List CMUnitTest)
    (groupSetup groupTeardown : Option UserFn) (allocated : Bool) :
    cmockaRunGroupTests groupName tests groupSetup groupTeardown allocated = (do
      let groupCheckPoint ← checkPointAllocatedBlocks
      if !allocated then return -1
      let totals ← runGroupBody groupName tests groupSetup groupTeardown groupCheckPoint
      failIfBlocksAllocated groupCheckPoint "cmocka_group_tests".toList
      return toCInt (totals.failed + totals.errors)) := by
  cases allocated with
  | false => rfl
  | true =>
      simp only [cmockaRunGroupTests, runGroupBody, bind_assoc, pure_bind]
      refine bind_congr fun groupCheckPoint => ?_
      simp only [Bool.not_true, Bool.false_eq_true, if_false]
      refine bind_congr fun s => bind_congr fun _ => bind_congr fun setup => ?_
      -- the continuation stands in both branches
      split <;> simp only [bind_assoc, pure_bind]

/-- The reports of a group over its selected tests, and the arrays and counters they are made of:
the plan, the reports on the tests or on the failed group setup, the reports on a failed group
teardown, and the summary. -/
def GroupReports (groupName : CString) (selected : List CMUnitTest) (setup : CallbackRun)
    (records : List (TestRecord × Int)) (teardown : CallbackRun) (totals : Totals)
    (events : List Event) : Prop :=
  ∃ (done : List CMUnitTestState) (between reports : List Event), events.filter Event.isReport =
      .groupStart groupName selected.length :: between ++ reports ++
        [.groupFinish groupName totals.executed totals.passed totals.failed totals.errors
          totals.skipped (done.map fun ts => (ts.test.nameText, ts.status, ts.errorMessage))] ∧
    done.map CMUnitTestState.test = selected ∧
    (setup.rc = 0 → done.map CMUnitTestState.status = records.map (·.1.status) ∧
      between = testReports 1 (done.zip (records.map Prod.snd))) ∧
    (∀ e ∈ reports, e.isInternalError = false) ∧ (teardown.rc = 0 → reports = [])

theorem filter_reports {reports : List Event} (h : ∀ e ∈ reports, e.isReport = true) :
    reports.filter Event.isReport = reports := List.filter_eq_self.mpr h

/-- **A group runs its fixtures and its tests**, and reports on them. -/
theorem runGroupBody_run {groupName : CString} {tests : List CMUnitTest}
    {groupSetup groupTeardown : Option UserFn} {groupCheckPoint : BlockNode} {s s' : Globals}
    {totals : Totals} (hs : s.snapshot = idleSnapshot)
    (h : runGroupBody groupName tests groupSetup groupTeardown groupCheckPoint s = .ok totals s') :
    ∃ setup records teardown skip events,
      GroupRun (tests.filter (isSelected s.globalTestFilterPattern s.globalSkipFilterPattern))
        groupSetup groupTeardown s.globalSkipTest setup records teardown skip events ∧
      Steps s s' skip events ∧ totals = groupTotals setup.rc records ∧
      GroupReports groupName
        (tests.filter (isSelected s.globalTestFilterPattern s.globalSkipFilterPattern)) setup records
        teardown totals events := by
  obtain ⟨_, s₀, h₀, h⟩ := bind_eq_ok.mp h
  cases h₀
  obtain ⟨_, s₁, h₁, h⟩ := bind_eq_ok.mp h
  obtain ⟨start, hstart, hst₁⟩ := record_run hs h₁
  have hbefore : ∀ e ∈ [start], Event.isReport e = true := by simp [hstart, Event.isReport]
  obtain ⟨⟨rc, groupState⟩, s₂, h₂, h⟩ := bind_eq_ok.mp h
  obtain ⟨setup, events₁, he₁, hst₂, rfl, rfl⟩ := runGroupSetup_run hst₁.idle h₂
  rw [hst₁.skip] at hst₂
  have hpre := hst₁.trans hst₂
  by_cases hrc : setup.rc = 0
  · -- the group setup succeeded, and the tests run
    simp only [hrc, if_true] at h
    obtain ⟨⟨totals', done⟩, s₃, h₃, h⟩ := bind_eq_ok.mp h
    obtain ⟨records, skip₁, events₂, hrun, hst₃, rfl, htests, hstatuses, hbetween⟩ :=
      runTests_run hst₂.idle h₃
    obtain ⟨_, s₄, h₄, h⟩ := bind_eq_ok.mp h
    obtain ⟨teardown, events₃, reports, he₃, hst₄, hreports, hint, hnone⟩ :=
      runGroupTeardown_run hst₃.idle h₄
    obtain ⟨_, s₅, h₅, h⟩ := bind_eq_ok.mp h
    obtain ⟨finish, hfinish, hst₅⟩ := record_run hst₄.idle h₅
    have hafter := forall_mem_snoc hreports (show finish.isReport = true by rw [hfinish]; rfl)
    cases h
    rw [hst₂.skip] at hrun
    rw [hst₃.skip] at hst₄
    rw [hst₄.skip] at hst₅
    refine ⟨setup, records, teardown, _, _,
      .ran hbefore hafter he₁ hrc hrun he₃, ?_, ?_, ?_⟩
    · simpa using ((hpre.trans hst₃).trans hst₄).trans hst₅
    · simp [groupTotals, hrc]
    · refine ⟨done, _, reports, ?_, htests, fun _ => ⟨hstatuses, rfl⟩, hint, hnone⟩
      rw [List.filter_append, List.filter_append, List.filter_append, List.filter_append,
        filter_reports hbefore, he₁.noReports, hbetween, he₃.noReports, filter_reports hafter,
        hstart, hfinish]
      simp
  · -- it failed: no test runs, and the group teardown does all the same
    simp only [hrc, if_false] at h
    obtain ⟨_, s₃, h₃, h⟩ := bind_eq_ok.mp h
    obtain ⟨between, hbetween, -, hst₃⟩ := reportGroupFixture_run (by decide +kernel) hst₂.idle h₃
    obtain ⟨_, s₃', hp, h⟩ := bind_eq_ok.mp h
    cases hp
    obtain ⟨_, s₄, h₄, h⟩ := bind_eq_ok.mp h
    obtain ⟨teardown, events₃, reports, he₃, hst₄, hreports, hint, hnone⟩ :=
      runGroupTeardown_run hst₃.idle h₄
    obtain ⟨_, s₅, h₅, h⟩ := bind_eq_ok.mp h
    obtain ⟨finish, hfinish, hst₅⟩ := record_run hst₄.idle h₅
    have hafter := forall_mem_snoc hreports (show finish.isReport = true by rw [hfinish]; rfl)
    cases h
    rw [hst₂.skip] at hst₃
    rw [hst₃.skip] at hst₄
    rw [hst₄.skip] at hst₅
    refine ⟨setup, [], teardown, _, _,
      .setupFailed hbefore hbetween hafter he₁ hrc he₃, ?_, ?_, ?_⟩
    · simpa using ((hpre.trans hst₃).trans hst₄).trans hst₅
    · simp [groupTotals, hrc]
    · refine ⟨(tests.filter (isSelected s.globalTestFilterPattern s.globalSkipFilterPattern)).map
        CMUnitTestState.ofTest, between, reports, ?_, ?_, fun h => absurd h hrc, hint, hnone⟩
      · rw [List.filter_append, List.filter_append, List.filter_append, List.filter_append,
          filter_reports hbefore, he₁.noReports, filter_reports hbetween, he₃.noReports,
          filter_reports hafter, hstart, hfinish]
        simp
      · simp [CMUnitTestState.ofTest, Function.comp_def]

end Cmocka
