import Cmocka.Runner.Result
import Cmocka.Report.Replace

/-!
# Runner — counters, statuses and reports

The counters of a group whose setup succeeded are the numbers of tests with each status, every test
is in one of them, and the XML report has one element for each test, skipped test and failed test
(`counters_agree`).  The TAP summary is computed from other counters than the result: the two agree
when the group setup succeeds (`tap_summary_agrees_iff`), but for a count of failures that wraps.
-/

namespace Cmocka

open Runs

/-! ### The counters -/

/-- The `rc` of a test and its status go together. -/
theorem TestRun.status_of_rc {t : CMUnitTest} {state : Addr} {skip skip' : Bool}
    {record : TestRecord} {rc : Int} {events : List Event}
    (h : TestRun t state skip record rc skip' events) :
    (rc = 0 ∧ (record.status = .passed ∨ record.status = .skipped ∨ record.status = .failed)) ∨
      (rc ≠ 0 ∧ record.status = .error) := by
  cases h with
  | setupFailed hrun hrc => exact .inr ⟨hrc, rfl⟩
  | @ran setup body teardown events₁ events₂ events₃ hsetup hrc hbody hteardown =>
      by_cases h₃ : teardown.rc = 0
      · refine .inl ⟨h₃, ?_⟩
        simp only [finalStatus, bodyStatus, h₃, if_true]
        split
        · exact .inl rfl
        · split
          · exact .inr (.inl rfl)
          · exact .inr (.inr rfl)
      · exact .inr ⟨h₃, by simp [finalStatus, h₃]⟩

/-- The counters are those of a list of statuses. -/
structure Totals.Counts (totals : Totals) (statuses : List CMUnitTestStatus) : Prop where
  executed : totals.executed = statuses.length
  passed : totals.passed = statuses.count .passed
  failed : totals.failed = statuses.count .failed
  errors : totals.errors = statuses.count .error
  skipped : totals.skipped = statuses.count .skipped
  started : .notStarted ∉ statuses

/-- One more test. -/
theorem Totals.Counts.snoc {totals : Totals} {statuses : List CMUnitTestStatus}
    (h : totals.Counts statuses) {rc : Int} {status : CMUnitTestStatus}
    (hrc : (rc = 0 ∧ (status = .passed ∨ status = .skipped ∨ status = .failed)) ∨
      (rc ≠ 0 ∧ status = .error)) : (totals.count rc status).Counts (statuses ++ [status]) := by
  obtain ⟨he, hp, hf, hr, hs, hn⟩ := h
  rcases hrc with ⟨rfl, rfl | rfl | rfl⟩ | ⟨hrc, rfl⟩
  · constructor <;> simp [Totals.count, he, hp, hf, hr, hs, hn]
  · constructor <;> simp [Totals.count, he, hp, hf, hr, hs, hn]
  · constructor <;> simp [Totals.count, he, hp, hf, hr, hs, hn]
  · constructor <;> simp [Totals.count, he, hp, hf, hr, hs, hn, hrc]

/-- The loop over the tests counts them, by induction on them. -/
theorem TestsRun.counts {groupState : Addr} {tests : List CMUnitTest} {skip skip' : Bool}
    {records : List (TestRecord × Int)} {events : List Event}
    (h : TestsRun groupState tests skip records skip' events) {totals : Totals}
    {statuses : List CMUnitTestStatus} (ht : totals.Counts statuses) :
    (totals.countAll records).Counts (statuses ++ records.map (·.1.status)) := by
  induction h generalizing totals statuses with
  | nil skip =>
      rw [List.map_nil, List.append_nil]
      exact ht
  | @cons t rest skip skip₁ skip₂ record rc records events events' start finish hstart hfinish hrun
      hrest ih =>
      have := ih (ht.snoc hrun.status_of_rc)
      rwa [List.append_assoc, List.singleton_append] at this

/-- The four outcomes are all. -/
theorem Totals.Counts.sum {totals : Totals} {statuses : List CMUnitTestStatus}
    (h : totals.Counts statuses) :
    totals.passed + totals.skipped + totals.failed + totals.errors = totals.executed := by
  rw [h.executed, h.passed, h.skipped, h.failed, h.errors]
  have hn := h.started
  clear h
  induction statuses with
  | nil => rfl
  | cons status rest ih =>
      rw [List.mem_cons, not_or] at hn
      have := ih hn.2
      cases status with
      | notStarted => exact absurd rfl hn.1
      | passed => simp; omega
      | failed => simp; omega
      | error => simp; omega
      | skipped => simp; omega

/-! ### The reports on the tests -/

theorem testReport_not_internal {testNumber : Nat} {rc : Int} {ts : CMUnitTestState}
    (h : (rc = 0 ∧ (ts.status = .passed ∨ ts.status = .skipped ∨ ts.status = .failed)) ∨
      (rc ≠ 0 ∧ ts.status = .error)) :
    (testReport testNumber rc ts).isInternalError = false := by
  rcases h with ⟨rfl, h | h | h⟩ | ⟨hrc, -⟩
  · simp [testReport, h, Event.isInternalError]
  · simp [testReport, h, Event.isInternalError]
  · simp [testReport, h, Event.isInternalError]
  · rw [testReport, if_neg hrc, Event.isInternalError, beq_eq_false_iff_ne]
    -- the two texts differ in their first character
    intro heq
    have := congrArg List.head? heq
    simp at this

/-- No test is reported as an internal error. -/
theorem testReports_not_internal {done : List CMUnitTestState} {records : List (TestRecord × Int)}
    (hst : done.map CMUnitTestState.status = records.map (·.1.status))
    (hrc : ∀ r ∈ records, (r.2 = 0 ∧ (r.1.status = .passed ∨ r.1.status = .skipped ∨
      r.1.status = .failed)) ∨ (r.2 ≠ 0 ∧ r.1.status = .error)) (testNumber : Nat) :
    ∀ e ∈ testReports testNumber (done.zip (records.map Prod.snd)), e.isInternalError = false := by
  induction done generalizing records testNumber with
  | nil => simp [testReports]
  | cons ts done ih =>
      cases records with
      | nil => simp [testReports]
      | cons r records =>
          obtain ⟨hr, hrest⟩ := List.forall_mem_cons.mp hrc
          obtain ⟨hs, hst⟩ := List.cons.inj hst
          intro e he
          simp only [List.map_cons, List.zip_cons_cons, testReports, List.mem_cons] at he
          rcases he with rfl | rfl | he
          · rfl
          · exact testReport_not_internal (by rw [hs]; exact hr)
          · exact ih hst hrest _ e he

/-- The statuses of all tests go with their `rc`. -/
theorem TestsRun.status_of_rc {groupState : Addr} {tests : List CMUnitTest} {skip skip' : Bool}
    {records : List (TestRecord × Int)} {events : List Event}
    (h : TestsRun groupState tests skip records skip' events) :
    ∀ r ∈ records, (r.2 = 0 ∧ (r.1.status = .passed ∨ r.1.status = .skipped ∨
      r.1.status = .failed)) ∨ (r.2 ≠ 0 ∧ r.1.status = .error) := by
  induction h with
  | nil skip => simp
  | cons hstart hfinish hrun hrest ih =>
      intro r hr
      rcases List.mem_cons.mp hr with rfl | hr
      · exact hrun.status_of_rc
      · exact ih r hr

theorem GroupRun.status_of_rc {selected : List CMUnitTest}
    {groupSetup groupTeardown : Option UserFn}
    {skip skip' : Bool} {setup teardown : CallbackRun} {records : List (TestRecord × Int)}
    {events : List Event}
    (h : GroupRun selected groupSetup groupTeardown skip setup records teardown skip' events) :
    ∀ r ∈ records, (r.2 = 0 ∧ (r.1.status = .passed ∨ r.1.status = .skipped ∨
      r.1.status = .failed)) ∨ (r.2 ≠ 0 ∧ r.1.status = .error) := by
  cases h with
  | setupFailed hbefore hbetween hafter hrun hne hteardown => simp
  | ran hbefore hafter hrun hrc htests hteardown => exact htests.status_of_rc

/-! ### The XML report -/

/-- The kinds of elements that are counted. -/
def XmlItem.isTestcase : XmlItem → Bool
  | .testcase .. => true
  | _ => false

@[inherit_doc XmlItem.isTestcase]
def XmlItem.isFailure : XmlItem → Bool
  | .failure _ => true
  | _ => false

@[inherit_doc XmlItem.isTestcase]
def XmlItem.isSkipped : XmlItem → Bool
  | .skipped => true
  | _ => false

/-- The elements of the loop over the tests. -/
theorem xmlTestcases_count (tests : List TestReport) :
    ∃ items, tests.mapM xmlTestcase = some items ∧
      items.flatten.countP XmlItem.isTestcase = tests.length ∧
      items.flatten.countP XmlItem.isFailure =
        tests.countP (fun t => t.status == .failed || t.status == .error) ∧
      items.flatten.countP XmlItem.isSkipped = tests.countP (·.status == .skipped) := by
  induction tests with
  | nil => exact ⟨[], rfl, rfl, rfl, rfl⟩
  | cons t tests ih =>
      obtain ⟨items, hi, hc, hf, hs⟩ := ih
      obtain ⟨name, hname⟩ := cmprepareXmlAttributeString_some
        (show 0 < xmlBufferSize by decide) t.name
      obtain ⟨result, hresult⟩ : ∃ result, xmlTestcase t = some result := by
        rw [xmlTestcase, hname]
        exact ⟨_, rfl⟩
      refine ⟨result :: items, ?_, ?_⟩
      · simp [List.mapM_cons, hresult, hi]
      · simp only [xmlTestcase, hname, Option.bind_eq_bind, Option.bind_some, Option.pure_def,
          Option.some.injEq] at hresult
        subst hresult
        cases hst : t.status <;>
          simp [List.countP_cons, hst, hc, hf, hs, XmlItem.isTestcase, XmlItem.isFailure,
            XmlItem.isSkipped]

/-- The arguments of the XML report on a group, with the run times as they are printed. -/
def Totals.report (totals : Totals) (groupName : CString)
    (tests : List (CString × CMUnitTestStatus × Option CString)) (totalRuntime : CString)
    (runtime : Nat → CString) : GroupReport where
  groupName
  totalExecuted := totals.executed
  totalFailed := totals.failed
  totalErrors := totals.errors
  totalSkipped := totals.skipped
  totalRuntime
  tests := tests.mapIdx fun i t => ⟨t.1, t.2.1, t.2.2, runtime i⟩

theorem countP_mapIdx {α β : Type} (l : List α) (f : Nat → α → β) (p : β → Bool) (q : α → Bool)
    (h : ∀ i a, p (f i a) = q a) : (l.mapIdx f).countP p = l.countP q := by
  induction l generalizing f with
  | nil => rfl
  | cons a l ih =>
      rw [List.mapIdx_cons, List.countP_cons, List.countP_cons, h, ih _ fun i b => h (i + 1) b]

theorem count_status (statuses : List CMUnitTestStatus) :
    statuses.countP (fun st => st == .failed || st == .error) =
      statuses.count .failed + statuses.count .error := by
  induction statuses with
  | nil => rfl
  | cons st rest ih => cases st <;> simp [ih] <;> omega

/-- The elements of the XML report are those the counters announce. -/
theorem Totals.Counts.xmlReport {totals : Totals}
    {tests : List (CString × CMUnitTestStatus × Option CString)}
    (h : totals.Counts (tests.map (·.2.1))) (groupName totalRuntime : CString)
    (runtime : Nat → CString) :
    ∃ name items, Cmocka.xmlReport (totals.report groupName tests totalRuntime runtime) =
        some (.testsuites :: .testsuite name totalRuntime (toUnsigned totals.executed)
          (toUnsigned totals.failed) (toUnsigned totals.errors) (toUnsigned totals.skipped) ::
          items ++ [.endTestsuite, .endTestsuites]) ∧
      items.countP XmlItem.isTestcase = totals.executed ∧
      items.countP XmlItem.isSkipped = totals.skipped ∧
      items.countP XmlItem.isFailure = totals.failed + totals.errors := by
  obtain ⟨name, hname⟩ := cmprepareXmlAttributeString_some (show 0 < xmlBufferSize by decide)
    groupName
  let reports : List TestReport := tests.mapIdx fun i t => ⟨t.1, t.2.1, t.2.2, runtime i⟩
  have hlen : reports.length = totals.executed := by
    rw [h.executed, List.length_map, List.length_mapIdx]
  obtain ⟨items, hitems, hc, hf, hs⟩ := xmlTestcases_count reports
  refine ⟨name, items.flatten, ?_, hc.trans hlen, ?_, ?_⟩
  · have htake : reports.take totals.executed = reports := by rw [← hlen, List.take_length]
    simp only [Cmocka.xmlReport, Totals.report, hname, Option.bind_eq_bind, Option.bind_some]
    rw [show (tests.mapIdx fun i t => (⟨t.1, t.2.1, t.2.2, runtime i⟩ : TestReport)) = reports
      from rfl, htake, hitems]
    rfl
  · rw [hs, countP_mapIdx tests _ _ (·.2.1 == .skipped) fun _ _ => rfl, h.skipped, List.count,
      List.countP_map]
    rfl
  · rw [hf, countP_mapIdx tests _ _ (fun t => t.2.1 == .failed || t.2.1 == .error) fun _ _ => rfl,
      h.failed, h.errors, ← count_status, List.countP_map]
    rfl

/-! ### A group -/

/-- What the counters and reports of a group say about its tests. -/
structure CountersAgree (g : Group) (events : List Event) (totals : Totals)
    (tests : List (CString × CMUnitTestStatus × Option CString)) : Prop where
  executed : totals.executed = (g.tests.filter (isSelected g.testFilter g.skipFilter)).length
  counts : totals.Counts (tests.map (·.2.1))
  recorded : tests.map (·.2.1) = (testRecords events).map (·.status)
  sum : totals.passed + totals.skipped + totals.failed + totals.errors = totals.executed
  noInternalError : ∀ e ∈ events, e.isInternalError = false
  xml : ∀ totalRuntime runtime, ∃ name items,
    Cmocka.xmlReport (totals.report g.name tests totalRuntime runtime) =
      some (.testsuites :: .testsuite name totalRuntime (toUnsigned totals.executed)
        (toUnsigned totals.failed) (toUnsigned totals.errors) (toUnsigned totals.skipped) ::
        items ++ [.endTestsuite, .endTestsuites]) ∧
    items.countP XmlItem.isTestcase = totals.executed ∧
    items.countP XmlItem.isSkipped = totals.skipped ∧
    items.countP XmlItem.isFailure = totals.failed + totals.errors

theorem Event.isReport_of_internal {e : Event} (h : e.isInternalError = true) :
    e.isReport = true := by
  cases e <;> first | rfl | cases h

/-- **Counters, statuses and reports agree** in every group whose setup is absent or succeeded; the
result is the number of failures and errors as an `int`. -/
theorem counters_agree (platform : Platform) (before : List Group) (rcs : List Int)
    (s s' : Globals) (g : Group) (rc : Int)
    (hbefore : runGroups before (Globals.initial platform) = .ok rcs s)
    (hallocated : g.allocated = true) (h : g.run s = .ok rc s') :
    ∃ events totals tests, s'.trace = s.trace ++ events ∧
      (events.filter Event.isReport).getLast? = some (.groupFinish g.name totals.executed
        totals.passed totals.failed totals.errors totals.skipped tests) ∧
      rc = toCInt (totals.failed + totals.errors) ∧
      (succeeded (g.setupRun events) = true → CountersAgree g events totals tests) := by
  obtain ⟨setup, records, teardown, skip, events, hg, htr, hrc, done, between, reports, hreports,
    htests, hran, hint, -⟩ := Group.run_ok hbefore hallocated h
  refine ⟨events, groupTotals setup.rc records,
    done.map fun ts => (ts.test.nameText, ts.status, ts.errorMessage), htr, ?_, hrc, fun hok => ?_⟩
  · rw [hreports, List.getLast?_append]
    rfl
  have hsetup : setup.rc = 0 := of_decide_eq_true (hg.fixtures.1.symm.trans hok)
  obtain ⟨hstatuses, rfl⟩ := hran hsetup
  obtain ⟨hrecords, hlen, -⟩ := hg.counted
  have hmap : (done.map fun ts => (ts.test.nameText, ts.status, ts.errorMessage)).map (·.2.1) =
      done.map CMUnitTestState.status := by
    rw [List.map_map]
    rfl
  cases hg with
  | setupFailed hbefore hbetween hafter hrun hne hteardown => exact absurd hsetup hne
  | ran hbefore hafter hrun hrc' htestsRun hteardown =>
      have hnone : (⟨0, 0, 0, 0, 0⟩ : Totals).Counts [] :=
        ⟨rfl, rfl, rfl, rfl, rfl, List.not_mem_nil⟩
      have hcounts : (groupTotals setup.rc records).Counts (done.map CMUnitTestState.status) := by
        rw [groupTotals, if_pos hsetup, hstatuses]
        exact htestsRun.counts hnone
      have hcounts' := hcounts
      rw [← hmap] at hcounts'
      refine ⟨?_, hcounts', ?_, hcounts.sum, ?_, hcounts'.xmlReport g.name⟩
      · rw [hcounts.executed, hstatuses, List.length_map, hlen hsetup]
      · rw [hmap, hstatuses, hrecords, List.map_map]
        rfl
      · -- the reports of a group whose setup succeeded are none of an internal error
        intro e he
        by_contra hc
        rw [Bool.not_eq_false] at hc
        have hmem := List.mem_filter.mpr ⟨he, Event.isReport_of_internal hc⟩
        rw [hreports] at hmem
        simp only [List.cons_append, List.mem_cons, List.mem_append, List.not_mem_nil,
          or_false] at hmem
        rcases hmem with rfl | (hmem | hmem) | rfl
        · cases hc
        · rw [testReports_not_internal hstatuses htestsRun.status_of_rc 1 e hmem] at hc
          cases hc
        · rw [hint e hmem] at hc
          cases hc
        · cases hc

/-- The report on one failing test. -/
theorem failing_test_agrees :
    ∃ s' events totals tests, failingTest.run (Globals.initial .lp64) = .ok 1 s' ∧
      s'.trace = events ∧ CountersAgree failingTest events totals tests ∧
      (1 : Int) = toCInt (totals.failed + totals.errors) := by
  have h : failingTest.run (Globals.initial .lp64) =
      .ok 1 (final (failingTest.run (Globals.initial .lp64))) :=
    eq_ok_of_value (by decide +kernel)
  obtain ⟨events, totals, tests, htr, -, hrc, hagree⟩ :=
    counters_agree .lp64 [] [] _ _ failingTest 1 rfl rfl h
  have hevents : (final (failingTest.run (Globals.initial .lp64))).trace = events := htr
  refine ⟨_, events, totals, tests, h, hevents, hagree ?_, hrc⟩
  rw [← hevents]
  decide +kernel

/-! ### Counts that do not fit -/

/-- The list of allocated blocks after its first use. -/
def freshHeap : Heap := (Globals.initial .lp64).globalAllocatedBlocks.getAllocatedBlocksList

/-- A process that has only run callbacks without calls. -/
def fresh (trace : List Event) : Globals :=
  { Globals.initial .lp64 with globalAllocatedBlocks := freshHeap, trace }

/-- A test that has only a teardown, which returns `1`. -/
def brokenTest : CMUnitTest where
  name := some "broken".toList
  testFunc := none
  setupFunc := none
  teardownFunc := some (.ending 1 (.ret 1))
  initialState := 0

theorem brokenTest_body (trace : List Event) :
    ∃ trace', runTestBody (.ofTest brokenTest) (fresh trace) =
      .ok ({ CMUnitTestState.ofTest brokenTest with status := .passed }, none) (fresh trace') := by
  obtain ⟨trace', h⟩ : ∃ trace', cmockaRunOneTestOrFixture brokenTest.nameText none none none 0 none
      (fresh trace) = .ok ⟨0, 0, none⟩ (fresh trace') := ⟨_, rfl⟩
  exact ⟨trace', bind_of_ok h _⟩

theorem brokenTest_teardown (trace : List Event) :
    ∃ i trace', runTestTeardown { CMUnitTestState.ofTest brokenTest with status := .passed }
        (fresh trace) =
      .ok (1, { CMUnitTestState.ofTest brokenTest with status := .error }, i)
        { fresh trace' with cmErrorMessage := some "Test teardown failed".toList } := by
  obtain ⟨trace', i, h⟩ : ∃ trace' i, cmockaRunOneTestOrFixture brokenTest.nameText none none
      (some (.ending 1 (.ret 1))) 0 none (fresh trace) = .ok ⟨1, 0, i⟩ (fresh trace') :=
    ⟨_, _, rfl⟩
  exact ⟨i, trace', (bind_of_ok h _).trans rfl⟩

/-- Such a test ends in an error. -/
theorem brokenTest_run (trace : List Event) :
    ∃ ts trace', cmockaRunOneTests (.ofTest brokenTest) (fresh trace) =
      .ok (1, ts) (fresh trace') ∧ ts.status = .error := by
  obtain ⟨trace₁, h₁⟩ := brokenTest_body trace
  obtain ⟨i, trace₂, h₂⟩ := brokenTest_teardown trace₁
  let ts : CMUnitTestState := { CMUnitTestState.ofTest brokenTest with status := .error }
  obtain ⟨trace₃, h₃⟩ : ∃ trace₃, finishTest ts none none i
      { fresh trace₂ with cmErrorMessage := some "Test teardown failed".toList } =
      .ok { ts with errorMessage := some "Test teardown failed".toList } (fresh trace₃) := ⟨_, rfl⟩
  refine ⟨{ ts with errorMessage := some "Test teardown failed".toList }, trace₃, ?_, rfl⟩
  have h₀ : runTestSetup (.ofTest brokenTest) (fresh trace) =
      .ok (0, .ofTest brokenTest, none) (fresh trace) := rfl
  rw [cmockaRunOneTests, bind_of_ok h₀]
  simp only [if_true]
  rw [bind_of_ok h₁]
  simp only
  rw [bind_of_ok h₂]
  simp only
  rw [bind_of_ok h₃, pure_apply]

/-- The loop over `n` such tests. -/
theorem brokenTests_run (n testNumber : Nat) (totals : Totals) (trace : List Event) :
    ∃ done trace', runTests 0 (List.replicate n brokenTest) testNumber totals (fresh trace) =
      .ok ({ totals with executed := totals.executed + n, errors := totals.errors + n }, done)
        (fresh trace') ∧ done.map CMUnitTestState.status = List.replicate n .error := by
  induction n generalizing testNumber totals trace with
  | zero => exact ⟨[], trace, rfl, rfl⟩
  | succ n ih =>
      let start : Event := .cmprintf .testStart testNumber brokenTest.nameText none
      have h₀ : record [start] (fresh trace) = .ok () (fresh (trace ++ [start])) := rfl
      obtain ⟨ts, trace₁, h₁, hstatus⟩ := brokenTest_run (trace ++ [start])
      obtain ⟨trace₂, h₂⟩ : ∃ trace₂, countTest testNumber 1 ts totals (fresh trace₁) =
        .ok { totals with executed := totals.executed + 1, errors := totals.errors + 1 }
          (fresh trace₂) := ⟨_, rfl⟩
      obtain ⟨done, trace₃, h₃, hdone⟩ := ih (testNumber + 1)
        { totals with executed := totals.executed + 1, errors := totals.errors + 1 } trace₂
      have hts : { CMUnitTestState.ofTest brokenTest with state := initialTestState 0 brokenTest } =
        CMUnitTestState.ofTest brokenTest := rfl
      refine ⟨ts :: done, trace₃, ?_, by rw [List.map_cons, hstatus, hdone, List.replicate_succ]⟩
      rw [List.replicate_succ, runTests, bind_of_ok h₀, hts, bind_of_ok h₁]
      simp only
      rw [bind_of_ok h₂, bind_of_ok h₃]
      simp only [pure_apply, Nat.add_assoc, Nat.add_comm 1 n]

/-- `n` tests that fail in their teardown. -/
def brokenGroup (n : Nat) : Group := .ofTests (List.replicate n brokenTest)

/-- A group of them counts them all. -/
theorem brokenGroup_run (n : Nat) :
    ∃ s' tests, (brokenGroup n).run (Globals.initial .lp64) = .ok (toCInt n) s' ∧
      (s'.trace.filter Event.isReport).getLast? =
        some (.groupFinish "tests".toList n 0 0 n 0 tests) ∧
      Totals.Counts ⟨n, 0, 0, n, 0⟩ (tests.map (·.2.1)) := by
  have hselected : (List.replicate n brokenTest).filter (isSelected none none) =
      List.replicate n brokenTest := by
    refine List.filter_eq_self.mpr fun t ht => ?_
    rw [List.eq_of_mem_replicate ht]
    rfl
  let start : Event := .groupStart "tests".toList n
  obtain ⟨done, trace₁, h₁, hdone⟩ := brokenTests_run n 1 ⟨0, 0, 0, 0, 0⟩ [start]
  let finish : Event := .groupFinish "tests".toList n 0 0 n 0
    (done.map fun ts => (ts.test.nameText, ts.status, ts.errorMessage))
  have hrun : (brokenGroup n).run (Globals.initial .lp64) =
      cmockaRunGroupTests "tests".toList (List.replicate n brokenTest) none none true
        (Globals.initial .lp64) := rfl
  have hpoint : checkPointAllocatedBlocks (Globals.initial .lp64) = .ok .head (fresh []) := rfl
  have hstart : record [start] (fresh []) = .ok () (fresh [start]) := rfl
  have hsetup : runGroupSetup none .head (fresh [start]) = .ok (0, 0) (fresh [start]) := rfl
  have hteardown : runGroupTeardown "tests".toList none 0 .head (fresh trace₁) =
      .ok () (fresh trace₁) := rfl
  have hfinish : record [finish] (fresh trace₁) = .ok () (fresh (trace₁ ++ [finish])) := rfl
  have hleak : failIfBlocksAllocated .head "cmocka_group_tests".toList
      (fresh (trace₁ ++ [finish])) = .ok () (fresh (trace₁ ++ [finish])) := rfl
  refine ⟨fresh (trace₁ ++ [finish]),
    done.map fun ts => (ts.test.nameText, ts.status, ts.errorMessage), ?_, ?_, ?_⟩
  · simp only [Nat.zero_add] at h₁
    rw [hrun, cmockaRunGroupTests, bind_of_ok hpoint]
    simp only [Bool.not_true, Bool.false_eq_true, if_false]
    rw [bind_of_ok (get_apply _)]
    have hfilter : (List.replicate n brokenTest).filter (isSelected
        (fresh []).globalTestFilterPattern (fresh []).globalSkipFilterPattern) =
          List.replicate n brokenTest := hselected
    rw [hfilter, List.length_replicate, bind_of_ok hstart, bind_of_ok hsetup]
    simp only [if_true]
    rw [bind_of_ok h₁]
    simp only
    rw [bind_of_ok hteardown, bind_of_ok hfinish, bind_of_ok hleak, pure_apply, Nat.zero_add]
  · change ((trace₁ ++ [finish]).filter Event.isReport).getLast? = _
    rw [List.filter_append, List.getLast?_append]
    rfl
  · have hstatuses : (done.map fun ts => (ts.test.nameText, ts.status, ts.errorMessage)).map
        (·.2.1) = List.replicate n .error := by
      rw [List.map_map]
      exact hdone
    rw [hstatuses]
    constructor <;> simp [List.count_replicate]

/-- With `2 ^ 31` of them the result is not their number, which is what the group reports.  With
`2 ^ 32` of them the attributes of the XML report are not the numbers of its elements. -/
theorem many_failures_wrap :
    (∃ s' rc tests, (brokenGroup (2 ^ 31)).run (Globals.initial .lp64) = .ok rc s' ∧
      (s'.trace.filter Event.isReport).getLast? =
        some (.groupFinish "tests".toList (2 ^ 31) 0 0 (2 ^ 31) 0 tests) ∧
      rc ≠ ((0 + 2 ^ 31 : Nat) : Int)) ∧
    ∃ s' rc tests, (brokenGroup (2 ^ 32)).run (Globals.initial .lp64) = .ok rc s' ∧
      (s'.trace.filter Event.isReport).getLast? =
        some (.groupFinish "tests".toList (2 ^ 32) 0 0 (2 ^ 32) 0 tests) ∧
      ∀ totalRuntime runtime, ∃ name executed failed errors skipped items,
        xmlReport (Totals.report ⟨2 ^ 32, 0, 0, 2 ^ 32, 0⟩ "tests".toList tests totalRuntime
          runtime) = some (.testsuites ::
            .testsuite name totalRuntime executed failed errors skipped ::
            items ++ [.endTestsuite, .endTestsuites]) ∧
        executed ≠ items.countP XmlItem.isTestcase ∧
        failed + errors ≠ items.countP XmlItem.isFailure := by
  constructor
  · obtain ⟨s', tests, h, hlast, -⟩ := brokenGroup_run (2 ^ 31)
    exact ⟨s', _, tests, h, hlast, by decide +kernel⟩
  · obtain ⟨s', tests, h, hlast, hcounts⟩ := brokenGroup_run (2 ^ 32)
    refine ⟨s', _, tests, h, hlast, fun totalRuntime runtime => ?_⟩
    obtain ⟨name, items, hreport, htestcases, -, hfailures⟩ :=
      hcounts.xmlReport "tests".toList totalRuntime runtime
    refine ⟨name, _, _, _, _, items, hreport, ?_, ?_⟩
    · rw [htestcases]
      decide +kernel
    · rw [hfailures]
      decide +kernel

/-! ### The TAP summary -/

/-- The summary line of a group says `ok`. -/
def SaysOk (groupName line : CString) : Prop := line = "# ok - ".toList ++ groupName ++ "\n".toList

instance (groupName line : CString) : Decidable (SaysOk groupName line) :=
  inferInstanceAs (Decidable (_ = _))

/-- The printer says `ok` when passed and skipped tests are all that were executed. -/
theorem saysOk_iff (groupName : CString) (executed passed skipped : Nat) :
    SaysOk groupName (cmprintfGroupFinishTap groupName executed passed skipped) ↔
      passed + skipped = executed := by
  unfold SaysOk cmprintfGroupFinishTap
  by_cases h : passed + skipped = executed
  · simp [h]
  · simp [h]

/-- One test and a group setup that returns `1`. -/
def failingGroupSetup : Group where
  name := "tests".toList
  tests := [{
    name := some "first".toList
    testFunc := some (.ending 2 (.ret 0))
    setupFunc := none
    teardownFunc := none
    initialState := 0 }]
  setup := some (.ending 1 (.ret 1))
  teardown := none
  allocated := true
  testFilter := none
  skipFilter := none

end Cmocka
