import Cmocka.Runner.Status

/-!
# Runner — the result of a group

`_cmocka_run_group_tests` returns the number of failed tests and errors it counted, as an `int`.
A failed group teardown is reported but goes to no counter, a masked failure is counted as skipped,
and the conversion wraps; apart from these three the result is `0` exactly when everything
succeeded (`result_exact_iff`).
-/

namespace Cmocka

open Runs

/-! ### What a group did -/

/-- The records of the tests of a group. -/
def testRecords (events : List Event) : List TestRecord :=
  events.filterMap fun
    | .testDone r => some r
    | _ => none

/-- The run of the group setup, the first callback of the group. -/
def Group.setupRun (g : Group) (events : List Event) : Option Invocation :=
  if g.setup.isSome then (invocations events).head? else none

/-- The run of the group teardown, the last callback of the group. -/
def Group.teardownRun (g : Group) (events : List Event) : Option Invocation :=
  if g.teardown.isSome then (invocations events).getLast? else none

/-- The test's callbacks succeeded, or its function was skipped by its own `skip()`. -/
def TestRecord.isFine (r : TestRecord) : Bool :=
  succeeded r.setup && (succeeded r.test || endedBySkip r.test) && succeeded r.teardown

/-- Everything in the group succeeded. -/
def Group.Succeeded (g : Group) (events : List Event) : Prop :=
  succeeded (g.setupRun events) = true ∧ (∀ r ∈ testRecords events, r.isFine = true) ∧
    succeeded (g.teardownRun events) = true

instance (g : Group) (events : List Event) : Decidable (g.Succeeded events) :=
  inferInstanceAs (Decidable (_ ∧ _ ∧ _))

/-- The number of failures among the tests that are not masked by a pending `skip()`. -/
def plainFailures : Bool → List TestRecord → Nat
  | _, [] => 0
  | skip, r :: rest =>
      (if r.isFine || (skip && r.bodyFailed) then 0 else 1) +
        plainFailures (r.callbacks.foldl skipAfter skip) rest

/-- The failure of some test is masked by a pending `skip()`. -/
def someMasked : Bool → List TestRecord → Bool
  | _, [] => false
  | skip, r :: rest =>
      skip && r.bodyFailed || someMasked (r.callbacks.foldl skipAfter skip) rest

/-- When the result can be relied on: the group setup fails, or tests fail in plain sight, though
not a multiple of `2 ^ 32` of them, or neither a masked test nor the group teardown fails. -/
def Group.Reliable (g : Group) (skip : Bool) (events : List Event) : Prop :=
  succeeded (g.setupRun events) = false ∨
    plainFailures skip (testRecords events) % 2 ^ 32 ≠ 0 ∨
    plainFailures skip (testRecords events) = 0 ∧ someMasked skip (testRecords events) = false ∧
      succeeded (g.teardownRun events) = true

instance (g : Group) (skip : Bool) (events : List Event) : Decidable (g.Reliable skip events) :=
  inferInstanceAs (Decidable (_ ∨ _ ∨ _))

theorem plainFailures_eq_zero {skip : Bool} {records : List TestRecord}
    (h : plainFailures skip records = 0) :
    (∀ r ∈ records, r.isFine = true) ↔ someMasked skip records = false := by
  induction records generalizing skip with
  | nil => simp [someMasked]
  | cons r rest ih =>
      obtain ⟨h₁, h₂⟩ := Nat.add_eq_zero_iff.mp h
      rw [List.forall_mem_cons, ih h₂, someMasked, Bool.or_eq_false_iff]
      refine and_congr_left fun _ => ?_
      have hor : r.isFine = true ∨ (skip && r.bodyFailed) = true := by
        rw [← Bool.or_eq_true]
        by_contra hc
        simp [hc] at h₁
      -- a test is not both fine and failed
      have hnot : r.isFine = true → r.bodyFailed = false := by
        rw [TestRecord.isFine, TestRecord.bodyFailed]
        cases succeeded r.test <;> cases endedBySkip r.test <;> simp
      constructor
      · intro hf
        simp [hnot hf]
      · intro hm
        exact hor.resolve_right (by simp [hm])

theorem plainFailures_of_fine {records : List TestRecord} (h : ∀ r ∈ records, r.isFine = true)
    (skip : Bool) : plainFailures skip records = 0 := by
  induction records generalizing skip with
  | nil => rfl
  | cons r rest ih =>
      obtain ⟨hr, hrest⟩ := List.forall_mem_cons.mp h
      rw [plainFailures, hr, ih hrest]
      rfl

/-! ### The counters -/

/-- A test is counted as passed or skipped. -/
theorem TestRun.counted {t : CMUnitTest} {state : Addr} {skip skip' : Bool}
    {record : TestRecord} {rc : Int} {events : List Event}
    (h : TestRun t state skip record rc skip' events) :
    (rc = 0 ∧ (record.status = .passed ∨ record.status = .skipped)) ↔
      (record.isFine || (skip && record.bodyFailed)) = true := by
  cases h with
  | @setupFailed run events hrun hrc =>
      have hfail : succeeded run.invocation = false := by
        rw [hrun.rc_eq.1]
        exact decide_eq_false hrc
      have hnone : succeeded none = true := rfl
      simp [TestRecord.isFine, TestRecord.bodyFailed, hnone, hfail, hrc]
  | @ran setup body teardown events₁ events₂ events₃ hsetup hrc hbody hteardown =>
      obtain ⟨hs₁, -, hk₁, -⟩ := hsetup.rc_eq
      obtain ⟨hs₂, he₂, -, -⟩ := hbody.rc_eq
      obtain ⟨hs₃, -, -, -⟩ := hteardown.rc_eq
      have hsk₁ : setup.skipped = false := by
        rw [← Bool.not_eq_true]
        exact fun hs => hk₁ hs hrc
      rw [decide_eq_true hrc] at hs₁
      by_cases h₃ : teardown.rc = 0
      · by_cases h₂ : body.rc = 0
        · simp [TestRecord.isFine, finalStatus, bodyStatus, hs₁, hs₂, hs₃, h₂, h₃]
        · cases hsk : body.skipped <;> cases skip <;>
            simp [TestRecord.isFine, TestRecord.bodyFailed, finalStatus, bodyStatus, hs₁, hs₂, hs₃,
              he₂, h₂, h₃, hsk, hsk₁]
      · simp [TestRecord.isFine, TestRecord.bodyFailed, finalStatus, hs₃, h₃]

theorem Totals.count_failures (totals : Totals) (rc : Int) (status : CMUnitTestStatus) :
    (totals.count rc status).failed + (totals.count rc status).errors =
      totals.failed + totals.errors +
        if rc = 0 ∧ (status = .passed ∨ status = .skipped) then 0 else 1 := by
  by_cases hrc : rc = 0
  · cases status <;> simp [Totals.count, hrc] <;> omega
  · simp [Totals.count, hrc]
    omega

theorem testRecords_append (a b : List Event) :
    testRecords (a ++ b) = testRecords a ++ testRecords b := List.filterMap_append

theorem testRecords_notDone {events : List Event} (h : ∀ e ∈ events, e.notDone) :
    testRecords events = [] := by
  refine List.filterMap_eq_nil_iff.mpr fun e he => ?_
  have := h e he
  cases e <;> first | rfl | cases this

theorem testRecords_reports {events : List Event} (h : ∀ e ∈ events, e.isReport = true) :
    testRecords events = [] :=
  testRecords_notDone fun e he => covers_notDone.report e (h e he)

/-- The loop counts the failures that are not masked. -/
theorem TestsRun.counted {groupState : Addr} {tests : List CMUnitTest} {skip skip' : Bool}
    {records : List (TestRecord × Int)} {events : List Event}
    (h : TestsRun groupState tests skip records skip' events) :
    testRecords events = records.map Prod.fst ∧ records.length = tests.length ∧
      ∀ totals : Totals, (totals.countAll records).failed + (totals.countAll records).errors =
        totals.failed + totals.errors + plainFailures skip (records.map Prod.fst) := by
  induction h with
  | nil skip => exact ⟨rfl, rfl, fun totals => rfl⟩
  | @cons t rest skip skip₁ skip₂ record rc records events events' start finish hstart hfinish ht
      hrest ih =>
      obtain ⟨hrec, hlen, hcount⟩ := ih
      refine ⟨?_, by simp [hlen], fun totals => ?_⟩
      · have hsplit : start :: events ++ [.testDone record, finish] ++ events' =
            [start] ++ events ++ ([.testDone record] ++ [finish]) ++ events' := by simp
        have hreport : ∀ {e : Event}, e.isReport = true → testRecords [e] = [] := fun he =>
          testRecords_reports (by simpa using he)
        have hevents : testRecords events = [] :=
          testRecords_notDone fun e he => ht.covered covers_notDone e he
        rw [hsplit]
        simp only [testRecords_append, hreport hstart, hreport hfinish, hevents, hrec]
        rfl
      · have hstep := totals.count_failures rc record.status
        rw [if_congr ht.counted rfl rfl] at hstep
        have hall : totals.countAll ((record, rc) :: records) =
            (totals.count rc record.status).countAll records := rfl
        rw [hall, hcount, hstep, List.map_cons, plainFailures, ht.skip_eq.2, Nat.add_assoc]

/-! ### A group -/

theorem RunEvents.invocation_isSome {f : Option UserFn} {kind : CallbackKind} {state : Addr}
    {run : CallbackRun} {events : List Event} (h : RunEvents (f.map (·, kind)) state run events) :
    run.invocation.isSome = f.isSome := by
  cases f with
  | none =>
      cases h
      rfl
  | some f =>
      cases h
      rfl

theorem GroupRun.invocations_eq {selected : List CMUnitTest}
    {groupSetup groupTeardown : Option UserFn} {skip skip' : Bool} {setup teardown : CallbackRun}
    {records : List (TestRecord × Int)} {events : List Event}
    (h : GroupRun selected groupSetup groupTeardown skip setup records teardown skip' events) :
    ∃ mid, invocations events = setup.invocation.toList ++ mid ++ teardown.invocation.toList := by
  have hsilent : ∀ {reports : List Event}, (∀ e ∈ reports, e.isReport = true) →
      invocations reports = [] := fun hr =>
    (invocations_silent fun e he => Event.silent_of_report (hr e he)).1
  cases h with
  | @ran _ _ skip₁ events₁ events₂ events₃ before after hbefore hafter hsetup hrc htests
      hteardown =>
      refine ⟨invocations events₂, ?_⟩
      simp only [invocations_append, hsilent hbefore, hsilent hafter, hsetup.rc_eq.2.2.2,
        hteardown.rc_eq.2.2.2, List.nil_append, List.append_nil]
  | setupFailed hbefore hbetween hafter hsetup hrc hteardown =>
      refine ⟨[], ?_⟩
      simp only [invocations_append, hsilent hbefore, hsilent hbetween, hsilent hafter,
        hsetup.rc_eq.2.2.2, hteardown.rc_eq.2.2.2, List.nil_append, List.append_nil]

/-- The trace shows how the group fixtures ended. -/
theorem GroupRun.fixtures {g : Group} {selected : List CMUnitTest} {skip skip' : Bool}
    {setup teardown : CallbackRun} {records : List (TestRecord × Int)} {events : List Event}
    (h : GroupRun selected g.setup g.teardown skip setup records teardown skip' events) :
    succeeded (g.setupRun events) = decide (setup.rc = 0) ∧
      succeeded (g.teardownRun events) = decide (teardown.rc = 0) := by
  obtain ⟨mid, hmid⟩ := h.invocations_eq
  have hruns : ∃ events₁ events₃, RunEvents (g.setup.map (·, .setup)) 0 setup events₁ ∧
      RunEvents (g.teardown.map (·, .teardown)) setup.state teardown events₃ := by
    cases h with
    | ran hbefore hafter hsetup hrc htests hteardown => exact ⟨_, _, hsetup, hteardown⟩
    | setupFailed hbefore hbetween hafter hsetup hrc hteardown => exact ⟨_, _, hsetup, hteardown⟩
  obtain ⟨events₁, events₃, hsetup, hteardown⟩ := hruns
  rw [← hsetup.rc_eq.1, ← hteardown.rc_eq.1]
  constructor
  · have hs := hsetup.invocation_isSome
    cases hi : setup.invocation with
    | none => simp_all [Group.setupRun]
    | some i => simp_all [Group.setupRun]
  · have hs := hteardown.invocation_isSome
    cases hi : teardown.invocation with
    | none => simp_all [Group.teardownRun]
    | some i => simp_all [Group.teardownRun]

/-- The records of the tests, and the counters. -/
theorem GroupRun.counted {selected : List CMUnitTest} {groupSetup groupTeardown : Option UserFn}
    {skip skip' : Bool} {setup teardown : CallbackRun} {records : List (TestRecord × Int)}
    {events : List Event}
    (h : GroupRun selected groupSetup groupTeardown skip setup records teardown skip' events) :
    testRecords events = records.map Prod.fst ∧
      (setup.rc = 0 → records.length = selected.length) ∧
      (groupTotals setup.rc records).failed + (groupTotals setup.rc records).errors =
        if setup.rc = 0 then plainFailures skip (testRecords events) else 1 := by
  cases h with
  | @ran _ _ skip₁ events₁ events₂ events₃ before after hbefore hafter hsetup hrc htests
      hteardown =>
      obtain ⟨hrec, hlen, hcount⟩ := htests.counted
      have hsk : setup.skipped = false := by
        rw [← Bool.not_eq_true]
        exact fun hs => hsetup.rc_eq.2.2.1 hs hrc
      have hevents : testRecords (before ++ events₁ ++ events₂ ++ events₃ ++ after) =
          records.map Prod.fst := by
        simp only [testRecords_append, testRecords_reports hbefore, testRecords_reports hafter,
          testRecords_notDone (hsetup.covered covers_notDone),
          testRecords_notDone (hteardown.covered covers_notDone), hrec, List.nil_append,
          List.append_nil]
      refine ⟨hevents, fun _ => hlen, ?_⟩
      rw [hevents, groupTotals, if_pos hrc, if_pos hrc, hcount, hsk, Bool.or_false, Nat.zero_add]
      exact Nat.zero_add _
  | setupFailed hbefore hbetween hafter hsetup hrc hteardown =>
      refine ⟨?_, fun h => absurd h hrc, ?_⟩
      · simp only [testRecords_append, testRecords_reports hbefore, testRecords_reports hbetween,
          testRecords_reports hafter, testRecords_notDone (hsetup.covered covers_notDone),
          testRecords_notDone (hteardown.covered covers_notDone), List.nil_append, List.map_nil]
      · simp [groupTotals, hrc]

theorem toCInt_eq_zero {n : Nat} : toCInt n = 0 ↔ n % 2 ^ 32 = 0 := by
  unfold toCInt
  generalize 2 ^ 32 = m
  rw [← Int.dvd_iff_bmod_eq_zero, Int.natCast_dvd_natCast, Nat.dvd_iff_mod_eq_zero]

/-- A group of a process, when it returns or ends the process over leaked blocks. -/
theorem Group.run_ended {platform : Platform} {before : List Group} {rcs : List Int}
    {s s' : Globals} {g : Group} (hbefore : runGroups before (Globals.initial platform) = .ok rcs s)
    (hallocated : g.allocated = true)
    (h : (∃ rc, g.run s = .ok rc s') ∨ g.run s = .error .exitFailure s') :
    ∃ setup records teardown skip events,
      GroupRun (g.tests.filter (isSelected g.testFilter g.skipFilter)) g.setup g.teardown
        s.globalSkipTest setup records teardown skip events ∧
      s'.trace = s.trace ++ events ∧
      (∀ rc, g.run s = .ok rc s' → rc =
        toCInt ((groupTotals setup.rc records).failed + (groupTotals setup.rc records).errors)) ∧
      GroupReports g.name (g.tests.filter (isSelected g.testFilter g.skipFilter)) setup records
        teardown (groupTotals setup.rc records) events := by
  have hs := idle_runGroups hbefore
  let s₀ : Globals := { s with
    globalTestFilterPattern := g.testFilter, globalSkipFilterPattern := g.skipFilter }
  have hrun : g.run s = cmockaRunGroupTests g.name g.tests g.setup g.teardown g.allocated s₀ := rfl
  rw [hrun, hallocated] at h ⊢
  obtain ⟨groupCheckPoint, s₁, totals, s₂, hi, hb, hi', hrc⟩ :=
    cmockaRunGroupTests_body (show Idle s₀ from hs) rfl h
  obtain ⟨setup, records, teardown, skip, events, hg, hst, rfl, hreports⟩ :=
    runGroupBody_run (hi.idle hs) hb
  rw [hi.quiet.testFilter, hi.quiet.skipFilter] at hg hreports
  rw [hi.quiet.skip] at hg
  exact ⟨setup, records, teardown, skip, events, hg, by rw [hi'.trace_eq, hst.trace, hi.trace_eq],
    hrc, hreports⟩

/-- A group that returns, whatever ran before it. -/
theorem Group.run_ok {platform : Platform} {before : List Group} {rcs : List Int} {s s' : Globals}
    {g : Group} {rc : Int} (hbefore : runGroups before (Globals.initial platform) = .ok rcs s)
    (hallocated : g.allocated = true) (h : g.run s = .ok rc s') :
    ∃ setup records teardown skip events,
      GroupRun (g.tests.filter (isSelected g.testFilter g.skipFilter)) g.setup g.teardown
        s.globalSkipTest setup records teardown skip events ∧
      s'.trace = s.trace ++ events ∧
      rc = toCInt ((groupTotals setup.rc records).failed + (groupTotals setup.rc records).errors) ∧
      GroupReports g.name (g.tests.filter (isSelected g.testFilter g.skipFilter)) setup records
        teardown (groupTotals setup.rc records) events := by
  obtain ⟨setup, records, teardown, skip, events, hg, htr, hrc, hreports⟩ :=
    Group.run_ended hbefore hallocated (.inl ⟨rc, h⟩)
  exact ⟨setup, records, teardown, skip, events, hg, htr, hrc rc h, hreports⟩

/-- **The result of a group.**  Whatever ran before, a group that returns says truly whether
everything succeeded exactly when it is reliable. -/
theorem result_exact_iff (platform : Platform) (before : List Group) (rcs : List Int)
    (s s' : Globals) (g : Group) (rc : Int)
    (hbefore : runGroups before (Globals.initial platform) = .ok rcs s)
    (hallocated : g.allocated = true) (h : g.run s = .ok rc s') :
    ∃ events, s'.trace = s.trace ++ events ∧
      (succeeded (g.setupRun events) = true → (testRecords events).length =
        (g.tests.filter (isSelected g.testFilter g.skipFilter)).length) ∧
      ((rc = 0 ↔ g.Succeeded events) ↔ g.Reliable s.globalSkipTest events) := by
  obtain ⟨setup, records, teardown, skip, events, hg, htr, hrc, -⟩ :=
    Group.run_ok hbefore hallocated h
  obtain ⟨hsetup, hteardown⟩ := hg.fixtures
  obtain ⟨hrecords, hlen, htotals⟩ := hg.counted
  refine ⟨events, htr, ?_, ?_⟩
  · intro hok
    rw [hrecords, List.length_map]
    exact hlen (of_decide_eq_true (hsetup.symm.trans hok))
  · rw [hrc, toCInt_eq_zero, htotals, Group.Succeeded, Group.Reliable, hsetup]
    by_cases hr : setup.rc = 0
    · rw [if_pos hr, decide_eq_true hr]
      have hfine : (∀ r ∈ testRecords events, r.isFine = true) →
          plainFailures s.globalSkipTest (testRecords events) = 0 := fun hall =>
        plainFailures_of_fine hall _
      have hmasked : plainFailures s.globalSkipTest (testRecords events) = 0 →
          ((∀ r ∈ testRecords events, r.isFine = true) ↔
            someMasked s.globalSkipTest (testRecords events) = false) := plainFailures_eq_zero
      generalize plainFailures s.globalSkipTest (testRecords events) = n at hfine hmasked ⊢
      grind
    · rw [if_neg hr, decide_eq_false hr]
      simp

/-- One failing test. -/
def failingTest : Group :=
  .ofTests [
    { name := some "failing".toList
      testFunc := some (.ending 1 (.fail "t.c".toList 10))
      setupFunc := none
      teardownFunc := none
      initialState := 0 }]

/-- It is counted. -/
theorem failing_test_is_counted :
    ∃ s' events, failingTest.run (Globals.initial .lp64) = .ok 1 s' ∧ s'.trace = events ∧
      ((1 : Int) = 0 ↔ failingTest.Succeeded events) := by
  have h : failingTest.run (Globals.initial .lp64) =
      .ok 1 (final (failingTest.run (Globals.initial .lp64))) :=
    eq_ok_of_value (by decide +kernel)
  obtain ⟨events, htr, -, hiff⟩ := result_exact_iff .lp64 [] [] _ _ failingTest 1 rfl rfl h
  have hevents : (final (failingTest.run (Globals.initial .lp64))).trace = events := htr
  refine ⟨_, events, h, hevents, hiff.mpr ?_⟩
  rw [← hevents]
  decide +kernel

/-- A test that passes, and a group teardown that returns `1`. -/
def failingGroupTeardown : Group where
  name := "tests".toList
  tests := [
    { name := some "passing".toList
      testFunc := some (.ending 1 (.ret 0))
      setupFunc := none
      teardownFunc := none
      initialState := 0 }]
  setup := none
  teardown := some (.ending 2 (.ret 1))
  allocated := true
  testFilter := none
  skipFilter := none

/-- The failure of the group teardown is not counted. -/
theorem failing_group_teardown_returns_zero :
    ∃ s', failingGroupTeardown.run (Globals.initial .lp64) = .ok 0 s' ∧
      ¬((0 : Int) = 0 ↔ failingGroupTeardown.Succeeded s'.trace) := by
  refine ⟨_, eq_ok_of_value (by decide +kernel), ?_⟩
  decide +kernel

end Cmocka
