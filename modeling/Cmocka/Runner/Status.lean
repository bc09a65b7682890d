import Cmocka.Runner.Sequence

/-!
# Runner — whose status a test gets

`cmocka_run_one_tests` records a failed test function as skipped when `global_skip_test` is set,
and only then clears the flag.  The flag is set by every callback that calls `skip()`, also by the
fixtures, after which nothing clears it until a test function fails.  So the flag is a function of
the callbacks run so far (`pendingSkip`), and the statuses of a process are the tests' own exactly
when no test function fails while a fixture's `skip()` is pending (`statuses_are_own_iff`).
-/

namespace Cmocka

open Runs

/-! ### The status of a test by its own callbacks -/

/-- `cmocka_run_one_test_or_fixture` returned `0`, or there was no callback. -/
def succeeded (i : Option Invocation) : Bool := i.all (·.rc == 0)

/-- The callback was run and ended by `skip()`. -/
def endedBySkip (i : Option Invocation) : Bool := i.any (·.ending.skipped)

/-- The status that follows from what the test's own callbacks did. -/
def TestRecord.ownStatus (r : TestRecord) : CMUnitTestStatus :=
  if !succeeded r.setup || !succeeded r.teardown then .error
  else if succeeded r.test then .passed
  else if endedBySkip r.test then .skipped
  else .failed

/-- The test function failed without calling `skip()`, and the teardown succeeded. -/
def TestRecord.bodyFailed (r : TestRecord) : Bool :=
  !succeeded r.test && !endedBySkip r.test && succeeded r.teardown

/-- The recorded status depends only on the test. -/
structure TestRecord.IsOwn (r : TestRecord) : Prop where
  determined : r.status = r.ownStatus
  skipped : r.status = .skipped ↔ endedBySkip r.test = true ∧ succeeded r.teardown = true
  failed : r.bodyFailed = true → r.status = .failed

/-- The callbacks of a test, in the order they were run. -/
def TestRecord.callbacks (r : TestRecord) : List Invocation :=
  r.setup.toList ++ r.test.toList ++ r.teardown.toList

/-! ### The skip flag -/

/-- What a callback does to the skip flag: a fixture can only set it, and a test function that
fails, by `skip()` or otherwise, ends with the flag cleared. -/
def skipAfter (pending : Bool) (i : Invocation) : Bool :=
  if i.kind = .test then pending && i.rc == 0 else pending || i.ending.skipped

/-- The `skip()` of some fixture is pending: no test function failed after it. -/
def pendingSkip (is : List Invocation) : Bool := is.foldl skipAfter false

/-- A test function failed, without `skip()`, while a `skip()` from before the test was pending. -/
def Masks (trace : List Event) : Prop :=
  ∃ before r after earlier, trace = before ++ .testDone r :: after ∧
    invocations before = earlier ++ r.callbacks ∧ pendingSkip earlier = true ∧ r.bodyFailed = true

/-! ### One test -/

theorem Ending.skipped_iff {e : Ending} : e.skipped = true ↔ e = .jumped .skip := by
  cases e with
  | returned code => simp [Ending.skipped]
  | jumped reason => cases reason <;> simp [Ending.skipped]

/-- `rc` says whether a callback succeeded, and the record whether it was skipped. -/
theorem RunEvents.rc_eq {callback : Option (UserFn × CallbackKind)} {state : Addr}
    {run : CallbackRun} {events : List Event} (h : RunEvents callback state run events) :
    succeeded run.invocation = decide (run.rc = 0) ∧ endedBySkip run.invocation = run.skipped ∧
      (run.skipped = true → run.rc ≠ 0) ∧ invocations events = run.invocation.toList := by
  cases h with
  | absent state => simp [succeeded, endedBySkip, CallbackRun.skipped, invocations]
  | run f kind state i calls hfn hkind hreceived hi hcalls =>
      refine ⟨rfl, rfl, fun hskip => ?_, ?_⟩
      · rw [CallbackRun.skipped, Option.any_some, Ending.skipped_iff] at hskip
        rw [Invocation.Consistent, hskip] at hi
        change i.rc = -1 at hi
        change i.rc ≠ 0
        omega
      · rw [invocations_append, ← List.singleton_append, invocations_append,
          (invocations_silent fun e he => Event.silent_of_call (hcalls e he)).1]
        rfl

/-- A fixture sets the flag by `skip()`. -/
theorem RunEvents.skipAfter_fixture {f : Option UserFn} {kind : CallbackKind} {state : Addr}
    {run : CallbackRun} {events : List Event} (h : RunEvents (f.map (·, kind)) state run events)
    (hkind : kind ≠ .test) (skip : Bool) :
    run.invocation.toList.foldl skipAfter skip = (skip || run.skipped) := by
  cases f with
  | none =>
      cases h
      simp [CallbackRun.skipped]
  | some f =>
      cases h with
      | run f kind state i calls hfn hk hreceived hi hcalls =>
          subst hk
          simp [skipAfter, hkind, CallbackRun.skipped]

/-- A test function that fails clears the flag. -/
theorem RunEvents.skipAfter_body {f : Option UserFn} {state : Addr} {run : CallbackRun}
    {events : List Event} (h : RunEvents (f.map (·, .test)) state run events) (skip : Bool) :
    run.invocation.toList.foldl skipAfter skip = (decide (run.rc = 0) && (skip || run.skipped)) := by
  have hrc := h.rc_eq.2.2.1
  cases f with
  | none =>
      cases h
      simp [CallbackRun.skipped]
  | some f =>
      cases h with
      | run f kind state i calls hfn hk hreceived hi hcalls =>
          by_cases h₀ : i.rc = 0
          · have hsk : i.ending.skipped = false := by
              rw [← Bool.not_eq_true]
              exact fun hs => hrc hs h₀
            simp [skipAfter, hk, CallbackRun.skipped, h₀, hsk]
          · simp [skipAfter, hk, h₀]

/-- **The flag after a test** is that of its callbacks. -/
theorem TestRun.skip_eq {t : CMUnitTest} {state : Addr} {skip skip' : Bool} {record : TestRecord}
    {rc : Int} {events : List Event} (h : TestRun t state skip record rc skip' events) :
    invocations events = record.callbacks ∧ record.callbacks.foldl skipAfter skip = skip' := by
  cases h with
  | setupFailed hrun hrc =>
      refine ⟨by simpa [TestRecord.callbacks] using hrun.rc_eq.2.2.2, ?_⟩
      simpa [TestRecord.callbacks] using hrun.skipAfter_fixture (by decide) skip
  | ran hsetup hrc hbody hteardown =>
      constructor
      · rw [invocations_append, invocations_append, hsetup.rc_eq.2.2.2, hbody.rc_eq.2.2.2,
          hteardown.rc_eq.2.2.2]
        rfl
      · rw [TestRecord.callbacks, List.foldl_append, List.foldl_append,
          hsetup.skipAfter_fixture (by decide), hbody.skipAfter_body,
          hteardown.skipAfter_fixture (by decide)]

/-- **A test gets its own status** unless its function fails with the flag up. -/
theorem TestRun.isOwn_iff {t : CMUnitTest} {state : Addr} {skip skip' : Bool}
    {record : TestRecord} {rc : Int} {events : List Event}
    (h : TestRun t state skip record rc skip' events) :
    record.IsOwn ↔ ¬(skip = true ∧ record.bodyFailed = true) := by
  cases h with
  | @setupFailed run events hrun hrc =>
      have hfail : succeeded run.invocation = false := by
        rw [hrun.rc_eq.1]
        exact decide_eq_false hrc
      refine iff_of_true ⟨?_, ?_, ?_⟩ ?_
      · simp [TestRecord.ownStatus, hfail]
      · simp [endedBySkip]
      · simp [TestRecord.bodyFailed, succeeded]
      · simp [TestRecord.bodyFailed, succeeded]
  | @ran setup body teardown events₁ events₂ events₃ hsetup hrc hbody hteardown =>
      obtain ⟨hs₁, -, hk₁, -⟩ := hsetup.rc_eq
      obtain ⟨hs₂, he₂, hk₂, -⟩ := hbody.rc_eq
      obtain ⟨hs₃, -, -, -⟩ := hteardown.rc_eq
      have hsk₁ : setup.skipped = false := by
        rw [← Bool.not_eq_true]
        exact fun hs => hk₁ hs hrc
      rw [decide_eq_true hrc] at hs₁
      by_cases h₃ : teardown.rc = 0
      · by_cases h₂ : body.rc = 0
        · have hsk₂ : body.skipped = false := by
            rw [← Bool.not_eq_true]
            exact fun hs => hk₂ hs h₂
          refine iff_of_true ⟨?_, ?_, ?_⟩ ?_ <;>
            simp [TestRecord.ownStatus, TestRecord.bodyFailed, finalStatus, bodyStatus, h₂, h₃, hs₁,
              hs₂, hs₃, he₂, hsk₂]
        · cases hsk₂ : body.skipped with
          | true =>
              refine iff_of_true ⟨?_, ?_, ?_⟩ ?_ <;>
                simp [TestRecord.ownStatus, TestRecord.bodyFailed, finalStatus, bodyStatus, h₂, h₃,
                  hs₁, hs₂, hs₃, he₂, hsk₂]
          | false =>
              -- the status is `skipped` or `failed` by the flag alone
              cases skip with
              | true =>
                  refine iff_of_false (fun hown => ?_) ?_
                  · have hst := hown.determined
                    simp [TestRecord.ownStatus, finalStatus, bodyStatus, h₂, h₃, hs₁, hs₂, hs₃, he₂,
                      hsk₂] at hst
                  · simp [TestRecord.bodyFailed, h₂, h₃, hs₂, hs₃, he₂, hsk₂]
              | false =>
                  refine iff_of_true ⟨?_, ?_, ?_⟩ ?_ <;>
                    simp [TestRecord.ownStatus, finalStatus, bodyStatus, h₂, h₃, hs₁, hs₂, hs₃, he₂,
                      hsk₁, hsk₂]
      · refine iff_of_true ⟨?_, ?_, ?_⟩ ?_ <;>
          simp [TestRecord.ownStatus, TestRecord.bodyFailed, finalStatus, h₃, hs₃]

/-! ### A process -/

/-- Each record in the trace is its test's own unless a pending `skip()` masks a failure. -/
def StatusesOwn (trace : List Event) : Prop :=
  ∀ before r after, trace = before ++ .testDone r :: after →
    ∃ earlier, invocations before = earlier ++ r.callbacks ∧
      (r.IsOwn ↔ ¬(pendingSkip earlier = true ∧ r.bodyFailed = true))

/-- The states between callbacks, with the flag as the callbacks so far leave it. -/
structure SkipTracked (s : Globals) : Prop where
  idle : Idle s
  skip : s.globalSkipTest = pendingSkip (invocations s.trace)

/-- A run does not spoil the statuses. -/
def StatusesKept (s s' : Globals) : Prop := StatusesOwn s.trace → StatusesOwn s'.trace

instance : IsPreorder Globals StatusesKept where
  refl _ := id
  trans _ _ _ h h' := h' ∘ h

/-- Not the record of a test. -/
def Event.notDone : Event → Prop
  | .testDone _ => False
  | _ => True

theorem covers_notDone : Covers Event.notDone where
  enter _ := trivial
  leave _ _ := trivial
  call e he := by cases e <;> trivial
  report e he := by cases e <;> trivial

/-- Other events do not matter. -/
theorem StatusesOwn.append {trace events : List Event} (h : StatusesOwn trace)
    (hno : ∀ e ∈ events, e.notDone) : StatusesOwn (trace ++ events) := by
  intro before r after heq
  rcases List.append_eq_append_iff.mp heq with ⟨mid, rfl, hmid⟩ | ⟨mid, rfl, hmid⟩
  · have := hno (.testDone r) (by simp [hmid])
    exact this.elim
  · cases mid with
    | nil =>
        rw [List.nil_append] at hmid
        have := hno (.testDone r) (by simp [← hmid])
        exact this.elim
    | cons e mid =>
        obtain ⟨rfl, rfl⟩ := List.cons.inj hmid
        exact h before r mid rfl

/-- One more record. -/
theorem StatusesOwn.snoc {trace : List Event} {r : TestRecord} (h : StatusesOwn trace)
    {earlier : List Invocation} (hcalls : invocations trace = earlier ++ r.callbacks)
    (hown : r.IsOwn ↔ ¬(pendingSkip earlier = true ∧ r.bodyFailed = true)) :
    StatusesOwn (trace ++ [.testDone r]) := by
  intro before r' after heq
  rcases List.append_eq_append_iff.mp heq with ⟨mid, rfl, hmid⟩ | ⟨mid, rfl, hmid⟩
  · cases mid with
    | nil =>
        obtain ⟨hr, -⟩ := List.cons.inj hmid
        cases hr
        exact ⟨earlier, by simpa using hcalls, hown⟩
    | cons e mid => simp at hmid
  · cases mid with
    | nil =>
        obtain ⟨hr, -⟩ := List.cons.inj hmid
        cases hr
        exact ⟨earlier, by simpa using hcalls, hown⟩
    | cons e mid =>
        obtain ⟨rfl, rfl⟩ := List.cons.inj hmid
        exact h before r' mid rfl

theorem Traced.statusesKept {s s' : Globals} (h : Traced Event.notDone s s') :
    StatusesKept s s' := by
  obtain ⟨events, htr, hno⟩ := h
  intro hown
  rw [htr]
  exact hown.append hno

/-- What moves only the state between callbacks keeps the flag and the trace. -/
theorem SkipTracked.of_eq {s s' : Globals} (h : SkipTracked s) (hidle : Idle s')
    (hskip : s'.globalSkipTest = s.globalSkipTest) (htr : s'.trace = s.trace) :
    SkipTracked s' :=
  ⟨hidle, by rw [hskip, htr, h.skip]⟩

theorem meets_prints_skip {α : Type} {x : CM α} (hx : Prints x) :
    Meets SkipTracked StatusesKept (fun _ => True) x :=
  Keeps.meets hx (fun _ _ hi hs => hs.of_eq (hi.idle hs.idle) hi.quiet.skip hi.trace_eq)
    (fun _ _ hi => hi.traced.statusesKept) fun _ _ _ => trivial

theorem meets_report_skip {e : Event} (he : e.isReport = true) :
    Meets SkipTracked StatusesKept LostExit (record [e]) where
  ok := by
    intro s s' u hs h
    have hkept := ((meets_record (covers_notDone.report e he)).ok hs.idle h).2.statusesKept
    cases h
    refine ⟨⟨hs.idle, ?_⟩, hkept⟩
    have hsilent : ∀ e' ∈ [e], e'.isSilent = true := by simpa using Event.silent_of_report he
    change s.globalSkipTest = pendingSkip (invocations (s.trace ++ [e]))
    rw [invocations_append, (invocations_silent hsilent).1, List.append_nil, hs.skip]
  error := by
    intro s s' e hs h
    cases h

/-- A fixture of the group tracks the skip flag. -/
theorem meets_fixture_skip (functionName : CString) (setupFunc teardownFunc : Option UserFn)
    (state : Addr) (checkPoint : Option BlockNode) :
    Meets SkipTracked StatusesKept LostExit
      (cmockaRunGroupFixture functionName setupFunc teardownFunc state checkPoint) where
  ok := by
    intro s s' run hs h
    have hkept := ((meets_cmockaRunGroupFixture covers_notDone _ _ _ _ _).ok hs.idle h).2.statusesKept
    refine ⟨?_, hkept⟩
    have hfixture : ∃ f kind events, kind ≠ CallbackKind.test ∧
        RunEvents (Option.map (·, kind) f) state run events ∧
        Steps s s' (s.globalSkipTest || run.skipped) events := by
      cases setupFunc with
      | some f =>
          obtain ⟨events, he, hst⟩ := (runOne_spec (stop_of_idle hs.idle) h).steps
          exact ⟨some f, .setup, events, by decide, he, hst⟩
      | none =>
          obtain ⟨events, he, hst⟩ := (runOne_spec (stop_of_idle hs.idle) h).steps
          refine ⟨teardownFunc, .teardown, events, by decide, ?_, hst⟩
          cases teardownFunc <;> exact he
    obtain ⟨f, kind, events, hkind, he, hst⟩ := hfixture
    refine ⟨hst.idle, ?_⟩
    rw [hst.skip, hst.trace, invocations_append, he.rc_eq.2.2.2, pendingSkip, List.foldl_append,
      he.skipAfter_fixture hkind, hs.skip, pendingSkip]
  error := by
    intro s s' e hs h
    obtain ⟨htr, he⟩ := (meets_cmockaRunGroupFixture covers_notDone _ _ _ _ _).error hs.idle h
    exact ⟨htr.statusesKept, he⟩

/-- So does a test, and its status is its own. -/
theorem meets_test_skip (ts : CMUnitTestState) :
    Meets SkipTracked StatusesKept LostExit (cmockaRunOneTests ts) where
  ok := by
    rintro s s' ⟨rc, ts'⟩ hs h
    obtain ⟨record, skip, events, hrun, hst, -⟩ := cmockaRunOneTests_run hs.idle h
    obtain ⟨hcalls, hskip⟩ := hrun.skip_eq
    have hdone : invocations (s.trace ++ events) = invocations s.trace ++ record.callbacks := by
      rw [invocations_append, hcalls]
    refine ⟨⟨hst.idle, ?_⟩, fun hown => ?_⟩
    · have hsilent : invocations [.testDone record] = [] := rfl
      rw [hst.skip, hst.trace, ← List.append_assoc, invocations_append, hdone, hsilent,
        List.append_nil, pendingSkip, List.foldl_append, ← hskip, hs.skip, pendingSkip]
    · rw [hst.trace, ← List.append_assoc]
      refine (hown.append fun e he => hrun.covered covers_notDone e he).snoc hdone ?_
      rw [← hs.skip]
      exact hrun.isOwn_iff
  error := by
    intro s s' e hs h
    obtain ⟨htr, he⟩ := cmockaRunOneTests_lost covers_notDone hs.idle h
    exact ⟨htr.statusesKept, he⟩

theorem runnerRule_skip : RunnerRule SkipTracked StatusesKept where
  report _ he := meets_report_skip he
  clearMessage := Meets.modify (fun _ hs => hs.of_eq hs.idle rfl rfl) fun _ => id
  fixture := meets_fixture_skip
  test := meets_test_skip

/-- However a process ends. -/
theorem statusesOwn_runGroups (platform : Platform) (groups : List Group) :
    StatusesOwn (final (runGroups groups (Globals.initial platform))).trace := by
  have hmeets := runnerRule_skip.runGroups meets_prints_skip
    (fun _ _ => Meets.modify (fun _ hs => hs.of_eq hs.idle rfl rfl) fun _ => id) groups
  refine hmeets.final ⟨idle_initial platform, rfl⟩ ?_
  intro before r after heq
  simp [Globals.initial] at heq

/-- **Statuses are the tests' own** exactly when no failure is masked, over all the groups of a
process, however it ends. -/
theorem statuses_are_own_iff (platform : Platform) (groups : List Group) :
    (∀ r, .testDone r ∈ (final (runGroups groups (Globals.initial platform))).trace → r.IsOwn) ↔
      ¬Masks (final (runGroups groups (Globals.initial platform))).trace := by
  have hown := statusesOwn_runGroups platform groups
  constructor
  · rintro hall ⟨before, r, after, earlier, heq, hcalls, hpending, hfailed⟩
    obtain ⟨earlier', hcalls', hiff⟩ := hown before r after heq
    obtain rfl := List.append_cancel_right (hcalls.symm.trans hcalls')
    exact hiff.mp (hall r (by simp [heq])) ⟨hpending, hfailed⟩
  · intro hno r hr
    obtain ⟨before, after, heq⟩ := List.append_of_mem hr
    obtain ⟨earlier, hcalls, hiff⟩ := hown before r after heq
    exact hiff.mpr fun ⟨hpending, hfailed⟩ =>
      hno ⟨before, r, after, earlier, heq, hcalls, hpending, hfailed⟩

/-- Two tests: the setup of the first calls `skip()`, the second fails. -/
def skipThenFail : Group :=
  .ofTests [
    { name := some "first".toList
      testFunc := some (.ending 1 (.ret 0))
      setupFunc := some (.ending 2 (.skip "t.c".toList 10))
      teardownFunc := none
      initialState := 0 },
    { name := some "second".toList
      testFunc := some (.ending 3 (.fail "t.c".toList 20))
      setupFunc := none
      teardownFunc := none
      initialState := 0 }]

/-- The failure of the second test is recorded as skipped. -/
theorem skip_in_setup_hides_failure :
    ¬∀ r, .testDone r ∈ (final (runGroups [skipThenFail] (Globals.initial .lp64))).trace →
      r.IsOwn := by
  intro hall
  let body : Invocation := ⟨3, .test, 0, 0, .jumped .fail, -1⟩
  have hdone : Event.testDone ⟨none, some body, none, .skipped⟩ ∈
      (final (runGroups [skipThenFail] (Globals.initial .lp64))).trace := by decide +kernel
  have hfailed := (hall _ hdone).failed (by decide)
  cases hfailed

end Cmocka
