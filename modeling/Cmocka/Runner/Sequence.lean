import Cmocka.Runner.Invariants

/-!
# Runner — the sequence of callbacks

Which user callbacks a group invokes, in which order and with which state pointer, as a relation on
the invocations alone: `Calls` for one function pointer, `TestCalls` for a test, `GroupCalls` for a
group.  Every group a process runs invokes such a sequence (`group_invokes_callbacks_in_order`),
also when the group ends the process because blocks are still allocated after it.
-/

namespace Cmocka

open Runs

/-! ### The protocol -/

/-- The invocations of one function pointer, which `NULL` leaves out: the state received, the state
left, and the result. -/
inductive Calls : Option UserFn → CallbackKind → Addr → Addr → Int → List Invocation → Prop where
  | absent (kind : CallbackKind) (state : Addr) : Calls none kind state state 0 []
  | called (f : UserFn) (i : Invocation) (hfn : i.fn = f.addr) :
      Calls (some f) i.kind i.received i.left i.rc [i]

/-- The invocations of a test: its setup; if that succeeds its test function and then, whatever the
outcome, its teardown, each with the state the one before left. -/
inductive TestCalls (t : CMUnitTest) (state : Addr) : List Invocation → Prop where
  | setupFailed {left : Addr} {rc : Int} {setup : List Invocation}
      (hsetup : Calls t.setupFunc .setup state left rc setup) (hrc : rc ≠ 0) :
      TestCalls t state setup
  | ran {state₁ state₂ state₃ : Addr} {rc₂ rc₃ : Int} {setup test teardown : List Invocation}
      (hsetup : Calls t.setupFunc .setup state state₁ 0 setup)
      (htest : Calls t.testFunc .test state₁ state₂ rc₂ test)
      (hteardown : Calls t.teardownFunc .teardown state₂ state₃ rc₃ teardown) :
      TestCalls t state (setup ++ test ++ teardown)

/-- The invocations of a group: the group setup with `NULL`; if that succeeds the tests in order,
each starting with the group state or else its own initial state; and the group teardown, in both
cases. -/
inductive GroupCalls (selected : List CMUnitTest) (groupSetup groupTeardown : Option UserFn) :
    List Invocation → Prop where
  | setupFailed {groupState left : Addr} {rc rc' : Int} {setup teardown : List Invocation}
      (hsetup : Calls groupSetup .setup 0 groupState rc setup) (hrc : rc ≠ 0)
      (hteardown : Calls groupTeardown .teardown groupState left rc' teardown) :
      GroupCalls selected groupSetup groupTeardown (setup ++ teardown)
  | ran {groupState left : Addr} {rc' : Int} {setup teardown : List Invocation}
      {tests : List (List Invocation)} (hsetup : Calls groupSetup .setup 0 groupState 0 setup)
      (htests : List.Forall₂ (fun t is => TestCalls t (initialTestState groupState t) is)
        selected tests)
      (hteardown : Calls groupTeardown .teardown groupState left rc' teardown) :
      GroupCalls selected groupSetup groupTeardown (setup ++ tests.flatten ++ teardown)

/-- The callbacks that ran to their end. -/
def invocations (events : List Event) : List Invocation :=
  events.filterMap fun
    | .leave i _ => some i
    | _ => none

/-- The callbacks that were called. -/
def entered (events : List Event) : List Addr :=
  events.filterMap fun
    | .enter f _ => some f
    | _ => none

/-! ### Runs of callbacks follow it -/

@[simp] theorem invocations_append (a b : List Event) :
    invocations (a ++ b) = invocations a ++ invocations b := List.filterMap_append

@[simp] theorem entered_append (a b : List Event) :
    entered (a ++ b) = entered a ++ entered b := List.filterMap_append

/-- Events that are about no callback. -/
def Event.isSilent : Event → Bool
  | .enter .. | .leave .. => false
  | _ => true

/-- Calls and reports invoke nothing. -/
theorem invocations_silent {events : List Event} (h : ∀ e ∈ events, e.isSilent = true) :
    invocations events = [] ∧ entered events = [] := by
  constructor
  · refine List.filterMap_eq_nil_iff.mpr fun e he => ?_
    have := h e he
    cases e <;> first | rfl | cases this
  · refine List.filterMap_eq_nil_iff.mpr fun e he => ?_
    have := h e he
    cases e <;> first | rfl | cases this

theorem Event.silent_of_call {e : Event} (h : e.isCall = true) : e.isSilent = true := by
  cases e <;> first | rfl | cases h

theorem Event.silent_of_report {e : Event} (h : e.isReport = true) : e.isSilent = true := by
  cases e <;> first | rfl | cases h

/-- **A callback** is invoked once, with the state it is given. -/
theorem RunEvents.calls {f : Option UserFn} {kind : CallbackKind} {state : Addr}
    {run : CallbackRun} {events : List Event} (h : RunEvents (f.map (·, kind)) state run events) :
    Calls f kind state run.state run.rc (invocations events) ∧
      entered events = (invocations events).map Invocation.fn := by
  cases f with
  | none =>
      cases h
      exact ⟨.absent kind state, rfl⟩
  | some f =>
      cases h with
      | run f kind state i calls hfn hkind hreceived hi hcalls =>
          subst hkind hreceived
          obtain ⟨hi₁, hi₂⟩ := invocations_silent fun e he => Event.silent_of_call (hcalls e he)
          have hinv : invocations (.enter f.addr runningSnapshot :: calls ++
              [.leave i idleSnapshot]) = [i] := by
            rw [invocations_append, ← List.singleton_append, invocations_append, hi₁]
            rfl
          have hent : entered (.enter f.addr runningSnapshot :: calls ++
              [.leave i idleSnapshot]) = [f.addr] := by
            rw [entered_append, ← List.singleton_append, entered_append, hi₂]
            rfl
          rw [hinv, hent]
          exact ⟨.called f i hfn, by simp [hfn]⟩

/-- **A test** invokes its callbacks in order. -/
theorem TestRun.calls {t : CMUnitTest} {state : Addr} {skip skip' : Bool} {record : TestRecord}
    {rc : Int} {events : List Event} (h : TestRun t state skip record rc skip' events) :
    TestCalls t state (invocations events) ∧
      entered events = (invocations events).map Invocation.fn := by
  cases h with
  | setupFailed hrun hrc =>
      obtain ⟨hc, he⟩ := hrun.calls
      exact ⟨.setupFailed hc hrc, he⟩
  | ran hsetup hrc hbody hteardown =>
      obtain ⟨hc₁, he₁⟩ := hsetup.calls
      obtain ⟨hc₂, he₂⟩ := hbody.calls
      obtain ⟨hc₃, he₃⟩ := hteardown.calls
      rw [hrc] at hc₁
      simp only [invocations_append, entered_append, List.map_append]
      exact ⟨.ran hc₁ hc₂ hc₃, by rw [he₁, he₂, he₃]⟩

/-- The tests of a group, by induction on them. -/
theorem TestsRun.calls {groupState : Addr} {tests : List CMUnitTest} {skip skip' : Bool}
    {records : List (TestRecord × Int)} {events : List Event}
    (h : TestsRun groupState tests skip records skip' events) :
    ∃ is, List.Forall₂ (fun t is => TestCalls t (initialTestState groupState t) is) tests is ∧
      invocations events = is.flatten ∧
      entered events = (invocations events).map Invocation.fn := by
  induction h with
  | nil skip => exact ⟨[], .nil, rfl, rfl⟩
  | @cons t rest skip skip₁ skip₂ record rc records events events' start finish hstart hfinish ht
      hrest ih =>
      obtain ⟨hc, he⟩ := ht.calls
      obtain ⟨is, hall, hinv, hent⟩ := ih
      have hs : ∀ e ∈ [start], e.isSilent = true := by
        simpa using Event.silent_of_report hstart
      have hf : ∀ e ∈ [.testDone record, finish], e.isSilent = true := by
        simpa [Event.isSilent] using Event.silent_of_report hfinish
      have hsplit : start :: events ++ [.testDone record, finish] ++ events' =
          [start] ++ events ++ [.testDone record, finish] ++ events' := rfl
      refine ⟨invocations events :: is, .cons hc hall, ?_, ?_⟩
      · simp only [hsplit, invocations_append, (invocations_silent hs).1,
          (invocations_silent hf).1, hinv, List.nil_append, List.append_nil, List.flatten_cons]
      · simp only [hsplit, invocations_append, entered_append, (invocations_silent hs).1,
          (invocations_silent hf).1, (invocations_silent hs).2, (invocations_silent hf).2,
          List.nil_append, List.append_nil, List.map_append, he, hent]

/-- **The invocations of a group.** -/
theorem GroupRun.calls {selected : List CMUnitTest} {groupSetup groupTeardown : Option UserFn}
    {skip skip' : Bool} {setup teardown : CallbackRun} {records : List (TestRecord × Int)}
    {events : List Event}
    (h : GroupRun selected groupSetup groupTeardown skip setup records teardown skip' events) :
    GroupCalls selected groupSetup groupTeardown (invocations events) ∧
      entered events = (invocations events).map Invocation.fn := by
  have hsilent : ∀ {reports : List Event}, (∀ e ∈ reports, e.isReport = true) →
      invocations reports = [] ∧ entered reports = [] := fun hr =>
    invocations_silent fun e he => Event.silent_of_report (hr e he)
  cases h with
  | ran hbefore hafter hsetup hrc htests hteardown =>
      obtain ⟨hc₁, he₁⟩ := hsetup.calls
      obtain ⟨is, hall, hinv, hent⟩ := htests.calls
      obtain ⟨hc₃, he₃⟩ := hteardown.calls
      rw [hrc] at hc₁
      simp only [invocations_append, entered_append, (hsilent hbefore).1, (hsilent hafter).1,
        (hsilent hbefore).2, (hsilent hafter).2, List.nil_append, List.append_nil, List.map_append,
        he₁, hent, he₃]
      exact ⟨hinv ▸ .ran hc₁ hall hc₃, trivial⟩
  | setupFailed hbefore hbetween hafter hsetup hrc hteardown =>
      obtain ⟨hc₁, he₁⟩ := hsetup.calls
      obtain ⟨hc₃, he₃⟩ := hteardown.calls
      simp only [invocations_append, entered_append, (hsilent hbefore).1, (hsilent hbetween).1,
        (hsilent hafter).1, (hsilent hbefore).2, (hsilent hbetween).2, (hsilent hafter).2,
        List.nil_append, List.append_nil, List.map_append, he₁, he₃]
      exact ⟨.setupFailed hc₁ hrc hc₃, trivial⟩

/-! ### Groups -/

/-- `P` is anything. -/
theorem covers_true : Covers fun _ => True where
  enter _ := trivial
  leave _ _ := trivial
  call _ _ := trivial
  report _ _ := trivial

/-- `_cmocka_run_group_tests`, when it returns or ends the process over leaked blocks: in both
cases it ran its body. -/
theorem cmockaRunGroupTests_body {groupName : CString} {tests : List CMUnitTest}
    {groupSetup groupTeardown : Option UserFn} {s s' : Globals} (hs : Idle s)
    {r : EStateM.Result Exit Globals Int}
    (h : cmockaRunGroupTests groupName tests groupSetup groupTeardown true s = r)
    (hr : (∃ rc, r = .ok rc s') ∨ r = .error .exitFailure s') :
    ∃ groupCheckPoint s₀ totals s₁, Inert s s₀ ∧
      runGroupBody groupName tests groupSetup groupTeardown groupCheckPoint s₀ = .ok totals s₁ ∧
      Inert s₁ s' ∧ ∀ rc, r = .ok rc s' → rc = toCInt (totals.failed + totals.errors) := by
  rw [cmockaRunGroupTests_eq] at h
  cases hc : checkPointAllocatedBlocks s with
  | error e s₀ =>
      rw [bind_of_error hc] at h
      subst h
      rcases hr with ⟨rc, hr⟩ | hr
      · cases hr
      · cases hr
        cases (checkPoint_error hc).1
  | ok groupCheckPoint s₀ =>
      have hi := prints_checkPointAllocatedBlocks.ok hc
      rw [bind_of_ok hc] at h
      simp only [Bool.not_true, Bool.false_eq_true, if_false] at h
      cases hb : runGroupBody groupName tests groupSetup groupTeardown groupCheckPoint s₀ with
      | error e s₁ =>
          rw [bind_of_error hb] at h
          have hlost :=
            (((runnerRule_traced covers_true fun _ => trivial).runGroupBody _ _ _ _ _).error
            (hi.idle hs) hb).2
          subst h
          rcases hr with ⟨rc, hr⟩ | hr
          · cases hr
          · cases hr
            rcases hlost with hl | hl <;> cases hl
      | ok totals s₁ =>
          rw [bind_of_ok hb] at h
          refine ⟨groupCheckPoint, s₀, totals, s₁, hi, hb, ?_⟩
          cases hf : failIfBlocksAllocated groupCheckPoint "cmocka_group_tests".toList s₁ with
          | error e s₂ =>
              rw [bind_of_error hf] at h
              subst h
              rcases hr with ⟨rc, hr⟩ | hr
              · cases hr
              · cases hr
                exact ⟨((prints_failIfBlocksAllocated _ _).error hf).1, by intro rc h; cases h⟩
          | ok u s₂ =>
              rw [bind_of_ok hf, pure_apply] at h
              subst h
              rcases hr with ⟨rc, hr⟩ | hr
              · obtain ⟨-, rfl⟩ := EStateM.Result.ok.inj hr
                exact ⟨(prints_failIfBlocksAllocated _ _).ok hf,
                  fun rc h => (EStateM.Result.ok.inj h).1.symm⟩
              · cases hr

/-- The state between two groups. -/
theorem idle_runGroups {platform : Platform} {groups : List Group} {rcs : List Int} {s : Globals}
    (h : runGroups groups (Globals.initial platform) = .ok rcs s) : Idle s :=
  ((meets_runGroups covers_true (fun _ => trivial) groups).ok (idle_initial platform) h).1

/-- **Callback protocol.**  Whatever groups ran before, a group invokes the callbacks of the
protocol over its selected tests and no others, in that order; without memory for its test array it
invokes none. -/
theorem group_invokes_callbacks_in_order (platform : Platform) (before : List Group)
    (rcs : List Int) (s s' : Globals) (g : Group)
    (hbefore : runGroups before (Globals.initial platform) = .ok rcs s)
    (h : (∃ rc, g.run s = .ok rc s') ∨ g.run s = .error .exitFailure s') :
    ∃ events, s'.trace = s.trace ++ events ∧
      entered events = (invocations events).map Invocation.fn ∧
      (g.allocated = true →
        GroupCalls (g.tests.filter (isSelected g.testFilter g.skipFilter)) g.setup g.teardown
          (invocations events)) ∧
      (g.allocated = false → invocations events = []) := by
  have hs := idle_runGroups hbefore
  let s₀ : Globals := { s with
    globalTestFilterPattern := g.testFilter, globalSkipFilterPattern := g.skipFilter }
  have hrun : g.run s = cmockaRunGroupTests g.name g.tests g.setup g.teardown g.allocated s₀ := rfl
  rw [hrun] at h
  cases ha : g.allocated with
  | true =>
      rw [ha] at h
      obtain ⟨groupCheckPoint, s₁, totals, s₂, hi, hb, hi', -⟩ :=
        cmockaRunGroupTests_body (s := s₀) hs rfl h
      obtain ⟨setup, records, teardown, skip, events, hg, hst, -⟩ :=
        runGroupBody_run (hi.idle hs) hb
      rw [hi.quiet.testFilter, hi.quiet.skipFilter] at hg
      obtain ⟨hcalls, hent⟩ := hg.calls
      refine ⟨events, ?_, hent, fun _ => hcalls, fun hf => by cases hf⟩
      rw [hi'.trace_eq, hst.trace, hi.trace_eq]
  | false =>
      rw [ha, cmockaRunGroupTests_eq] at h
      have hnone : s'.trace = s.trace := by
        cases hc : checkPointAllocatedBlocks s₀ with
        | error e s₁ =>
            rw [bind_of_error hc] at h
            rcases h with ⟨rc, h⟩ | h
            · cases h
            · cases h
              exact (checkPoint_error hc).2.trace_eq
        | ok groupCheckPoint s₁ =>
            rw [bind_of_ok hc] at h
            rcases h with ⟨rc, h⟩ | h
            · cases h
              exact (prints_checkPointAllocatedBlocks.ok hc).trace_eq
            · cases h
      exact ⟨[], by simpa using hnone, rfl, fun hf => (by cases hf), fun _ => rfl⟩

/-- A group setup that sets the group state, one test with fixtures whose function fails, and one
that the skip filter leaves out. -/
def fixtureGroup : Group where
  name := "tests".toList
  tests := [
    { name := some "failing".toList
      testFunc := some (.ending 1 (.fail "t.c".toList 10))
      setupFunc := some (.ending 2 (.ret 0))
      teardownFunc := some (.ending 3 (.ret 0))
      initialState := 5 },
    { name := some "other".toList
      testFunc := some (.ending 4 (.ret 0))
      setupFunc := none
      teardownFunc := none
      initialState := 0 }]
  setup := some ⟨6, ⟨[.storeState 7], .ret 0⟩⟩
  teardown := some (.ending 8 (.ret 0))
  allocated := true
  testFilter := none
  skipFilter := some "o*".toList

/-- The teardown of the failing test runs, with the state of the group. -/
theorem fixtureGroup_invocations :
    ∃ s' events, fixtureGroup.run (Globals.initial .lp64) = .ok 1 s' ∧ s'.trace = events ∧
      GroupCalls (fixtureGroup.tests.filter (isSelected none (some "o*".toList)))
        fixtureGroup.setup fixtureGroup.teardown (invocations events) ∧
      (invocations events).map (fun i => (i.fn, i.received)) =
        [(6, 0), (2, 7), (1, 7), (3, 7), (8, 7)] := by
  have h : fixtureGroup.run (Globals.initial .lp64) =
      .ok 1 (final (fixtureGroup.run (Globals.initial .lp64))) :=
    eq_ok_of_value (by decide +kernel)
  obtain ⟨events, htr, -, hcalls, -⟩ :=
    group_invokes_callbacks_in_order .lp64 [] [] _ _ fixtureGroup rfl (.inl ⟨1, h⟩)
  have hevents : (final (fixtureGroup.run (Globals.initial .lp64))).trace = events := htr
  refine ⟨_, events, h, hevents, hcalls rfl, ?_⟩
  rw [← hevents]
  decide +kernel

end Cmocka
