import Cmocka.Reference.Callbacks
import Cmocka.Runner.Protocol

/-!
# Reference — tests, groups and processes

The runner puts callbacks together as `CMUnitTest.judge`, `Group.judge` and `judgeGroups` do: each of
its functions takes one state between callbacks to the next.  So a process comes to what the bench
says (`process_judged`): what its groups return, or that it exits, and all its verdicts.
-/

namespace Cmocka

open Runs NodeHeap

/-! ### Later tables -/

section Later

variable {p : Platform} {since blocks : BlockTable} {kind : CallbackKind} {state : Addr}

theorem judge_later {script : Script} {b : Bench} (h : since.Later b.blocks) :
    since.Later (judge p since kind script b).blocks := by
  have hplay := h.trans (Bench.later_play (p := p) (b := b) script)
  cases hleft : (b.play p script).1 with
  | error reason =>
      rw [judge_of_jump hleft]
      exact hplay
  | ok code =>
      rw [judge_of_return hleft]
      split
      · exact hplay.release
      · split <;> exact hplay

/-- The blocks a callback leaves are later than those of its check point. -/
theorem judgeOptional_later {f : Option UserFn} (h : since.Later blocks) :
    since.Later (judgeOptional p since kind f state blocks).blocks := by
  cases f with
  | none => exact h
  | some f => exact judge_later h

theorem CMUnitTest.judge_later (t : CMUnitTest) (skip : Bool) :
    blocks.Later (t.judge p state blocks skip).blocks := by
  have hsetup : blocks.Later (t.judgeSetup p state blocks).blocks := judgeOptional_later (.refl _)
  have hbody : blocks.Later (t.judgeBody p state blocks).blocks :=
    hsetup.trans (judgeOptional_later (.refl _))
  rw [CMUnitTest.judge]
  dsimp only
  split
  · -- the check point of the teardown may be later than that of the setup
    rw [CMUnitTest.judgeTeardown, CMUnitTest.sinceTeardown]
    split
    · exact judgeOptional_later hbody
    · exact hbody.trans (judgeOptional_later (.refl _))
  · exact hsetup

theorem judgeTests_later (groupState : Addr) (tests : List CMUnitTest) (skip : Bool) :
    blocks.Later (judgeTests p groupState tests blocks skip).2.1 := by
  induction tests generalizing blocks skip with
  | nil => exact .refl _
  | cons t tests ih => exact (t.judge_later skip).trans (ih _)

theorem Group.judgeSelected_later (g : Group) (skip : Bool) :
    blocks.Later (g.judgeSelected p blocks skip).2.1 := by
  have hsetup : blocks.Later (g.judgeSetup p blocks).blocks := judgeOptional_later (.refl _)
  rw [Group.judgeSelected]
  split
  · exact hsetup.trans (judgeTests_later _ _ _)
  · exact hsetup

end Later

/-! ### One test -/

/-- Printing between callbacks. -/
theorem print_judged {p : Platform} {r : Rest} (text : CString) :
    Yields (Globals.Rests p r) (cmockaPrintError text) fun _ s' => s'.Rests p r :=
  Yields.modify fun _ h => ⟨h.platform, h.idle, h.blocks, h.skip, h.verdicts⟩

theorem theCallback_setup (f : UserFn) :
    theCallback none (some f) none = (some f).map (·, .setup) := rfl

theorem theCallback_teardown (f : UserFn) :
    theCallback none none (some f) = (some f).map (·, .teardown) := rfl

section Test

variable {p : Platform} {t : CMUnitTest} {state : Addr} {r : Rest} {ts : CMUnitTestState}

/-- The state of a test, before it is run. -/
structure CMUnitTestState.Starts (ts : CMUnitTestState) (t : CMUnitTest) (state : Addr) : Prop where
  test : ts.test = t
  state : ts.state = state
  checkPoint : ts.checkPoint = none

/-- The state of a test, behind its setup. -/
structure CMUnitTestState.IsSetUp (ts : CMUnitTestState) (p : Platform) (t : CMUnitTest)
    (blocks : BlockTable) (setup : Judged) : Prop where
  test : ts.test = t
  state : ts.state = setup.state
  checkPoint : ∀ later, blocks.Later later →
    CheckPointed p ts.checkPoint (if t.setupFunc.isSome then blocks else later) later
  status : setup.rc ≠ 0 → ts.status = .error

theorem Globals.Rests.nothing {s : Globals} {ending : Int} (hs : s.Rests p r) :
    s.Rests p (r.behind ⟨.returned ending, 0, state, r.blocks⟩) :=
  ⟨hs.platform, hs.idle, hs.blocks, hs.skip.trans (Bool.or_false _).symm, hs.verdicts⟩

/-- The setup part of `cmocka_run_one_tests`. -/
theorem runTestSetup_judged (hp : p.Sized) (habort : p.abortTest = false)
    (hts : ts.Starts t state)
    (hallowed : AllowsOptional p r.blocks .setup t.setupFunc state r.blocks) :
    Yields (Globals.Rests p r) (runTestSetup ts) fun out s' =>
      (out.1 = (t.judgeSetup p state r.blocks).rc ∧
        out.2.1.IsSetUp p t r.blocks (t.judgeSetup p state r.blocks) ∧
        out.2.2 = (t.judgeSetup p state r.blocks).invocation .setup t.setupFunc state) ∧
      s'.Rests p (r.behind (t.judgeSetup p state r.blocks)) := by
  obtain ⟨rfl, rfl, hnone⟩ := hts
  rw [CMUnitTest.judgeSetup, runTestSetup]
  cases hf : ts.test.setupFunc with
  | none =>
      refine Yields.pure fun s hs => ⟨⟨rfl, ⟨rfl, rfl, fun later _ => ?_, fun h => absurd rfl h⟩,
        rfl⟩, hs.nothing⟩
      rw [hnone, hf]
      exact .fresh later
  | some f =>
      rw [hf] at hallowed
      refine checkPoint_judged.bind fun node => .of_fact fun hnode =>
        (runOne_judged _ hp habort (theCallback_setup f) (.taken hnode) hallowed).bind
          fun run => .of_fact fun hrun => ?_
      have hcheck : ∀ later, r.blocks.Later later →
          CheckPointed p (some node) (if ts.test.setupFunc.isSome then r.blocks else later)
            later := by
        intro later hlater
        rw [hf]
        exact .taken ⟨hnode.node, hnode.held, hlater⟩
      subst hrun
      refine Yields.ite (fun hrc => ?_) fun hrc => ?_
      · exact (print_judged _).bind fun _ => Yields.pure fun s hs =>
          ⟨⟨rfl, ⟨rfl, rfl, hcheck, fun _ => rfl⟩, rfl⟩, hs⟩
      · exact Yields.pure fun s hs =>
          ⟨⟨(not_not.mp hrc).symm, ⟨rfl, rfl, hcheck, fun h => absurd h hrc⟩, rfl⟩, hs⟩

/-- The state of a test, behind its test function. -/
structure CMUnitTestState.HasRun (ts : CMUnitTestState) (t : CMUnitTest)
    (checkPoint : Option BlockNode) (status : CMUnitTestStatus) (body : Judged) : Prop where
  test : ts.test = t
  state : ts.state = body.state
  checkPoint : ts.checkPoint = checkPoint
  status : ts.status = status

/-- What there is behind a test function: a failure answers a `skip()`. -/
def Rest.behindBody (r : Rest) (body : Judged) : Rest :=
  { r with blocks := body.blocks, skip := decide (body.rc = 0) && (r.skip || body.skipped) }

/-- The part of `cmocka_run_one_tests` that runs the test function. -/
theorem runTestBody_judged {body : Judged} (hp : p.Sized) (habort : p.abortTest = false)
    (htest : ts.test = t) (hstate : ts.state = state)
    (hbody : judgeOptional p r.blocks .test t.testFunc state r.blocks = body)
    (hallowed : AllowsOptional p r.blocks .test t.testFunc state r.blocks) :
    Yields (Globals.Rests p r) (runTestBody ts) fun out s' =>
      (out.1.HasRun t ts.checkPoint (bodyStatus (r.skip || body.skipped) body.rc) body ∧
        out.2 = body.invocation .test t.testFunc state) ∧
      s'.Rests p (r.behindBody body) := by
  subst htest hstate hbody
  rw [runTestBody]
  refine (runOne_judged _ hp habort (theCallback_test _) (.fresh r.blocks) hallowed).bind
    fun run => .of_fact fun hrun => ?_
  subst hrun
  have hpassed (j : Judged) (hrc : j.rc = 0) : (r.behindBody j) = r.behind j := by
    rw [Rest.behindBody, Rest.behind, decide_eq_true hrc, Bool.true_and]
  have hfailed (j : Judged) (hrc : ¬j.rc = 0) : (r.behindBody j).skip = false := by
    rw [Rest.behindBody, decide_eq_false hrc, Bool.false_and]
  refine Yields.ite (fun hrc => ?_) fun hrc => ?_
  · refine Yields.pure fun s hs => ⟨⟨⟨rfl, rfl, rfl, (if_pos hrc).symm⟩, rfl⟩, ?_⟩
    rw [hpassed _ hrc]
    exact hs
  · refine Yields.get_bind fun s hs => ?_
    have hskip := hs.skip
    by_cases hset : s.globalSkipTest = true
    · rw [if_pos hset]
      exact ⟨_, _, rfl, ⟨⟨rfl, rfl, rfl,
        ((if_neg hrc).trans (if_pos (hskip.symm.trans hset))).symm⟩, rfl⟩, hs.platform, hs.idle,
        hs.blocks, (hfailed _ hrc).symm, hs.verdicts⟩
    · rw [if_neg hset]
      rw [Bool.not_eq_true] at hset
      exact ⟨_, _, rfl, ⟨⟨rfl, rfl, rfl, ((if_neg hrc).trans
        (if_neg (Bool.eq_false_iff.mp (hskip.symm.trans hset)))).symm⟩, rfl⟩, hs.platform, hs.idle,
        hs.blocks, hset.trans (hfailed _ hrc).symm, hs.verdicts⟩

/-- The teardown part of `cmocka_run_one_tests`. -/
theorem runTestTeardown_judged {since : BlockTable} {teardown : Judged} {status : CMUnitTestStatus}
    (hp : p.Sized) (habort : p.abortTest = false) (htest : ts.test = t) (hstate : ts.state = state)
    (hstatus : ts.status = status)
    (hteardown : judgeOptional p since .teardown t.teardownFunc state r.blocks = teardown)
    (hcheck : CheckPointed p ts.checkPoint since r.blocks)
    (hallowed : AllowsOptional p since .teardown t.teardownFunc state r.blocks) :
    Yields (Globals.Rests p r) (runTestTeardown ts) fun out s' =>
      (out.1 = teardown.rc ∧ (out.2.1.test = t ∧ out.2.1.status = finalStatus status teardown.rc) ∧
        out.2.2 = teardown.invocation .teardown t.teardownFunc state) ∧
      s'.Rests p (r.behind teardown) := by
  subst htest hstate hstatus hteardown
  rw [runTestTeardown]
  cases hf : ts.test.teardownFunc with
  | none =>
      exact Yields.pure fun s hs => ⟨⟨rfl, ⟨rfl, rfl⟩, rfl⟩, hs.nothing⟩
  | some f =>
      rw [hf] at hallowed
      refine (runOne_judged _ hp habort (theCallback_teardown f) hcheck hallowed).bind
        fun run => .of_fact fun hrun => ?_
      subst hrun
      refine Yields.ite (fun hrc => ?_) fun hrc => ?_
      · exact (print_judged _).bind fun _ => Yields.pure fun s hs =>
          ⟨⟨rfl, ⟨rfl, (if_neg hrc).symm⟩, rfl⟩, hs⟩
      · exact Yields.pure fun s hs =>
          ⟨⟨(not_not.mp hrc).symm, ⟨rfl, (if_pos (not_not.mp hrc)).symm⟩, rfl⟩, hs⟩

/-- The end of `cmocka_run_one_tests`. -/
theorem finishTest_judged {setup test teardown : Option Invocation} :
    Yields (Globals.Rests p r) (finishTest ts setup test teardown) fun ts' s' =>
      (ts'.test = ts.test ∧ ts'.status = ts.status) ∧
      s'.Rests p { r with
        verdicts := r.verdicts ++ [.test { setup, test, teardown, status := ts.status }] } := by
  intro s hs
  refine ⟨_, _, rfl, ⟨rfl, rfl⟩, hs.platform, hs.idle, hs.blocks, hs.skip, ?_⟩
  exact List.filterMap_append.trans (congrArg (· ++ _) hs.verdicts)

/-- **`cmocka_run_one_tests`** does what `CMUnitTest.judge` says. -/
theorem cmockaRunOneTests_judged {j : JudgedTest} (hp : p.Sized) (habort : p.abortTest = false)
    (hts : ts.Starts t state) (hj : t.judge p state r.blocks r.skip = j)
    (hallowed : t.Allowed p state r.blocks) :
    Yields (Globals.Rests p r) (cmockaRunOneTests ts) fun out s' =>
      (out.1 = j.rc ∧ out.2.test = t ∧ out.2.status = j.record.status) ∧
      s'.Rests p ⟨j.blocks, j.skip, r.verdicts ++ [.test j.record]⟩ := by
  subst hj
  refine (runTestSetup_judged hp habort hts hallowed.setup).bind fun out => .of_fact fun hout => ?_
  obtain ⟨rc, ts₁, i₁⟩ := out
  obtain ⟨hrc, hset, hi₁⟩ := hout
  dsimp only at hrc hset hi₁ ⊢
  subst hrc hi₁
  refine Yields.ite (fun hrc => ?_) fun hrc => ?_
  · have hjudge := hallowed.body hrc
    refine (runTestBody_judged hp habort hset.test hset.state
      (show _ = t.judgeBody p state r.blocks from rfl) hjudge).bind fun out =>
        .of_fact fun hout => ?_
    obtain ⟨ts₂, i₂⟩ := out
    obtain ⟨hrun, hi₂⟩ := hout
    dsimp only at hrun hi₂ ⊢
    subst hi₂
    have hlater : r.blocks.Later (t.judgeBody p state r.blocks).blocks :=
      (judgeOptional_later (.refl _)).trans (judgeOptional_later (.refl _))
    have hcheck := hset.checkPoint _ hlater
    rw [← hrun.checkPoint] at hcheck
    refine (runTestTeardown_judged hp habort hrun.test hrun.state hrun.status
      (show _ = t.judgeTeardown p state r.blocks from rfl) hcheck (hallowed.teardown hrc)).bind
        fun out => .of_fact fun hout => ?_
    obtain ⟨rc₃, ts₃, i₃⟩ := out
    obtain ⟨hrc₃, ⟨htest₃, hstatus₃⟩, hi₃⟩ := hout
    dsimp only at hrc₃ htest₃ hstatus₃ hi₃ ⊢
    subst hrc₃ hi₃
    refine finishTest_judged.bind fun ts₄ => .of_fact fun hts₄ => ?_
    rw [CMUnitTest.judge]
    dsimp only
    rw [if_pos hrc]
    refine Yields.pure fun s hs => ⟨⟨rfl, hts₄.1.trans htest₃, hts₄.2.trans hstatus₃⟩, ?_⟩
    rw [hstatus₃] at hs
    exact hs
  · refine finishTest_judged.bind fun ts₂ => .of_fact fun hts₂ => ?_
    rw [CMUnitTest.judge]
    dsimp only
    rw [if_neg hrc]
    refine Yields.pure fun s hs =>
      ⟨⟨rfl, hts₂.1.trans hset.test, hts₂.2.trans (hset.status hrc)⟩, ?_⟩
    rw [hset.status hrc] at hs
    exact hs

end Test

/-! ### The tests of a group -/

section Tests

variable {p : Platform} {r : Rest}

/-- Events that are no verdicts. -/
theorem record_judged {events : List Event} (h : events.filterMap Event.verdict? = []) :
    Yields (Globals.Rests p r) (record events) fun _ s' => s'.Rests p r := by
  refine Yields.modify fun s hs => ⟨hs.platform, hs.idle, hs.blocks, hs.skip, ?_⟩
  rw [Globals.verdicts, List.filterMap_append, h, List.append_nil]
  exact hs.verdicts

/-- The report on a finished test. -/
theorem countTest_judged (testNumber : Nat) (rc : Int) (ts : CMUnitTestState) (totals : Totals) :
    Yields (Globals.Rests p r) (countTest testNumber rc ts totals) fun totals' s' =>
      totals' = totals.count rc ts.status ∧ s'.Rests p r := by
  have one : ∀ (type : CmPrintfType) (message : Option CString) (totals' : Totals),
      Yields (Globals.Rests p r) (do
        record [.cmprintf type testNumber ts.test.nameText message]
        return totals' : CM Totals) fun totals'' s' => totals'' = totals' ∧ s'.Rests p r :=
    fun _ _ _ => (record_judged rfl).bind fun _ => Yields.pure fun s hs => ⟨rfl, hs⟩
  unfold countTest Totals.count
  dsimp only
  by_cases hrc : rc = 0
  · rw [if_pos hrc, if_pos hrc]
    cases ts.status <;> exact one _ _ _
  · rw [if_neg hrc, if_neg hrc]
    exact one _ _ _

/-- **The loop over the tests** does what `judgeTests` says. -/
theorem runTests_judged {groupState : Addr} {tests : List CMUnitTest} (hp : p.Sized)
    (habort : p.abortTest = false) (testNumber : Nat) (totals : Totals)
    (hallowed : TestsAllowed p groupState tests r.blocks r.skip) :
    Yields (Globals.Rests p r) (runTests groupState tests testNumber totals) fun out s' =>
      (out.1 = totals.countAll (judgeTests p groupState tests r.blocks r.skip).1 ∧
        out.2.map CMUnitTestState.test = tests ∧
        out.2.map CMUnitTestState.status =
          (judgeTests p groupState tests r.blocks r.skip).1.map (·.1.status)) ∧
      s'.Rests p ⟨(judgeTests p groupState tests r.blocks r.skip).2.1,
        (judgeTests p groupState tests r.blocks r.skip).2.2,
        r.verdicts ++ (judgeTests p groupState tests r.blocks r.skip).1.map (.test ·.1)⟩ := by
  induction tests generalizing r testNumber totals with
  | nil =>
      refine Yields.pure fun s hs => ⟨⟨rfl, rfl, rfl⟩, ?_⟩
      rw [judgeTests, List.map_nil, List.append_nil]
      exact hs
  | cons t tests ih =>
      obtain ⟨hfirst, hrest⟩ := hallowed
      rw [runTests]
      refine (record_judged rfl).bind fun _ => ?_
      refine (cmockaRunOneTests_judged (t := t) hp habort ⟨rfl, rfl, rfl⟩ rfl hfirst).bind
        fun out => .of_fact fun hout => ?_
      obtain ⟨rc, ts⟩ := out
      obtain ⟨hrc, htest, hstatus⟩ := hout
      dsimp only at hrc htest hstatus ⊢
      refine (countTest_judged testNumber rc ts totals).bind fun totals₁ => .of_fact fun htotals => ?_
      refine (ih (testNumber + 1) totals₁ hrest).bind fun out => .of_fact fun hout => ?_
      obtain ⟨totals₂, done⟩ := out
      obtain ⟨htotals₂, htests, hstatuses⟩ := hout
      dsimp only at htotals₂ htests hstatuses ⊢
      refine Yields.pure fun s hs => ⟨⟨?_, ?_, ?_⟩, ?_⟩
      · rw [htotals₂, htotals, hrc, hstatus]
        rfl
      · rw [List.map_cons, htest, htests]
      · rw [List.map_cons, hstatus, hstatuses]
        rfl
      · rw [List.append_assoc] at hs
        exact hs

end Tests

/-! ### A group -/

section Group

variable {p : Platform} {r : Rest} {node : BlockNode}

theorem runGroupSetup_judged {groupSetup : Option UserFn} {setup : Judged} (hp : p.Sized)
    (habort : p.abortTest = false) (hnode : Taken p node r.blocks r.blocks)
    (hsetup : judgeOptional p r.blocks .setup groupSetup 0 r.blocks = setup)
    (hallowed : AllowsOptional p r.blocks .setup groupSetup 0 r.blocks) :
    Yields (Globals.Rests p r) (runGroupSetup groupSetup node) fun out s' =>
      out = (setup.rc, setup.state) ∧ s'.Rests p (r.behind setup) := by
  subst hsetup
  cases groupSetup with
  | none => exact Yields.pure fun s hs => ⟨rfl, hs.nothing⟩
  | some f =>
      refine (runOne_judged _ hp habort (theCallback_setup f) (.taken hnode) hallowed).bind
        fun run => .of_fact fun hrun => ?_
      subst hrun
      exact Yields.pure fun s hs => ⟨rfl, hs⟩

theorem reportGroupFixture_judged (groupName text : CString) :
    Yields (Globals.Rests p r) (reportGroupFixture groupName text) fun _ s' => s'.Rests p r := by
  refine Yields.get_bind fun s hs => ?_
  cases s.cmErrorMessage with
  | none => exact record_judged rfl s hs
  | some message =>
      have hs' : Globals.Rests p r { s with cmErrorMessage := none } :=
        ⟨hs.platform, hs.idle, hs.blocks, hs.skip, hs.verdicts⟩
      exact ((record_judged rfl).bind fun _ => record_judged rfl) _ hs'

theorem runGroupTeardown_judged {groupName : CString} {groupTeardown : Option UserFn}
    {groupState : Addr} {since : BlockTable} {teardown : Judged} (hp : p.Sized)
    (habort : p.abortTest = false) (hnode : Taken p node since r.blocks)
    (hteardown : judgeOptional p since .teardown groupTeardown groupState r.blocks = teardown)
    (hallowed : AllowsOptional p since .teardown groupTeardown groupState r.blocks) :
    Yields (Globals.Rests p r) (runGroupTeardown groupName groupTeardown groupState node)
      fun _ s' => s'.Rests p (r.behind teardown) := by
  subst hteardown
  cases groupTeardown with
  | none => exact Yields.pure fun s hs => hs.nothing
  | some f =>
      refine (runOne_judged _ hp habort (theCallback_teardown f) (.taken hnode) hallowed).bind
        fun run => .of_fact fun hrun => ?_
      subst hrun
      exact Yields.ite (fun _ => reportGroupFixture_judged _ _) fun _ =>
        Yields.pure fun s hs => hs

/-- The end of a group, up to the search for blocks. -/
theorem groupEnd_judged {g : Group} {groupState : Addr} {since : BlockTable} {teardown : Judged}
    (hp : p.Sized) (habort : p.abortTest = false) (hnode : Taken p node since r.blocks)
    (hteardown : judgeOptional p since .teardown g.teardown groupState r.blocks = teardown)
    (hallowed : AllowsOptional p since .teardown g.teardown groupState r.blocks) (totals : Totals)
    (done : List CMUnitTestState) :
    Yields (Globals.Rests p r) (do
        runGroupTeardown g.name g.teardown groupState node
        record [.groupFinish g.name totals.executed totals.passed totals.failed totals.errors
          totals.skipped (done.map fun ts => (ts.test.nameText, ts.status, ts.errorMessage))]
        return totals : CM Totals) fun totals' s' =>
      totals' = totals ∧ s'.Rests p ⟨teardown.blocks, r.skip || teardown.skipped,
        r.verdicts ++ [.group g.name totals (((done.map CMUnitTestState.test).map
          CMUnitTest.nameText).zip (done.map CMUnitTestState.status))]⟩ := by
  refine (runGroupTeardown_judged hp habort hnode hteardown hallowed).bind fun _ => ?_
  refine Yields.bind (Q := fun _ s' => Globals.Rests p _ s') (Yields.modify fun s hs => ?_) fun _ =>
    Yields.pure fun s hs => ⟨rfl, hs⟩
  refine ⟨hs.platform, hs.idle, hs.blocks, hs.skip, ?_⟩
  rw [Globals.verdicts, List.filterMap_append, ← Globals.verdicts, hs.verdicts, List.map_map,
    List.zip_map']
  simp [Event.verdict?, Rest.behind, Function.comp_def]

/-- A state between callbacks, with the filters of a group set. -/
def Group.Filtered (g : Group) (p : Platform) (r : Rest) (s : Globals) : Prop :=
  (s.globalTestFilterPattern = g.testFilter ∧ s.globalSkipFilterPattern = g.skipFilter) ∧
    s.Rests p r

/-- What the counters of a group come to. -/
def Group.judgeTotals (g : Group) (p : Platform) (blocks : BlockTable) (skip : Bool) : Totals :=
  groupTotals (g.judgeSetup p blocks).rc (g.judgeSelected p blocks skip).1

/-- What there is behind a group, before its search for blocks. -/
def Group.rest (g : Group) (p : Platform) (r : Rest) : Rest where
  blocks := (g.judgeTeardown p r.blocks r.skip).blocks
  skip := (g.judgeSelected p r.blocks r.skip).2.2 || (g.judgeTeardown p r.blocks r.skip).skipped
  verdicts := r.verdicts ++ ((g.judgeSelected p r.blocks r.skip).1.map (fun x => .test x.1) ++
    [.group g.name (g.judgeTotals p r.blocks r.skip)
      ((g.selected.map CMUnitTest.nameText).zip (g.statuses p r.blocks r.skip))])

/-- The tests of a group whose setup succeeded. -/
theorem selected_judged {g : Group} (hp : p.Sized) (habort : p.abortTest = false)
    (hallowed : g.Allowed p r.blocks r.skip) (hrc : (g.judgeSetup p r.blocks).rc = 0) :
    Yields (Globals.Rests p (r.behind (g.judgeSetup p r.blocks)))
      (runTests (g.judgeSetup p r.blocks).state g.selected 1 ⟨0, 0, 0, 0, 0⟩) fun out s' =>
        (out.1 = g.judgeTotals p r.blocks r.skip ∧ out.2.map CMUnitTestState.test = g.selected ∧
          out.2.map CMUnitTestState.status = g.statuses p r.blocks r.skip) ∧
        s'.Rests p ⟨(g.judgeSelected p r.blocks r.skip).2.1,
          (g.judgeSelected p r.blocks r.skip).2.2,
          r.verdicts ++ (g.judgeSelected p r.blocks r.skip).1.map (.test ·.1)⟩ := by
  have hselected : g.judgeSelected p r.blocks r.skip = judgeTests p (g.judgeSetup p r.blocks).state
      g.selected (g.judgeSetup p r.blocks).blocks (r.skip || (g.judgeSetup p r.blocks).skipped) :=
    if_pos hrc
  rw [Group.judgeTotals, groupTotals, if_pos hrc, Group.statuses, if_pos hrc, hselected]
  exact runTests_judged hp habort 1 _ (hallowed.tests hrc)

/-- A group, between its check point and its own search for blocks. -/
theorem runGroupBody_judged {g : Group} (hp : p.Sized) (habort : p.abortTest = false)
    (hnode : Taken p node r.blocks r.blocks) (hallowed : g.Allowed p r.blocks r.skip) :
    Yields (g.Filtered p r) (runGroupBody g.name g.tests g.setup g.teardown node)
      fun totals s' => totals = g.judgeTotals p r.blocks r.skip ∧ s'.Rests p (g.rest p r) := by
  refine Yields.get_bind fun s hs => ?_
  obtain ⟨⟨htest, hskip⟩, hs⟩ := hs
  dsimp only
  rw [htest, hskip]
  refine (Yields.bind (record_judged rfl) fun _ => ?_) s hs
  refine (runGroupSetup_judged hp habort hnode (show _ = g.judgeSetup p r.blocks from rfl)
    hallowed.setup).bind fun out => .of_fact fun hout => ?_
  subst hout
  have hlater : Taken p node r.blocks (g.judgeSelected p r.blocks r.skip).2.1 :=
    hnode.later_trans (g.judgeSelected_later r.skip)
  have hteardown := hallowed.teardown
  dsimp only
  refine Yields.ite (fun hrc => ?_) fun hrc => ?_
  · -- the group setup succeeded, and the tests run
    refine (selected_judged hp habort hallowed hrc).bind fun out => .of_fact fun hout => ?_
    obtain ⟨totals, done⟩ := out
    obtain ⟨htotals, htests, hstatuses⟩ := hout
    dsimp only at htotals htests hstatuses ⊢
    refine (groupEnd_judged (g := g) hp habort hlater rfl hteardown totals done).mono
      fun totals' s' h => ?_
    rw [htests, hstatuses, htotals, List.append_assoc] at h
    exact h
  · -- it failed: no test runs, and the group teardown does all the same
    have hselected : g.judgeSelected p r.blocks r.skip =
        ([], (g.judgeSetup p r.blocks).blocks, r.skip || (g.judgeSetup p r.blocks).skipped) :=
      if_neg hrc
    rw [hselected] at hlater hteardown
    refine (reportGroupFixture_judged _ _).bind fun _ => ?_
    refine (groupEnd_judged (g := g) hp habort hlater rfl hteardown ⟨0, 0, 0, 1, 0⟩
      (g.selected.map CMUnitTestState.ofTest)).mono fun totals' s' h => ?_
    have htotals : g.judgeTotals p r.blocks r.skip = ⟨0, 0, 0, 1, 0⟩ := if_neg hrc
    have hstatuses : g.statuses p r.blocks r.skip = g.selected.map fun _ => .notStarted :=
      if_neg hrc
    have htests : (g.selected.map CMUnitTestState.ofTest).map CMUnitTestState.test = g.selected := by
      simp [CMUnitTestState.ofTest, Function.comp_def]
    rw [htests, List.map_map] at h
    rw [Group.rest, Group.judgeTeardown, hselected, htotals, hstatuses]
    exact h

/-- Outside a callback, `exit_test` exits. -/
theorem Globals.Rests.exitOf {s : Globals} (hs : s.Rests p r) (habort : p.abortTest = false) :
    s.exitOf .fail = .exitFailure := by
  have hrunning : s.globalRunningTest = false := congrArg Snapshot.globalRunningTest hs.idle
  rw [Globals.exitOf, hs.platform, habort, hrunning, Bool.and_false]
  rfl

/-- The search for blocks at the end of a group. -/
theorem groupLeak_judged {since : BlockTable} {s : Globals} (habort : p.abortTest = false)
    (hs : s.Rests p r) (hnode : Taken p node since r.blocks) (hkept : since.Keeps r.blocks)
    (testName : CString) :
    ∃ s', failIfBlocksAllocated node testName s =
        (if since.leaked r.blocks then .error .exitFailure s' else .ok () s') ∧
      s'.Rests p { r with blocks := since.release r.blocks } := by
  obtain rfl := hs.platform
  obtain ⟨s', hrun, hi, hblocks⟩ := leakCheck_judged hs.blocks hnode hkept testName
  rw [hs.exitOf habort] at hrun
  refine ⟨s', hrun, hi.platform_eq, hi.snapshot_eq.trans hs.idle, hblocks,
    hi.quiet.skip.trans hs.skip, ?_⟩
  rw [Globals.verdicts, hi.trace_eq]
  exact hs.verdicts

theorem checkPoint_filtered {g : Group} : Yields (g.Filtered p r) checkPointAllocatedBlocks
    fun node s' => Taken p node r.blocks r.blocks ∧ g.Filtered p r s' := by
  intro s hs
  obtain ⟨node, s', hrun, hnode, hrests⟩ := checkPoint_judged s hs.2
  have hquiet := (prints_checkPointAllocatedBlocks.ok hrun).quiet
  exact ⟨node, s', hrun, hnode, ⟨hquiet.testFilter.trans hs.1.1, hquiet.skipFilter.trans hs.1.2⟩,
    hrests⟩

/-- **A group** does what `Group.judge` says. -/
theorem group_judged {g : Group} {s : Globals} (hp : p.Sized) (habort : p.abortTest = false)
    (hs : s.Rests p r) (hallowed : g.allocated = true → g.Allowed p r.blocks r.skip) :
    ∃ s', g.run s = (g.judge p r.blocks r.skip).rc.elim (.error .exitFailure s') (.ok · s') ∧
      s'.Rests p ⟨(g.judge p r.blocks r.skip).blocks, (g.judge p r.blocks r.skip).skip,
        r.verdicts ++ (g.judge p r.blocks r.skip).verdicts⟩ := by
  rw [Group.run, bind_of_ok (modify_apply _ s), cmockaRunGroupTests_eq]
  have hfiltered : g.Filtered p r { s with
      globalTestFilterPattern := g.testFilter, globalSkipFilterPattern := g.skipFilter } :=
    ⟨⟨rfl, rfl⟩, hs.platform, hs.idle, hs.blocks, hs.skip, hs.verdicts⟩
  obtain ⟨node, s₁, hcheck, hnode, hs₁⟩ := checkPoint_filtered _ hfiltered
  rw [bind_of_ok hcheck]
  cases hallocated : g.allocated with
  | false =>
      have hjudge : g.judge p r.blocks r.skip = ⟨some (-1), [], r.blocks, r.skip⟩ := by
        rw [Group.judge, hallocated]
        rfl
      refine ⟨s₁, by rw [hjudge]; rfl, ?_⟩
      rw [hjudge, List.append_nil]
      exact hs₁.2
  | true =>
      have hjudge : g.judge p r.blocks r.skip =
          { rc := if r.blocks.leaked (g.rest p r).blocks then none
              else some (toCInt ((g.judgeTotals p r.blocks r.skip).failed +
                (g.judgeTotals p r.blocks r.skip).errors))
            verdicts := (g.judgeSelected p r.blocks r.skip).1.map (fun x => .test x.1) ++
              [.group g.name (g.judgeTotals p r.blocks r.skip)
                ((g.selected.map CMUnitTest.nameText).zip (g.statuses p r.blocks r.skip))]
            blocks := r.blocks.release (g.rest p r).blocks
            skip := (g.rest p r).skip } := by
        rw [Group.judge, hallocated]
        rfl
      have hallowed := hallowed hallocated
      obtain ⟨totals, s₂, hbody, rfl, hs₂⟩ := runGroupBody_judged hp habort hnode hallowed s₁ hs₁
      have hlater : r.blocks.Later (g.rest p r).blocks :=
        judgeOptional_later (g.judgeSelected_later r.skip)
      obtain ⟨s₃, hleak, hs₃⟩ := groupLeak_judged habort hs₂ (hnode.later_trans hlater)
        hallowed.kept "cmocka_group_tests".toList
      rw [if_neg (by decide), bind_of_ok hbody, hjudge]
      refine ⟨s₃, ?_, hs₃⟩
      by_cases hleaked : r.blocks.leaked (g.rest p r).blocks = true
      · rw [if_pos hleaked] at hleak ⊢
        exact bind_of_error hleak _
      · rw [if_neg hleaked] at hleak ⊢
        exact bind_of_ok hleak _

end Group

/-! ### A process -/

/-- The groups of a process, one after the other. -/
theorem runGroups_judged {p : Platform} {groups : List Group} {s : Globals} {r : Rest}
    (hp : p.Sized) (habort : p.abortTest = false) (hs : s.Rests p r)
    (hallowed : GroupsAllowed p groups r.blocks r.skip) :
    ∃ s', runGroups groups s =
        (judgeGroups p groups r.blocks r.skip).1.elim (.error .exitFailure s') (.ok · s') ∧
      s'.verdicts = r.verdicts ++ (judgeGroups p groups r.blocks r.skip).2 := by
  induction groups generalizing s r with
  | nil =>
      refine ⟨s, rfl, ?_⟩
      rw [judgeGroups, List.append_nil]
      exact hs.verdicts
  | cons g groups ih =>
      obtain ⟨hfirst, hrest⟩ := hallowed
      obtain ⟨s₁, hrun, hs₁⟩ := group_judged hp habort hs hfirst
      rw [runGroups]
      cases hrc : (g.judge p r.blocks r.skip).rc with
      | none =>
          rw [hrc] at hrun
          refine ⟨s₁, ?_, ?_⟩
          · simp only [judgeGroups, hrc]
            exact bind_of_error hrun _
          · simp only [judgeGroups, hrc]
            exact hs₁.verdicts
      | some rc =>
          rw [hrc] at hrun
          obtain ⟨s₂, hruns, hverdicts⟩ := ih hs₁ (hrest (by rw [hrc]; rfl))
          refine ⟨s₂, ?_, ?_⟩
          · simp only [judgeGroups, hrc]
            refine (bind_of_ok hrun _).trans ?_
            cases hrcs : (judgeGroups p groups (g.judge p r.blocks r.skip).blocks
              (g.judge p r.blocks r.skip).skip).1 with
            | none =>
                rw [hrcs] at hruns
                exact bind_of_error hruns _
            | some rcs =>
                rw [hrcs] at hruns
                exact bind_of_ok hruns _
          · simp only [judgeGroups, hrc]
            rw [hverdicts, List.append_assoc]

/-- **A process** comes to what the bench says, if its calls are allowed there: what its groups
return, or that one of them exits; and its verdicts, in their order. -/
theorem process_judged {p : Platform} {groups : List Group} (hp : p.Sized)
    (habort : p.abortTest = false) (hallowed : GroupsAllowed p groups .empty false) :
    outcome (runGroups groups (.initial p)) =
        (judgeGroups p groups .empty false).1.elim (.error .exitFailure) .ok ∧
      (final (runGroups groups (.initial p))).verdicts = (judgeGroups p groups .empty false).2 := by
  have hs : (Globals.initial p).Rests p ⟨.empty, false, []⟩ :=
    ⟨rfl, rfl, represents_zeroed p, rfl, rfl⟩
  obtain ⟨s', hrun, hverdicts⟩ := runGroups_judged hp habort hs hallowed
  rw [hrun]
  cases hrcs : (judgeGroups p groups .empty false).1 with
  | none =>
      rw [hrcs] at hrun
      exact ⟨rfl, hverdicts⟩
  | some rcs =>
      rw [hrcs] at hrun
      exact ⟨rfl, hverdicts⟩

/-- A test without fixtures. -/
theorem CMUnitTest.allowed_of_body {p : Platform} {t : CMUnitTest} {state : Addr}
    {blocks : BlockTable} (hsetup : t.setupFunc = none) (hteardown : t.teardownFunc = none)
    (h : AllowsOptional p blocks .test t.testFunc state blocks) : t.Allowed p state blocks where
  setup := by
    rw [hsetup]
    exact allowsOptional_none
  body _ := by
    rw [CMUnitTest.judgeSetup, hsetup]
    exact h
  teardown _ := by
    rw [hteardown]
    exact allowsOptional_none

/-- A callback that makes calls and returns `0`. -/
def UserFn.calls (addr : Addr) (ops : List Op) : UserFn := ⟨addr, ⟨ops, .ret 0⟩⟩

/-- A group that keeps a block in `*state`: the first test passes, the second declares a value that
is never read, and the third does not free its block. -/
def keepingBlock : Group where
  name := "blocks".toList
  tests :=
    [{ name := some "reads".toList
       testFunc := some (.calls 0x401000 [.willReturn "read".toList "t.c".toList 20 none 7 1,
        .mock "read".toList "t.c".toList 5 none])
       setupFunc := none, teardownFunc := none, initialState := 0 },
     { name := some "forgets".toList
       testFunc := some (.calls 0x401100 [.willReturn "read".toList "t.c".toList 30 none 7 1])
       setupFunc := none, teardownFunc := none, initialState := 0 },
     { name := some "leaks".toList
       testFunc := some (.calls 0x401200 [.testMalloc 1 "t.c".toList 40 (some 8192)])
       setupFunc := none, teardownFunc := none, initialState := 0 }]
  setup := some (.calls 0x402000 [.testMalloc 8 "t.c".toList 10 (some 4096), .storeState 4192])
  teardown := some (.calls 0x402100 [.testFree 4192 "t.c".toList 50])
  allocated := true
  testFilter := none
  skipFilter := none

/-- The block in `*state`. -/
def keptBlock : LiveBlock where
  block := 4096
  location := setSourceLocation "t.c".toList 10
  serial := 0
  bytes := List.replicate 8 mallocAllocPattern

theorem keepingBlock_allowed : GroupsAllowed .lp64 [keepingBlock] .empty false := by
  refine ⟨fun _ => ⟨?_, fun _ => ⟨?_, ?_, ?_, trivial⟩, ?_, by decide +kernel⟩, fun _ => trivial⟩
  · -- the group setup allocates the block
    intro f hf
    cases hf
    refine ⟨⟨fun a ha => ?_, fun b' _ => ⟨fun a ha => ?_, fun _ _ => trivial⟩⟩,
      fun h => absurd rfl h⟩
    · cases ha
      exact ⟨by decide, fun _ _ _ b hb => by cases hb⟩
    · cases ha
  · refine CMUnitTest.allowed_of_body rfl rfl fun f hf => ?_
    cases hf
    exact allowsCallback_of_plain (by simp [UserFn.calls, Op.alloc?]) (by decide +kernel)
  · refine CMUnitTest.allowed_of_body rfl rfl fun f hf => ?_
    cases hf
    exact allowsCallback_of_plain (by simp [UserFn.calls, Op.alloc?]) (by decide +kernel)
  · -- the last test allocates behind it
    refine CMUnitTest.allowed_of_body rfl rfl fun f hf => ?_
    cases hf
    refine ⟨⟨fun a ha => ?_, fun _ _ => trivial⟩, fun _ code _ => by decide +kernel⟩
    cases ha
    refine ⟨by decide, fun block hblock _ b hb => ?_⟩
    cases hblock
    change b ∈ [keptBlock] at hb
    obtain rfl := List.mem_singleton.mp hb
    refine Set.disjoint_left.mpr fun a ha hb => ?_
    exact absurd (ha.1.trans_lt hb.2) (by decide)
  · intro f hf
    cases hf
    refine ⟨⟨fun a ha => ?_, fun _ _ => trivial⟩, fun _ code _ => by decide +kernel⟩
    cases ha
    exact .inr ⟨keptBlock, List.mem_cons_self, by decide⟩

theorem keepingBlock_judged :
    outcome (runGroups [keepingBlock] (.initial .lp64)) = .ok [2] ∧
      (final (runGroups [keepingBlock] (.initial .lp64))).verdicts =
        (judgeGroups .lp64 [keepingBlock] .empty false).2 := by
  have hjudge : (judgeGroups .lp64 [keepingBlock] .empty false).1 = some [2] := by decide +kernel
  have h := process_judged (by decide) rfl keepingBlock_allowed
  rw [hjudge] at h
  exact h

end Cmocka
