import Cmocka.Reference.Groups

/-!
# Reference — the tests of a group do not see each other

A test is `Plain` if its callbacks make no calls of the allocator, nor stores into its memory, and
its fixtures do not call `skip()`.  Such tests leave the blocks and the skip flag as they find them
(`CMUnitTest.judge_plain`), and the expectations of a callback are gone behind it; so each test of a
group is recorded as if it were the only one (`tests_isolated`), in whatever order they stand.
-/

namespace Cmocka

open Runs

/-! ### Plain callbacks -/

/-- The callback makes no calls of the allocator, and no stores into its memory. -/
def UserFn.NoAlloc (f : UserFn) : Prop := ∀ op ∈ f.script.ops, op.alloc? = none

/-- The callbacks leave the tracked memory alone, and the fixtures do not call `skip()`. -/
structure CMUnitTest.Plain (t : CMUnitTest) : Prop where
  setup : ∀ f, t.setupFunc = some f → f.NoAlloc ∧ f.script.ending.reason? ≠ some .skip
  test : ∀ f, t.testFunc = some f → f.NoAlloc
  teardown : ∀ f, t.teardownFunc = some f → f.NoAlloc ∧ f.script.ending.reason? ≠ some .skip

section Plain

variable {p : Platform} {kind : CallbackKind} {state : Addr} {blocks : BlockTable}

/-- A callback without calls of the allocator leaves the blocks. -/
theorem judge_blocks {f : UserFn} (hplain : f.NoAlloc) (hblocks : blocks.leaked blocks = false) :
    (judge p blocks kind f.script (.fresh blocks state)).blocks = blocks := by
  have hplay : ((Bench.fresh blocks state).play p f.script).2.blocks = blocks := by
    rw [Bench.play_snd]
    exact (Bench.allowsAll_of_plain hplain).2
  cases hleft : ((Bench.fresh blocks state).play p f.script).1 with
  | error reason =>
      rw [judge_of_jump hleft]
      exact hplay
  | ok code =>
      rw [judge_of_return hleft, hplay, hblocks]
      split
      · exact absurd ‹_ ∧ _›.2 Bool.false_ne_true
      · split <;> rfl

/-- Only the ending of a script skips. -/
theorem play_skip {script : Script} {b : Bench} (h : (b.play p script).1 = .error .skip) :
    script.ending.reason? = some .skip := by
  rw [Bench.play] at h
  split at h
  · cases hend : script.ending <;> rw [hend] at h <;> cases h
    rfl
  · cases h

/-- Only a script that ends by `skip()` is skipped, and it has failed. -/
theorem judge_skipped {since : BlockTable} {script : Script} {b : Bench}
    (h : (judge p since kind script b).skipped = true) :
    script.ending.reason? = some .skip ∧ (judge p since kind script b).rc = -1 := by
  cases hleft : (b.play p script).1 with
  | error reason =>
      rw [judge_of_jump hleft] at h ⊢
      cases reason with
      | skip =>
          refine ⟨play_skip hleft, ?_⟩
          dsimp only
          rw [if_neg fun hstop => Reason.noConfusion hstop.1]
      | fail => cases h
      | stop => cases h
  | ok code =>
      rw [judge_of_return hleft] at h
      split at h
      · cases h
      · split at h <;> cases h

theorem judgeOptional_blocks {f : Option UserFn} (hplain : ∀ g, f = some g → g.NoAlloc)
    (hblocks : blocks.leaked blocks = false) :
    (judgeOptional p blocks kind f state blocks).blocks = blocks := by
  cases f with
  | none => rfl
  | some f => exact judge_blocks (hplain f rfl) hblocks

/-- A fixture that does not call `skip()`. -/
theorem judgeOptional_not_skipped {since : BlockTable} {f : Option UserFn}
    (hskip : ∀ g, f = some g → g.script.ending.reason? ≠ some .skip) :
    (judgeOptional p since kind f state blocks).skipped = false := by
  cases f with
  | none => rfl
  | some f =>
      by_contra h
      exact hskip f rfl (judge_skipped (Bool.of_not_eq_false h)).1

/-- What was skipped did not succeed. -/
theorem judgeOptional_skipped_rc {since : BlockTable} {f : Option UserFn}
    (h : (judgeOptional p since kind f state blocks).skipped = true) :
    (judgeOptional p since kind f state blocks).rc ≠ 0 := by
  cases f with
  | none => cases h
  | some f =>
      rw [judgeOptional, Option.elim_some, (judge_skipped h).2]
      decide

theorem allowsOptional_of_plain {f : Option UserFn} (hplain : ∀ g, f = some g → g.NoAlloc) :
    AllowsOptional p blocks kind f state blocks := fun g hg =>
  allowsCallback_of_plain (hplain g hg) fun b hb => ⟨b, List.mem_of_getLast? hb, rfl⟩

end Plain

/-! ### Plain tests -/

section Tests

variable {p : Platform} {t : CMUnitTest} {state : Addr} {blocks : BlockTable}

/-- Each part of a plain test leaves the blocks. -/
theorem CMUnitTest.Plain.leaves (h : t.Plain) (p : Platform) (state : Addr)
    (hblocks : blocks.leaked blocks = false) :
    (t.judgeSetup p state blocks).blocks = blocks ∧ (t.judgeBody p state blocks).blocks = blocks ∧
      t.sinceTeardown p state blocks = blocks ∧
      (t.judgeTeardown p state blocks).blocks = blocks := by
  have hsetup : (t.judgeSetup p state blocks).blocks = blocks :=
    judgeOptional_blocks (fun f hf => (h.setup f hf).1) hblocks
  have hbody : (t.judgeBody p state blocks).blocks = blocks := by
    rw [CMUnitTest.judgeBody, hsetup]
    exact judgeOptional_blocks h.test hblocks
  have hsince : t.sinceTeardown p state blocks = blocks := by
    rw [CMUnitTest.sinceTeardown, hbody, ite_self]
  refine ⟨hsetup, hbody, hsince, ?_⟩
  rw [CMUnitTest.judgeTeardown, hsince, hbody]
  exact judgeOptional_blocks (fun f hf => (h.teardown f hf).1) hblocks

/-- **A plain test** leaves the blocks as they are, and no `skip()` to be answered. -/
theorem CMUnitTest.judge_plain (h : t.Plain) (p : Platform) (state : Addr)
    (hblocks : blocks.leaked blocks = false) :
    (t.judge p state blocks false).blocks = blocks ∧
      (t.judge p state blocks false).skip = false := by
  obtain ⟨hsetup, hbody, hsince, hteardown⟩ := h.leaves p state hblocks
  have hs : (t.judgeSetup p state blocks).skipped = false :=
    judgeOptional_not_skipped fun f hf => (h.setup f hf).2
  have ht : (t.judgeTeardown p state blocks).skipped = false :=
    judgeOptional_not_skipped fun f hf => (h.teardown f hf).2
  have hb : (decide ((t.judgeBody p state blocks).rc = 0) &&
      (t.judgeBody p state blocks).skipped) = false := by
    cases hskipped : (t.judgeBody p state blocks).skipped with
    | false => rw [Bool.and_false]
    | true =>
        have hrc : (t.judgeBody p state blocks).rc ≠ 0 := judgeOptional_skipped_rc hskipped
        rw [decide_eq_false hrc, Bool.false_and]
  rw [CMUnitTest.judge]
  dsimp only
  split
  · refine ⟨hteardown, ?_⟩
    rw [hs, ht, Bool.or_false, Bool.or_false, Bool.false_or]
    exact hb
  · exact ⟨hsetup, by rw [hs]; rfl⟩

/-- A plain test makes no calls that could be invalid. -/
theorem CMUnitTest.allowed_of_plain (h : t.Plain) (hblocks : blocks.leaked blocks = false) :
    t.Allowed p state blocks := by
  obtain ⟨hsetup, hbody, hsince, -⟩ := h.leaves p state hblocks
  refine ⟨allowsOptional_of_plain fun f hf => (h.setup f hf).1, fun _ => ?_, fun _ => ?_⟩
  · rw [hsetup]
    exact allowsOptional_of_plain h.test
  · rw [hsince, hbody]
    exact allowsOptional_of_plain fun f hf => (h.teardown f hf).1

/-- The tests of a group one by one. -/
theorem judgeTests_plain {groupState : Addr} {tests : List CMUnitTest}
    (h : ∀ t ∈ tests, t.Plain) (hblocks : blocks.leaked blocks = false) :
    judgeTests p groupState tests blocks false =
      (tests.map fun t => ((t.judge p (initialTestState groupState t) blocks false).record,
        (t.judge p (initialTestState groupState t) blocks false).rc), blocks, false) := by
  induction tests with
  | nil => rfl
  | cons t tests ih =>
      obtain ⟨ht, hrest⟩ := List.forall_mem_cons.mp h
      obtain ⟨hb, hskip⟩ := t.judge_plain ht p (initialTestState groupState t) hblocks
      rw [judgeTests, hb, hskip, ih hrest]
      rfl

/-- Nor do plain tests, one after the other. -/
theorem testsAllowed_of_plain {groupState : Addr} {tests : List CMUnitTest}
    (h : ∀ t ∈ tests, t.Plain) (hblocks : blocks.leaked blocks = false) :
    TestsAllowed p groupState tests blocks false := by
  induction tests with
  | nil => trivial
  | cons t tests ih =>
      obtain ⟨ht, hrest⟩ := List.forall_mem_cons.mp h
      obtain ⟨hb, hskip⟩ := t.judge_plain ht p (initialTestState groupState t) hblocks
      refine ⟨t.allowed_of_plain ht hblocks, ?_⟩
      rw [hb, hskip]
      exact ih hrest

end Tests

/-! ### Plain tests in a group -/

/-- The record in a verdict on a test. -/
def Verdict.record? : Verdict → Option TestRecord
  | .test record => some record
  | .group .. => none

/-- The records of the tests in a run of a group from `s`. -/
def Group.records (g : Group) (s : Globals) : List TestRecord :=
  ((final (g.run s)).verdicts.drop s.verdicts.length).filterMap Verdict.record?

/-- The group with one test only. -/
def Group.only (g : Group) (t : CMUnitTest) : Group := { g with tests := [t] }

section Group

variable {p : Platform} {r : Rest} {g : Group} {s : Globals} {t : CMUnitTest}

/-- The records of a group are those of the reference. -/
theorem records_judged (hp : p.Sized) (habort : p.abortTest = false) (hs : s.Rests p r)
    (hallocated : g.allocated = true) (hallowed : g.Allowed p r.blocks r.skip) :
    g.records s = (g.judgeSelected p r.blocks r.skip).1.map Prod.fst := by
  obtain ⟨s', hrun, hs'⟩ := group_judged hp habort hs fun _ => hallowed
  have hfinal : final (g.run s) = s' := by
    rw [hrun]
    cases (g.judge p r.blocks r.skip).rc <;> rfl
  have hverdicts : (g.judge p r.blocks r.skip).verdicts.filterMap Verdict.record? =
      (g.judgeSelected p r.blocks r.skip).1.map Prod.fst := by
    rw [Group.judge, hallocated]
    simp [Verdict.record?, List.filterMap_map, Function.comp_def, List.filterMap_eq_map']
  rw [Group.records, hfinal, hs'.verdicts, hs.verdicts, List.drop_left, hverdicts]

/-- The blocks a group setup leaves are numbered. -/
theorem leaked_setup (hp : p.Sized) (habort : p.abortTest = false) (hs : s.Rests p r)
    (hallowed : AllowsOptional p r.blocks .setup g.setup 0 r.blocks) :
    (g.judgeSetup p r.blocks).blocks.leaked (g.judgeSetup p r.blocks).blocks = false := by
  obtain ⟨node, s₁, -, hnode, hs₁⟩ := checkPoint_judged s hs
  obtain ⟨out, s₂, -, -, hs₂⟩ := runGroupSetup_judged hp habort hnode
    (show _ = g.judgeSetup p r.blocks from rfl) hallowed s₁ hs₁
  refine List.any_eq_false.mpr fun b hb => ?_
  have hlt : b.serial < (g.judgeSetup p r.blocks).blocks.nextSerial :=
    hs₂.blocks.numbered b.serial (List.mem_map_of_mem hb)
  simpa using hlt

/-- After a group setup that succeeded, each test is judged in the state the setup leaves. -/
theorem judgeSelected_plain (hplain : ∀ t ∈ g.selected, t.Plain) (hskip : r.skip = false)
    (hrc : (g.judgeSetup p r.blocks).rc = 0)
    (hblocks : (g.judgeSetup p r.blocks).blocks.leaked (g.judgeSetup p r.blocks).blocks = false) :
    g.judgeSelected p r.blocks r.skip =
      (g.selected.map fun t =>
        ((t.judge p (initialTestState (g.judgeSetup p r.blocks).state t)
          (g.judgeSetup p r.blocks).blocks false).record,
         (t.judge p (initialTestState (g.judgeSetup p r.blocks).state t)
          (g.judgeSetup p r.blocks).blocks false).rc), (g.judgeSetup p r.blocks).blocks, false) := by
  have hsetup : (g.judgeSetup p r.blocks).skipped = false := by
    by_contra h
    exact judgeOptional_skipped_rc (Bool.of_not_eq_false h) hrc
  rw [Group.judgeSelected, if_pos hrc, hskip, hsetup, Bool.or_false]
  exact judgeTests_plain hplain hblocks

/-- After one that failed, no test is. -/
theorem judgeSelected_failed (hrc : (g.judgeSetup p r.blocks).rc ≠ 0) :
    g.judgeSelected p r.blocks r.skip = ([], (g.judgeSetup p r.blocks).blocks,
      r.skip || (g.judgeSetup p r.blocks).skipped) := if_neg hrc

/-- A test that is selected among others is selected alone. -/
theorem selected_only (ht : t ∈ g.selected) : (g.only t).selected = [t] := by
  obtain ⟨-, hsel⟩ := List.mem_filter.mp ht
  exact List.filter_eq_self.mpr fun t' ht' => List.mem_singleton.mp ht' ▸ hsel

theorem plain_only (hplain : ∀ t ∈ g.selected, t.Plain) (ht : t ∈ g.selected) :
    ∀ t' ∈ (g.only t).selected, t'.Plain := by
  rw [selected_only ht]
  exact fun t' ht' => List.mem_singleton.mp ht' ▸ hplain t ht

/-- The tests leave the blocks of the group setup. -/
theorem blocks_selected (hplain : ∀ t ∈ g.selected, t.Plain) (hskip : r.skip = false)
    (hblocks : (g.judgeSetup p r.blocks).blocks.leaked (g.judgeSetup p r.blocks).blocks = false) :
    (g.judgeSelected p r.blocks r.skip).2.1 = (g.judgeSetup p r.blocks).blocks := by
  by_cases hrc : (g.judgeSetup p r.blocks).rc = 0
  · rw [judgeSelected_plain hplain hskip hrc hblocks]
  · rw [judgeSelected_failed hrc]

/-- A group with one of its plain tests only is allowed like the group. -/
theorem Group.Allowed.only (hallowed : g.Allowed p r.blocks r.skip)
    (hplain : ∀ t ∈ g.selected, t.Plain) (hskip : r.skip = false)
    (hblocks : (g.judgeSetup p r.blocks).blocks.leaked (g.judgeSetup p r.blocks).blocks = false)
    (ht : t ∈ g.selected) : (g.only t).Allowed p r.blocks r.skip := by
  have hplain' := plain_only hplain ht
  have hsame : ((g.only t).judgeSelected p r.blocks r.skip).2.1 =
      (g.judgeSelected p r.blocks r.skip).2.1 :=
    (blocks_selected hplain' hskip hblocks).trans (blocks_selected hplain hskip hblocks).symm
  have hteardown := hallowed.teardown
  have hkept := hallowed.kept
  rw [Group.judgeTeardown] at hkept
  rw [← hsame] at hteardown hkept
  refine ⟨hallowed.setup, fun hrc => ?_, hteardown, hkept⟩
  have hsetup : (g.judgeSetup p r.blocks).skipped = false := by
    by_contra h
    exact judgeOptional_skipped_rc (Bool.of_not_eq_false h) hrc
  rw [show ((g.only t).judgeSetup p r.blocks).skipped = false from hsetup, hskip]
  exact testsAllowed_of_plain hplain' hblocks

/-- **The tests of a group do not see each other**: in a group whose tests are plain, each test is
recorded as in the group with this test only. -/
theorem tests_isolated (hp : p.Sized) (habort : p.abortTest = false) (hs : s.Rests p r)
    (hskip : r.skip = false) (hallocated : g.allocated = true)
    (hallowed : g.Allowed p r.blocks r.skip) (hplain : ∀ t ∈ g.selected, t.Plain) :
    g.records s = g.selected.flatMap fun t => (g.only t).records s := by
  have hblocks := leaked_setup hp habort hs hallowed.setup
  have honly : ∀ t ∈ g.selected, (g.only t).records s =
      ((g.only t).judgeSelected p r.blocks r.skip).1.map Prod.fst := fun t ht =>
    records_judged hp habort hs hallocated (hallowed.only hplain hskip hblocks ht)
  rw [records_judged hp habort hs hallocated hallowed, List.flatMap_congr honly]
  by_cases hrc : (g.judgeSetup p r.blocks).rc = 0
  · have hone : ∀ t ∈ g.selected, ((g.only t).judgeSelected p r.blocks r.skip).1.map Prod.fst =
        [(t.judge p (initialTestState (g.judgeSetup p r.blocks).state t)
          (g.judgeSetup p r.blocks).blocks false).record] := by
      intro t ht
      rw [judgeSelected_plain (plain_only hplain ht) hskip hrc hblocks, selected_only ht]
      rfl
    rw [judgeSelected_plain hplain hskip hrc hblocks, List.flatMap_congr hone, List.map_map,
      List.map_eq_flatMap]
    rfl
  · have hnone : ∀ t ∈ g.selected,
        ((g.only t).judgeSelected p r.blocks r.skip).1.map Prod.fst = [] := by
      intro t _
      rw [judgeSelected_failed (g := g.only t) hrc, List.map_nil]
    rw [judgeSelected_failed hrc, List.map_nil, List.flatMap_congr hnone]
    exact (List.flatMap_eq_nil_iff.mpr fun _ _ => rfl).symm

end Group

/-- A test that does not read the value it declares, one that stops, and one that reads its value,
in a group that keeps a block in `*state`. -/
def forgetting : Group := { keepingBlock with tests :=
  [{ name := some "forgets".toList
     testFunc := some (.calls 0x401100 [.willReturn "read".toList "t.c".toList 30 none 7 1])
     setupFunc := none, teardownFunc := none, initialState := 0 },
   { name := some "stops".toList
     testFunc := some ⟨0x401200, [.storeState 0], .stop⟩
     setupFunc := none, teardownFunc := none, initialState := 0 },
   { name := some "reads".toList
     testFunc := some (.calls 0x401000 [.willReturn "read".toList "t.c".toList 20 none 8 1,
      .mock "read".toList "t.c".toList 5 none])
     setupFunc := none, teardownFunc := none, initialState := 0 }] }

theorem forgetting_plain : ∀ t ∈ forgetting.selected, t.Plain := by
  intro t ht
  replace ht := List.mem_of_mem_filter ht
  simp only [forgetting, List.mem_cons, List.not_mem_nil, or_false] at ht
  rcases ht with rfl | rfl | rfl
  all_goals
    refine ⟨fun f hf => ?_, fun f hf => ?_, fun f hf => ?_⟩
    · cases hf
    · cases hf
      simp [UserFn.NoAlloc, UserFn.calls, Op.alloc?]
    · cases hf

theorem forgetting_allowed : forgetting.Allowed .lp64 .empty false := by
  have hkeeping : keepingBlock.Allowed .lp64 .empty false := keepingBlock_allowed.1 rfl
  refine ⟨hkeeping.setup, fun _ => testsAllowed_of_plain forgetting_plain rfl, ?_,
    by decide +kernel⟩
  intro f hf
  cases hf
  refine ⟨⟨fun a ha => ?_, fun _ _ => trivial⟩, fun _ code _ => by decide +kernel⟩
  cases ha
  exact .inr ⟨keptBlock, List.mem_cons_self, by decide⟩

theorem forgetting_isolated :
    (forgetting.records (.initial .lp64)).map TestRecord.status = [.failed, .passed, .passed] ∧
      forgetting.records (.initial .lp64) =
        forgetting.selected.flatMap fun t => (forgetting.only t).records (.initial .lp64) := by
  have hs : (Globals.initial .lp64).Rests .lp64 ⟨.empty, false, []⟩ :=
    ⟨rfl, rfl, represents_zeroed .lp64, rfl, rfl⟩
  exact ⟨by decide +kernel,
    tests_isolated (by decide) rfl hs rfl rfl forgetting_allowed forgetting_plain⟩

end Cmocka
