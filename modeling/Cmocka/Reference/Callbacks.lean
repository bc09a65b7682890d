import Cmocka.Reference.Calls

/-!
# Reference — a callback

`cmocka_run_one_test_or_fixture` comes to what `judge` says (`callback_judged`): the script is left
as on the bench (`script_played`), the search for blocks fails if one was allocated since the check
point (`leakCheck_judged`), and the search for expectations if the bench is not settled
(`anyLeft_iff`).
-/

namespace Cmocka

open Runs SymbolMap CountedQueue CallOrder NodeHeap

variable {p : Platform} {s s' : Globals} {b : Bench}

/-! ### What is left over -/

theorem functionPath_surjective : Function.Surjective functionPath := by
  rintro ⟨path, hpath⟩
  obtain ⟨function, rfl⟩ := List.length_eq_one_iff.mp hpath
  exact ⟨function, rfl⟩

theorem parameterPath_surjective : Function.Surjective parameterPath := by
  rintro ⟨path, hpath⟩
  obtain ⟨function, parameter, rfl⟩ := List.length_eq_two.mp hpath
  exact ⟨(function, parameter), rfl⟩

/-- Nothing is left over of a map that holds a settled shelf. -/
theorem mapHasLeftover_shelf {V K α : Type} [DecidableEq K] {d : Nat} {path : K → Path (d + 1)}
    (hpath : Function.Surjective path) {view : V → α} {list : List (MapNode V)} {l : Shelf K α}
    (hs : Shape (d + 1) list) (hl : queuesOf path view list = l.queues)
    (location : V → SourceLocation) (errorMessage : CString) :
    mapHasLeftover location errorMessage (d + 1) list = false ↔ l.Settled := by
  rw [Bool.eq_false_iff, ne_eq, mapHasLeftover_iff hs, not_exists, Shelf.settled_iff, ← hl]
  constructor
  · intro hall k
    rw [queuesOf, dropOptional_map, not_not.mp (hall (path k)), List.map_nil]
  · intro hall path'
    obtain ⟨k, rfl⟩ := hpath path'
    have hk := hall k
    rw [queuesOf, dropOptional_map, List.map_eq_nil_iff] at hk
    exact not_not.mpr hk

theorem callsLeft_iff (s : Globals) : s.callsLeft = false ↔ ∀ e ∈ s.callEntries, e.2 < -1 := by
  rw [Globals.callEntries, List.forall_mem_map]
  simp [Globals.callsLeft, removeAlwaysReturnValuesFromList]

/-- Something is left over unless the bench is settled. -/
theorem Globals.On.anyLeft_iff (h : s.On b) : s.anyLeft = false ↔ b.Settled := by
  rw [Globals.anyLeft, Bool.or_eq_false_iff, Bool.or_eq_false_iff, and_assoc]
  refine and_congr ?_ (and_congr ?_ ?_)
  · exact mapHasLeftover_shelf functionPath_surjective h.results h.values _ _
  · exact mapHasLeftover_shelf parameterPath_surjective h.parameters h.checks _ _
  · rw [callsLeft_iff, h.calls]

/-- `fail_if_leftover_values`. -/
theorem failIfLeftoverValues_apply (s : Globals) :
    ∃ s', (failIfLeftoverValues s = if s.anyLeft then .error (s.exitOf .fail) s' else .ok () s') ∧
      Quiet s s' ∧ SameMemory s s' := by
  have hquiet := quiet_dropOptionals s
  rcases failIfLeftoverValues_cases s with ⟨hl, s', he, hi⟩ | ⟨hl, e, s', he, hi, hf⟩
  · refine ⟨s', ?_, trans_of Quiet hquiet hi.quiet, apart_failIfLeftoverValues.ok he⟩
    rw [hl]
    exact he
  · obtain ⟨hsame, hdefined⟩ := apart_failIfLeftoverValues.error he
    have hexit : e = s.exitOf .fail := (hquiet.fails hf).resolve_right hdefined
    refine ⟨s', ?_, trans_of Quiet hquiet hi.quiet, hsame⟩
    rw [hl, he, hexit]
    rfl

/-! ### The blocks since a check point -/

/-- The check point `node` was taken with the blocks `since`, before those of `t`. -/
structure Taken (p : Platform) (node : BlockNode) (since t : BlockTable) : Prop where
  node : node = (nodesOf p since.live).getLastD .head
  held : ∃ h, Represents p h since
  later : since.Later t

theorem BlockTable.leaked_iff {since t : BlockTable} :
    since.leaked t = true ↔ 0 < t.live.countP fun b => since.nextSerial ≤ b.serial := by
  rw [BlockTable.leaked, List.any_eq_true, List.countP_pos_iff]

/-- Without a leak there is nothing to release. -/
theorem BlockTable.release_of_kept {since t : BlockTable} (h : since.leaked t = false) :
    since.release t = t := by
  have hall : t.live.filter (fun b => b.serial < since.nextSerial) = t.live := by
    refine List.filter_eq_self.mpr fun b hb => ?_
    have hb' := List.any_eq_false.mp h b hb
    simpa using hb'
  rw [release, hall]

theorem BlockTable.Later.release {since t t' : BlockTable} (h : since.Later t) :
    since.Later (t'.release t) where
  nextSerial := h.nextSerial
  old c hc hserial := h.old c (List.mem_of_mem_filter hc) hserial

/-- A node of the list stands behind the first blocks. -/
theorem exists_split {t : BlockTable} {node : BlockNode} (h : node ∈ .head :: t.headers p) :
    ∃ l l', t.live = l ++ l' ∧ node = (nodesOf p l).getLastD .head := by
  rcases List.mem_cons.mp h with rfl | h
  · exact ⟨[], t.live, rfl, rfl⟩
  · obtain ⟨b, hb, rfl⟩ := List.mem_map.mp h
    obtain ⟨l, l', hl⟩ := List.append_of_mem hb
    refine ⟨l ++ [b], l', by rw [hl, List.append_assoc, List.singleton_append], ?_⟩
    rw [nodesOf, List.map_append, List.map_singleton, List.getLastD_concat]

/-- `fail_if_blocks_allocated` from the node behind the first blocks. -/
theorem failIfBlocksAllocated_apply {t : BlockTable} {l l' : List LiveBlock} (hs : s.Has t)
    (hl : t.live = l ++ l') (testName : CString) :
    ∃ s', failIfBlocksAllocated ((nodesOf s.platform l).getLastD .head) testName s =
      if 0 < l'.length then .error (s.exitOf .fail) s' else .ok () s' := by
  obtain ⟨m, hcount⟩ := displayAllocatedBlocks_at hs hl
  obtain ⟨hrep, -, -⟩ := hs.getAllocatedBlocksList
  rw [failIfBlocksAllocated, bind_of_ok hcount]
  by_cases hsome : 0 < l'.length
  · obtain ⟨s₁, hs₁, hi, hhas⟩ : ∃ s₁, s₁ =
        { s.withHeap s.globalAllocatedBlocks.getAllocatedBlocksList with cmErrorMessage := m } ∧
        Inert s s₁ ∧ s₁.Has t := ⟨_, rfl, ⟨_, _, _, _, rfl⟩, hrep⟩
    obtain ⟨h, hfree, -⟩ := freeAllocatedBlocks_frees hhas hl
    simp only [if_pos hsome]
    rw [← hs₁, ← hi.platform_eq, bind_of_ok hfree]
    -- a message, and the exit decided by the same flags
    exact ⟨_, (exitTest_apply .fail _).trans (congrArg (EStateM.Result.error · _)
      (Inert.exitOf_eq (trans_of Inert hi ⟨_, _, _, _, rfl⟩) .fail))⟩
  · simp only [if_neg hsome]
    exact ⟨_, rfl⟩

/-- `fail_if_blocks_allocated`, as long as the block of the check point is there. -/
theorem leakCheck_judged {node : BlockNode} {since t : BlockTable} (hs : s.Has t)
    (hnode : Taken s.platform node since t) (hkept : since.Keeps t) (testName : CString) :
    ∃ s', (failIfBlocksAllocated node testName s =
        if since.leaked t then .error (s.exitOf .fail) s' else .ok () s') ∧
      Inert s s' ∧ s'.Has (since.release t) := by
  obtain ⟨rfl, ⟨h, hr⟩, hlater⟩ := hnode
  have hexact := leakCheckExact_of_live hs hr hlater testName hkept
  obtain ⟨s₁, hcount⟩ := hexact.counted
  obtain ⟨l, l', hl, hlast⟩ := exists_split hexact.inList
  have hfreed := hexact.freed
  rw [hlast] at hcount hfreed ⊢
  obtain ⟨m, hcount'⟩ := displayAllocatedBlocks_at hs hl
  have hlength : (t.live.countP fun b => since.nextSerial ≤ b.serial) = l'.length := by
    injection hcount.symm.trans hcount'
  obtain ⟨s', hrun⟩ := failIfBlocksAllocated_apply hs hl testName
  have hi := (prints_failIfBlocksAllocated ((nodesOf s.platform l).getLastD .head) testName).final s
  have hfinal : final (failIfBlocksAllocated ((nodesOf s.platform l).getLastD .head) testName s) =
      s' := by
    rw [hrun]
    split <;> rfl
  rw [hfinal] at hi hfreed
  refine ⟨s', ?_, hi, hfreed⟩
  simpa only [BlockTable.leaked_iff, hlength] using hrun

namespace Bench

/-- A call on the expectations leaves the blocks alone. -/
theorem blocks_step {op : Op} {b' : Bench} (hop : op.alloc? = none) (h : b.step p op = some b') :
    b'.blocks = b.blocks := by
  cases op with
  | willReturn functionName file line name value count =>
      rw [step] at h
      split at h <;> cases h
      rfl
  | mock function file line name =>
      rw [step] at h
      split at h
      · cases h
      · split at h <;> cases h
        rfl
  | expectCheck function parameter file line checkFunction checkData count =>
      cases h
      rfl
  | checkExpected functionName parameterName file line value =>
      rw [step] at h
      split at h
      · cases h
      · split at h <;> cases h
        rfl
  | expectFunctionCall functionName file line count =>
      rw [step] at h
      split at h <;> cases h
      rfl
  | functionCalled function file line =>
      obtain ⟨calls, -, rfl⟩ := Option.map_eq_some_iff.mp h
      rfl
  | storeState state =>
      cases h
      rfl
  | printError text =>
      cases h
      rfl
  | _ => cases hop

theorem later_step {op : Op} {b' : Bench} (h : b.step p op = some b') :
    b.blocks.Later b'.blocks := by
  cases hop : op.alloc? with
  | none =>
      rw [blocks_step hop h]
      exact .refl _
  | some a =>
      rw [step_of_alloc hop] at h
      obtain ⟨answer, -, rfl⟩ := Option.map_eq_some_iff.mp h
      exact .step b.blocks p a

/-- The blocks of a callback are later than those it started with. -/
theorem later_run (ops : List Op) : b.blocks.Later (b.run p ops).2.blocks := by
  induction ops generalizing b with
  | nil => exact .refl _
  | cons op ops ih =>
      rw [run]
      cases hstep : b.step p op with
      | none => exact .refl _
      | some b' => exact (later_step hstep).trans ih

theorem play_snd (p : Platform) (b : Bench) (script : Script) :
    (b.play p script).2 = (b.run p script.ops).2 := by
  rw [play]
  split <;> rfl

/-- A script without calls of the allocator is allowed, and leaves the blocks alone. -/
theorem allowsAll_of_plain {ops : List Op} (h : ∀ op ∈ ops, op.alloc? = none) :
    b.AllowsAll p ops ∧ (b.run p ops).2.blocks = b.blocks := by
  induction ops generalizing b with
  | nil => exact ⟨trivial, rfl⟩
  | cons op ops ih =>
      obtain ⟨hop, hops⟩ := List.forall_mem_cons.mp h
      refine ⟨⟨fun a ha => ?_, fun b' _ => (ih hops).1⟩, ?_⟩
      · cases hop.symm.trans ha
      · rw [run]
        cases hstep : b.step p op with
        | none => rfl
        | some b' => exact (ih hops).2.trans (blocks_step hop hstep)

theorem later_play (script : Script) : b.blocks.Later (b.play p script).2.blocks := by
  rw [play_snd]
  exact later_run script.ops

end Bench

/-- A callback without calls of the allocator is allowed. -/
theorem allowsCallback_of_plain {since : BlockTable} {kind : CallbackKind} {script : Script}
    (h : ∀ op ∈ script.ops, op.alloc? = none) (hkept : since.Keeps b.blocks) :
    AllowsCallback p since kind script b where
  calls := (Bench.allowsAll_of_plain h).1
  kept _ _ _ := by
    rw [Bench.play_snd, BlockTable.Keeps, (Bench.allowsAll_of_plain h).2]
    exact hkept

theorem allowsOptional_none {since blocks : BlockTable} {kind : CallbackKind} {state : Addr} :
    AllowsOptional p since kind none state blocks := by
  intro f hf
  cases hf

/-! ### The code of a callback -/

theorem exitOf_longjmp (hrun : s.globalRunningTest = true) (habort : s.platform.abortTest = false)
    (reason : Reason) : s.exitOf reason = .longjmp reason := by
  rw [Globals.exitOf, habort, hrun, Bool.and_false]
  rfl

/-- How a script is left, with the flag that goes with it and the bench `b`. -/
inductive Plays (b : Bench) (s : Globals) :
    Except Reason Int → EStateM.Result Exit Globals Int → Prop where
  | returned {code : Int} {s' : Globals} (quiet : Quiet s s') (on : s'.On b) :
      Plays b s (.ok code) (.ok code s')
  | jumped {reason : Reason} {s' : Globals} (quiet : Quiet (s.flag reason) s')
      (holding : s'.Holding b) (left : reason = .stop → (s'.anyLeft = false ↔ b.Settled)) :
      Plays b s (.error reason) (.error (.longjmp reason) s')

theorem flag_platform (s : Globals) (reason : Reason) : (s.flag reason).platform = s.platform := by
  cases reason <;> rfl

theorem flag_stop (s : Globals) (reason : Reason) :
    (s.flag reason).globalStopTest = (s.globalStopTest || decide (reason = .stop)) := by
  cases reason <;> simp [Globals.flag]

theorem Plays.after {s₁ : Globals} {how : Except Reason Int}
    {r : EStateM.Result Exit Globals Int} (h : Plays b s₁ how r) (hq : Quiet s s₁) :
    Plays b s how r := by
  cases h with
  | returned quiet on => exact .returned (trans_of Quiet hq quiet) on
  | jumped quiet holding left => exact .jumped (trans_of Quiet (hq.flag _) quiet) holding left

/-- An ending, from a state that holds a bench. -/
theorem ending_plays (ending : ScriptEnd) (hrun : s.globalRunningTest = true)
    (habort : s.platform.abortTest = false) (hon : s.On b) :
    Plays b s ending.left (ending.exec s) := by
  cases hreason : ending.reason? with
  | none =>
      cases ending with
      | ret code => exact .returned (refl_of Quiet s) hon
      | _ => cases hreason
  | some reason =>
      obtain ⟨e, s', hexec, hi, he⟩ := ending_exec hreason s
      have hleft : ending.left = .error reason := by
        cases ending <;> cases hreason <;> rfl
      obtain ⟨hsame, hdefined⟩ := (apart_ending ending).error hexec
      have hflag : (s.flag reason).globalRunningTest = true ∧
          (s.flag reason).platform.abortTest = false := by
        cases reason <;> exact ⟨hrun, habort⟩
      have hjump := exitOf_longjmp hflag.1 hflag.2 reason
      rw [hleft, hexec, he.resolve_right hdefined, hjump]
      refine .jumped hi.quiet (hon.holding hsame) ?_
      rintro rfl
      exact (congrArg (· = false) (anyLeft_of_inert hi)).to_iff.trans hon.anyLeft_iff

/-- **A script is left as on the bench.** -/
theorem script_played {script : Script} (hp : s.platform.Sized)
    (hrun : s.globalRunningTest = true) (habort : s.platform.abortTest = false) (hon : s.On b)
    (hallowed : b.AllowsAll s.platform script.ops) :
    Plays (b.play s.platform script).2 s (b.play s.platform script).1 (script.exec s) := by
  obtain ⟨s', hops, hquiet, hholding, hon'⟩ := execOps_run hp hon hallowed
  rw [Bench.play]
  by_cases hall : (b.run s.platform script.ops).1 = true
  · rw [if_pos hall] at hops ⊢
    rw [Script.exec, bind_of_ok hops]
    exact (ending_plays script.ending (hquiet.running.trans hrun) (hquiet.platform ▸ habort)
      (hon' hall)).after hquiet
  · rw [if_neg hall] at hops ⊢
    rw [Script.exec, bind_of_error hops, exitOf_longjmp hrun habort]
    exact .jumped hquiet hholding nofun

/-! ### Behind the callback -/

/-- Behind a jump. -/
theorem runAfterLongjmp_apply (reason : Reason) (s : Globals) :
    ∃ s', runAfterLongjmp reason s =
        .ok (if s.globalStopTest = true ∧ s.anyLeft = false then 0 else -1, .jumped reason) s' ∧
      s'.globalAllocatedBlocks = s.globalAllocatedBlocks ∧ s'.platform = s.platform ∧
      s'.stateCell = s.stateCell := by
  cases hrun : runAfterLongjmp reason s with
  | error e s' => exact absurd hrun (runAfterLongjmp_ne_error reason s s' e)
  | ok value s' =>
      obtain ⟨rc, ending⟩ := value
      obtain ⟨hheap, hplatform⟩ := runAfterLongjmp_heap hrun
      obtain ⟨rfl, ⟨hstop, rfl, rfl⟩ | ⟨hstop, rfl, hi⟩⟩ := runAfterLongjmp_ok hrun
      · refine ⟨_, ?_, hheap, hplatform, rfl⟩
        rw [if_neg fun h => Bool.false_ne_true (hstop.symm.trans h.1)]
      · refine ⟨_, ?_, hheap, hplatform, hi.stateCell_eq⟩
        cases s.anyLeft <;> simp [hstop]

/-- What a callback comes to, in the state behind it. -/
def Comes (j : Judged) (s : Globals) (r : EStateM.Result Exit Globals (Int × Ending)) : Prop :=
  ∃ s', r = .ok (j.rc, j.ending) s' ∧ s'.platform = s.platform ∧ s'.Has j.blocks ∧
    s'.stateCell = j.state

section Judge

variable {functionName : CString} {f : UserFn} {kind : CallbackKind} {node : BlockNode}
  {since : BlockTable}

/-- A callback that is left by a jump. -/
theorem comes_of_jump {s₁ : Globals} {reason : Reason} {left : Bench}
    (h : runCallback functionName f kind node s = .error (.longjmp reason) s₁)
    (hplatform : s₁.platform = s.platform) (hstop : s₁.globalStopTest = decide (reason = .stop))
    (hholding : s₁.Holding left) (hleft : reason = .stop → (s₁.anyLeft = false ↔ left.Settled)) :
    Comes ⟨.jumped reason, if reason = .stop ∧ left.Settled then 0 else -1, left.state,
        left.blocks⟩ s
      (setjmp (runCallback functionName f kind node) runAfterLongjmp s) := by
  obtain ⟨s', hrun, hheap, hplatform', hstate⟩ := runAfterLongjmp_apply reason s₁
  have hiff : s₁.globalStopTest = true ∧ s₁.anyLeft = false ↔ reason = .stop ∧ left.Settled := by
    rw [hstop, decide_eq_true_iff]
    exact and_congr_right hleft
  simp only [hiff] at hrun
  refine ⟨s', ?_, hplatform'.trans hplatform, ?_, hstate.trans hholding.state⟩
  · rw [setjmp, h]
    exact hrun
  · rw [Globals.Has, hheap, hplatform']
    exact hholding.blocks

/-- A callback that fails, in itself or in the checks behind it. -/
theorem comes_of_fail {s₁ : Globals} {left : Bench}
    (h : runCallback functionName f kind node s = .error (.longjmp .fail) s₁)
    (hquiet : Quiet (s.calling f) s₁) (hstop : s.globalStopTest = false)
    (hholding : s₁.Holding left) :
    Comes ⟨.jumped .fail, -1, left.state, left.blocks⟩ s
      (setjmp (runCallback functionName f kind node) runAfterLongjmp s) :=
  comes_of_jump h hquiet.platform (hquiet.stop.trans hstop) hholding nofun

theorem Globals.On.inert (h : s.On b) (hi : Inert s s') {blocks : BlockTable}
    (hblocks : s'.Has blocks) : s'.On { b with blocks } := by
  obtain ⟨_, _, _, _, rfl⟩ := hi
  exact ⟨h.results, h.parameters, h.values, h.checks, h.calls, hblocks, h.state⟩

/-- The search for expectations, behind a callback that returned. -/
theorem comes_of_return {code : Int} {s₂ s₃ : Globals} {left : Bench}
    (hrun : s.globalRunningTest = true) (habort : s.platform.abortTest = false)
    (hstop : s.globalStopTest = false) (hexec : f.script.exec (s.calling f) = .ok code s₂)
    (hcheck : (if kind ≠ .setup then failIfBlocksAllocated node functionName else pure ⟨⟩) s₂ =
      .ok ⟨⟩ s₃)
    (hquiet : Quiet (s.calling f) s₃) (hon : s₃.On left) :
    Comes (if left.Settled then
        ⟨.returned (if kind = .test then 0 else code), if kind = .test then 0 else code, left.state,
          left.blocks⟩
      else ⟨.jumped .fail, -1, left.state, left.blocks⟩) s
      (setjmp (runCallback functionName f kind node) runAfterLongjmp s) := by
  obtain ⟨s₄, hleft, hquiet', hsame⟩ := failIfLeftoverValues_apply s₃
  have hquiet₄ := trans_of Quiet hquiet hquiet'
  have hholding := hon.holding hsame
  have hcallback : runCallback functionName f kind node s = (do
      failIfLeftoverValues
      modify fun s => { s with globalRunningTest := false }
      return (if kind = .test then 0 else code, .returned (if kind = .test then 0 else code)) :
      CM (Int × Ending)) s₃ := (bind_of_ok hexec _).trans (ite_bind_of_ok hcheck)
  by_cases hsettled : left.Settled
  · rw [hon.anyLeft_iff.mpr hsettled] at hleft
    rw [if_pos hsettled]
    refine ⟨{ s₄ with globalRunningTest := false }, ?_, hquiet₄.platform, hholding.blocks,
      hholding.state⟩
    rw [setjmp, hcallback, bind_of_ok hleft]
    rfl
  · have hany : s₃.anyLeft = true := by
      rw [← Bool.not_eq_false, hon.anyLeft_iff]
      exact hsettled
    rw [hany] at hleft
    rw [if_neg hsettled]
    refine comes_of_fail ?_ hquiet₄ hstop hholding
    rw [hcallback]
    refine (bind_of_error hleft _).trans ?_
    rw [exitOf_longjmp (hquiet.running.trans hrun) (hquiet.platform ▸ habort)]

theorem judge_of_jump {script : Script} {reason : Reason}
    (h : (b.play p script).1 = .error reason) :
    judge p since kind script b = ⟨.jumped reason,
      if reason = .stop ∧ (b.play p script).2.Settled then 0 else -1, (b.play p script).2.state,
      (b.play p script).2.blocks⟩ := by
  simp only [judge, h]

theorem judge_of_return {script : Script} {code : Int} (h : (b.play p script).1 = .ok code) :
    judge p since kind script b =
      if kind ≠ .setup ∧ since.leaked (b.play p script).2.blocks then
        ⟨.jumped .fail, -1, (b.play p script).2.state, since.release (b.play p script).2.blocks⟩
      else if (b.play p script).2.Settled then
        ⟨.returned (if kind = .test then 0 else code), if kind = .test then 0 else code,
          (b.play p script).2.state, (b.play p script).2.blocks⟩
      else ⟨.jumped .fail, -1, (b.play p script).2.state, (b.play p script).2.blocks⟩ := by
  simp only [judge, h]

theorem Taken.later_trans {t t' : BlockTable} (h : Taken p node since t) (ht : t.Later t') :
    Taken p node since t' :=
  ⟨h.node, h.held, h.later.trans ht⟩

/-- **A callback** comes to what `judge` says. -/
theorem callback_judged (hp : s.platform.Sized) (habort : s.platform.abortTest = false)
    (hrun : s.globalRunningTest = true) (hstop : s.globalStopTest = false) (hon : s.On b)
    (hnode : Taken s.platform node since b.blocks)
    (hallowed : AllowsCallback s.platform since kind f.script b) :
    Comes (judge s.platform since kind f.script b) s
      (setjmp (runCallback functionName f kind node) runAfterLongjmp s) := by
  have hon' : (s.calling f).On b :=
    ⟨hon.results, hon.parameters, hon.values, hon.checks, hon.calls, hon.blocks, hon.state⟩
  have hplays : Plays (b.play s.platform f.script).2 (s.calling f) (b.play s.platform f.script).1
      (f.script.exec (s.calling f)) :=
    script_played (s := s.calling f) hp hrun habort hon' hallowed.calls
  have hlater := hnode.later_trans (Bench.later_play (p := s.platform) f.script)
  generalize hexec : f.script.exec (s.calling f) = r at hplays
  rcases hleft : (b.play s.platform f.script).1 with reason | code
  · rw [hleft] at hplays
    rw [judge_of_jump hleft]
    cases hplays with
    | @jumped _ s₁ quiet holding left =>
        have hcallback : runCallback functionName f kind node s = .error (.longjmp reason) s₁ :=
          bind_of_error hexec _
        refine comes_of_jump hcallback (quiet.platform.trans (flag_platform _ _)) ?_ holding left
        rw [quiet.stop, flag_stop]
        exact (congrArg (· || _) hstop).trans (Bool.false_or _)
  · rw [hleft] at hplays
    rw [judge_of_return hleft]
    cases hplays with
    | @returned _ s₂ quiet on =>
        by_cases hsetup : kind = .setup
        · rw [if_neg fun h => h.1 hsetup]
          refine comes_of_return hrun habort hstop hexec ?_ quiet on
          rw [if_neg (not_not.mpr hsetup)]
          rfl
        · have hnode₂ : Taken s₂.platform node since (b.play s.platform f.script).2.blocks := by
            rw [quiet.platform]
            exact hlater
          obtain ⟨s₃, hcheck, hi, hhas⟩ := leakCheck_judged on.blocks hnode₂
            (hallowed.kept hsetup code hleft) functionName
          have hquiet := trans_of Quiet quiet hi.quiet
          by_cases hleaked : since.leaked (b.play s.platform f.script).2.blocks = true
          · rw [if_pos ⟨hsetup, hleaked⟩]
            rw [hleaked, if_pos rfl,
              exitOf_longjmp (quiet.running.trans hrun) (quiet.platform ▸ habort)] at hcheck
            have hcallback : runCallback functionName f kind node s =
                .error (.longjmp .fail) s₃ := by
              refine (bind_of_ok hexec _).trans ?_
              rw [if_pos hsetup]
              exact bind_of_error hcheck _
            have hholding : s₃.Holding { (b.play s.platform f.script).2 with
                blocks := since.release (b.play s.platform f.script).2.blocks } :=
              ⟨hhas, hi.stateCell_eq.trans on.state⟩
            exact comes_of_fail hcallback hquiet hstop hholding
          · rw [if_neg fun h => hleaked h.2]
            rw [Bool.not_eq_true] at hleaked
            rw [hleaked] at hcheck
            rw [BlockTable.release_of_kept hleaked] at hhas
            exact comes_of_return hrun habort hstop hexec ((if_pos hsetup).symm ▸ hcheck) hquiet
              (on.inert hi hhas)

end Judge

/-! ### Between callbacks -/

/-- The verdict an event records. -/
def Event.verdict? : Event → Option Verdict
  | .testDone record => some (.test record)
  | .groupFinish groupName executed passed failed errors skipped tests =>
      some (.group groupName ⟨executed, passed, failed, errors, skipped⟩
        (tests.map fun t => (t.1, t.2.1)))
  | _ => none

/-- The verdicts so far. -/
def Globals.verdicts (s : Globals) : List Verdict := s.trace.filterMap Event.verdict?

/-- What there is between callbacks: the blocks, whether a `skip()` is still to be answered, and the
verdicts so far. -/
structure Rest where
  blocks : BlockTable
  skip : Bool
  verdicts : List Verdict

/-- A state between callbacks. -/
structure Globals.Rests (p : Platform) (r : Rest) (s : Globals) : Prop where
  platform : s.platform = p
  idle : s.snapshot = idleSnapshot
  blocks : s.Has r.blocks
  skip : s.globalSkipTest = r.skip
  verdicts : s.verdicts = r.verdicts

theorem verdict_of_call {e : Event} (h : e.isCall = true) : e.verdict? = none := by
  cases e <;> first | rfl | cases h

/-- A run of a callback records no verdict. -/
theorem RunEvents.noVerdicts {callback : Option (UserFn × CallbackKind)} {state : Addr}
    {run : CallbackRun} {events : List Event} (h : RunEvents callback state run events) :
    events.filterMap Event.verdict? = [] := by
  cases h with
  | absent => rfl
  | run f kind state i calls _ _ _ _ hcalls =>
      refine List.filterMap_eq_nil_iff.mpr fun e he => ?_
      rcases List.mem_cons.mp he with rfl | he
      · rfl
      · rcases List.mem_append.mp he with he | he
        · exact verdict_of_call (hcalls e he)
        · rw [List.mem_singleton.mp he]
          rfl

/-- The blocks at the check point passed, or at a new one. -/
inductive CheckPointed (p : Platform) : Option BlockNode → BlockTable → BlockTable → Prop where
  | taken {node : BlockNode} {since t : BlockTable} (h : Taken p node since t) :
      CheckPointed p (some node) since t
  | fresh (t : BlockTable) : CheckPointed p none t t

/-- What a run of a callback gives. -/
def Judged.run (j : Judged) (kind : CallbackKind) (f : Option UserFn) (state : Addr) :
    CallbackRun :=
  ⟨j.rc, j.state, j.invocation kind f state⟩

/-- What there is behind a callback. -/
def Rest.behind (r : Rest) (j : Judged) : Rest :=
  { r with blocks := j.blocks, skip := r.skip || j.skipped }

/-! ### A run of a callback -/

theorem on_fresh {state : Addr} {blocks : BlockTable} (hs : s.Has blocks) :
    (s.entering state).On (.fresh blocks state) where
  results := shape_nil 1
  parameters := shape_nil 2
  values := queuesOf_nil valueView
  checks := queuesOf_nil checkView
  calls := rfl
  blocks := hs
  state := rfl

theorem Bench.settled_fresh (blocks : BlockTable) (state : Addr) :
    (fresh blocks state).Settled := by
  simp [Settled, fresh, Shelf.Settled]

section Run

variable {testFunc setupFunc teardownFunc f : Option UserFn} {kind : CallbackKind} {state : Addr}
  {since : BlockTable} {r : Rest}

/-- The branches of `setjmp` around a callback that may be missing. -/
theorem setjmp_judged (functionName : CString) {node : BlockNode} (hp : p.Sized)
    (habort : p.abortTest = false)
    (hcallback : theCallback testFunc setupFunc teardownFunc = f.map (·, kind))
    (hs : s.Rests p r) (hnode : Taken p node since r.blocks)
    (hallowed : AllowsOptional p since kind f state r.blocks) :
    Comes (judgeOptional p since kind f state r.blocks) (s.entering state)
      (setjmp (runUnderSetjmp functionName testFunc setupFunc teardownFunc node) runAfterLongjmp
        (s.entering state)) := by
  obtain rfl := hs.platform
  cases f with
  | none =>
      obtain ⟨rfl, rfl, rfl⟩ := theCallback_eq_none hcallback
      obtain ⟨s₁, hleft, hquiet, hsame⟩ := failIfLeftoverValues_apply (s.entering state)
      have hon : (s.entering state).On (.fresh r.blocks state) := on_fresh hs.blocks
      rw [hon.anyLeft_iff.mpr (Bench.settled_fresh _ _), if_neg Bool.false_ne_true] at hleft
      have hbody : runUnderSetjmp functionName none none none node (s.entering state) =
          .ok (0, .returned 0) { s₁ with globalRunningTest := false } := by
        rw [runUnderSetjmp, bind_of_ok (pure_apply 0 _)]
        exact bind_of_ok hleft _
      have hholding := hon.holding hsame
      exact ⟨{ s₁ with globalRunningTest := false }, by rw [setjmp, hbody]; rfl, hquiet.platform,
        hholding.blocks, hholding.state⟩
  | some f =>
      rw [runUnderSetjmp_eq hcallback]
      have hstop : (s.entering state).globalStopTest = false := stop_of_idle (s := s) hs.idle
      exact callback_judged (s := s.entering state) hp habort rfl hstop
        (on_fresh hs.blocks) hnode (hallowed f rfl)

/-- A run of a callback, from its check point on. -/
theorem runFrom_judged (functionName : CString) {node : BlockNode} (hp : p.Sized)
    (habort : p.abortTest = false)
    (hcallback : theCallback testFunc setupFunc teardownFunc = f.map (·, kind))
    (hnode : Taken p node since r.blocks)
    (hallowed : AllowsOptional p since kind f state r.blocks) :
    Yields (Globals.Rests p r)
      (runFrom functionName testFunc setupFunc teardownFunc state node) fun run s' =>
        run = (judgeOptional p since kind f state r.blocks).run kind f state ∧
          s'.Rests p (r.behind (judgeOptional p since kind f state r.blocks)) := by
  intro s hs
  obtain ⟨s₁, hrun, hplatform, hblocks, hstate⟩ :=
    setjmp_judged functionName hp habort hcallback hs hnode hallowed
  have happly := runFrom_apply functionName testFunc setupFunc teardownFunc state node s
  rw [hrun] at happly
  have hone : cmockaRunOneTestOrFixture functionName testFunc setupFunc teardownFunc state
      (some node) s = _ := (congrFun (runOne_eq ..) s).trans happly
  have hspec := runOne_spec (stop_of_idle hs.idle) hone
  have hinvocation : invocationOf (theCallback testFunc setupFunc teardownFunc) state s₁.stateCell
      (judgeOptional p since kind f state r.blocks).ending
      (judgeOptional p since kind f state r.blocks).rc =
      (judgeOptional p since kind f state r.blocks).invocation kind f state := by
    rw [hcallback, hstate]
    cases f <;> rfl
  refine ⟨_, _, happly, ?_, ?_⟩
  · rw [Judged.run, ← hinvocation, hstate]
  · have hskipped : ((judgeOptional p since kind f state r.blocks).invocation kind f state).any
        (·.ending.skipped) = (judgeOptional p since kind f state r.blocks).skipped := by
      cases f <;> rfl
    obtain ⟨events, htrace, hevents⟩ := hspec.trace
    refine ⟨hspec.platform.trans hs.platform, hspec.snapshot, ?_, ?_, ?_⟩
    · change Represents s₁.platform s₁.globalAllocatedBlocks _
      exact hblocks
    · rw [hspec.skip, hinvocation, hskipped, hs.skip]
      rfl
    · rw [Globals.verdicts, htrace, List.filterMap_append, hevents.noVerdicts, List.append_nil]
      exact hs.verdicts

/-- The check point taken between callbacks. -/
theorem checkPoint_judged : Yields (Globals.Rests p r) checkPointAllocatedBlocks fun node s' =>
    Taken p node r.blocks r.blocks ∧ s'.Rests p r := by
  intro s hs
  obtain rfl := hs.platform
  have hcheck := checkPointAllocatedBlocks_eq hs.blocks
  obtain ⟨hrep, -, -⟩ := hs.blocks.getAllocatedBlocksList
  exact ⟨_, _, hcheck, ⟨rfl, ⟨_, hs.blocks⟩, .refl _⟩, rfl, hs.idle, hrep, hs.skip, hs.verdicts⟩

/-- **`cmocka_run_one_test_or_fixture`**, between callbacks. -/
theorem runOne_judged (functionName : CString) {heapCheckPoint : Option BlockNode} (hp : p.Sized)
    (habort : p.abortTest = false)
    (hcallback : theCallback testFunc setupFunc teardownFunc = f.map (·, kind))
    (hcheck : CheckPointed p heapCheckPoint since r.blocks)
    (hallowed : AllowsOptional p since kind f state r.blocks) :
    Yields (Globals.Rests p r)
      (cmockaRunOneTestOrFixture functionName testFunc setupFunc teardownFunc state
        heapCheckPoint) fun run s' =>
        run = (judgeOptional p since kind f state r.blocks).run kind f state ∧
          s'.Rests p (r.behind (judgeOptional p since kind f state r.blocks)) := by
  rw [runOne_eq]
  cases hcheck with
  | taken hnode => exact runFrom_judged functionName hp habort hcallback hnode hallowed
  | fresh =>
      exact checkPoint_judged.bind fun node => .of_fact fun hnode =>
        runFrom_judged functionName hp habort hcallback hnode hallowed

end Run

end Cmocka
