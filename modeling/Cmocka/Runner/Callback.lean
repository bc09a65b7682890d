import Cmocka.Expectations.Calls

/-!
# Runner — one callback

What `cmocka_run_one_test_or_fixture` does around a callback, whatever the callback does.  A call
made by user code is `Quiet`: it leaves the flags of the runner alone and adds only events of the
expectation structures to the trace.  So the flags after the callback are decided by the way it
ended (`script_exec_cases`), and the two ways through `setjmp` are told apart in `runOne_cases`.
-/

namespace Cmocka

open Runs SymbolMap

/-! ### Calls are quiet -/

/-- An event of the expectation structures. -/
def Event.isCall : Event → Bool
  | .willReturn .. | .mocked .. | .expectCheck .. | .checkCalled .. | .checked ..
  | .expectFunctionCall .. | .called .. | .freed .. => true
  | _ => false

/-- The trace grew by events of the expectation structures only. -/
def CallsOnly (trace trace' : List Event) : Prop :=
  ∃ events, trace' = trace ++ events ∧ ∀ e ∈ events, e.isCall = true

theorem callsOnly_refl (trace : List Event) : CallsOnly trace trace := ⟨[], by simp⟩

/-- Two stretches of calls. -/
theorem CallsOnly.trans {t t₁ t₂ : List Event} (h : CallsOnly t t₁) (h' : CallsOnly t₁ t₂) :
    CallsOnly t t₂ := by
  obtain ⟨a, rfl, ha⟩ := h
  obtain ⟨b, rfl, hb⟩ := h'
  refine ⟨a ++ b, by simp, fun e he => ?_⟩
  rcases List.mem_append.mp he with he | he
  · exact ha e he
  · exact hb e he

theorem callsOnly_append (trace : List Event) {events : List Event}
    (h : ∀ e ∈ events, e.isCall = true) : CallsOnly trace (trace ++ events) := ⟨events, rfl, h⟩

theorem callsOnly_freed (trace : List Event) (ptrs : List Addr) :
    CallsOnly trace (trace ++ ptrs.map .freed) := by
  refine callsOnly_append trace fun e he => ?_
  obtain ⟨p, -, rfl⟩ := List.mem_map.mp he
  rfl

/-- What a call made by user code leaves alone. -/
structure Quiet (s s' : Globals) : Prop where
  platform : s'.platform = s.platform
  running : s'.globalRunningTest = s.globalRunningTest
  skip : s'.globalSkipTest = s.globalSkipTest
  stop : s'.globalStopTest = s.globalStopTest
  testFilter : s'.globalTestFilterPattern = s.globalTestFilterPattern
  skipFilter : s'.globalSkipFilterPattern = s.globalSkipFilterPattern
  trace : CallsOnly s.trace s'.trace

instance : IsPreorder Globals Quiet where
  refl s := ⟨rfl, rfl, rfl, rfl, rfl, rfl, callsOnly_refl _⟩
  trans := by
    intro s s₁ s₂ h h'
    exact ⟨h'.platform.trans h.platform, h'.running.trans h.running, h'.skip.trans h.skip,
      h'.stop.trans h.stop, h'.testFilter.trans h.testFilter, h'.skipFilter.trans h.skipFilter,
      h.trace.trans h'.trace⟩

/-- What only prints and allocates is quiet. -/
theorem Inert.quiet {s s' : Globals} (h : Inert s s') : Quiet s s' := by
  obtain ⟨_, _, _, _, rfl⟩ := h
  exact ⟨rfl, rfl, rfl, rfl, rfl, rfl, callsOnly_refl _⟩

theorem Quiet.exitOf {s s' : Globals} (h : Quiet s s') (reason : Reason) :
    s'.exitOf reason = s.exitOf reason := by
  simp only [Globals.exitOf, h.platform, h.running, h.skip]

/-- The exits allowed behind a quiet step were allowed before it. -/
theorem Quiet.fails {s s' : Globals} {e : Exit} (h : Quiet s s') (he : Fails s' e) : Fails s e := by
  rw [Fails, ← h.exitOf]
  exact he

/-- Nothing but the expectation structures, the cell behind `state` and the trace differs. -/
theorem quiet_of_calls {s s' : Globals} (events : List Event)
    (hs : s' = { s with
      cmErrorMessage := s'.cmErrorMessage, envChecked := s'.envChecked
      globalMsgOutput := s'.globalMsgOutput
      globalFunctionResultMap := s'.globalFunctionResultMap
      globalLastMockValueLocation := s'.globalLastMockValueLocation
      globalFunctionParameterMap := s'.globalFunctionParameterMap
      globalLastParameterLocation := s'.globalLastParameterLocation
      globalCallOrdering := s'.globalCallOrdering
      globalAllocatedBlocks := s'.globalAllocatedBlocks
      stateCell := s'.stateCell, nextPtr := s'.nextPtr, trace := s.trace ++ events })
    (hcalls : ∀ e ∈ events, e.isCall = true) : Quiet s s' := by
  rw [hs]
  exact ⟨rfl, rfl, rfl, rfl, rfl, rfl, callsOnly_append _ hcalls⟩

/-- **A call that returns** is quiet. -/
theorem Returns.quiet {op : Op} {s s' : Globals} (h : Returns op s s') : Quiet s s' := by
  cases h with
  | willReturn hc => exact quiet_of_calls _ rfl (by simp [Event.isCall])
  | mock hg hv hz hi =>
      obtain ⟨_, _, _, _, rfl⟩ := hi
      refine quiet_of_calls _ rfl ?_
      split <;> simp [Event.isCall]
  | expectCheck => exact quiet_of_calls _ rfl (by simp [Event.isCall])
  | checkExpected hg hv hz hi =>
      obtain ⟨_, _, _, _, rfl⟩ := hi
      refine quiet_of_calls _ rfl ?_
      split <;> simp [Event.isCall]
  | expectFunctionCall hc => exact quiet_of_calls _ rfl (by simp [Event.isCall])
  | functionCalled hl =>
      refine quiet_of_calls _ rfl fun e he => ?_
      simp only [List.mem_append, List.mem_map, List.mem_singleton] at he
      rcases he with ⟨p, -, rfl⟩ | rfl <;> rfl
  | other cell hop hi =>
      obtain ⟨_, _, _, _, rfl⟩ := hi
      exact quiet_of_calls [] (by simp) (by simp)

theorem FailsFrom.quiet {α : Type} {r : EStateM.Result Exit Globals α} {s s₁ s' : Globals}
    {e : Exit} (hf : FailsFrom r s₁) (hq : Quiet s s₁) (h : r = .error e s') :
    Quiet s s' ∧ Fails s e := by
  obtain ⟨e', s₂, he, hi, hfail⟩ := hf
  cases he.symm.trans h
  exact ⟨trans_of Quiet hq hi.quiet, hq.fails hfail⟩

/-- A call that fails. -/
theorem Op.exec_error {op : Op} {s s' : Globals} {e : Exit} (h : op.exec s = .error e s') :
    Quiet s s' ∧ Fails s e := by
  have hprints : ∀ {α : Type} {x : CM α}, Prints x → x s = .error e s' →
      Quiet s s' ∧ Fails s e := fun hx hs => ⟨(hx.error hs).1.quiet, (hx.error hs).2⟩
  have hunit : ∀ {α : Type} {x : CM α}, (do let _ ← x : CM Unit) s = .error e s' →
      x s = .error e s' := by
    intro α x hs
    rcases bind_eq_error.mp hs with hs | ⟨_, _, -, hs⟩
    · exact hs
    · cases hs
  cases op with
  | willReturn f file line name value count =>
      rcases willReturn_cases f file line name value count s with ⟨-, he⟩ | ⟨-, hf⟩
      · cases he.symm.trans h
      · exact hf.quiet (quiet_of_calls [] (by simp) (by simp)) h
  | mock f file line name =>
      rcases mock_cases f file line name s with
        ⟨-, hf⟩ | ⟨r, -, ⟨-, hf⟩ | ⟨v, -, -, ⟨-, s₂, he, -⟩ | ⟨-, hf⟩⟩⟩
      · exact hf.quiet (refl_of Quiet s) (hunit h)
      · exact hf.quiet (quiet_of_calls [] (by simp) (by simp)) (hunit h)
      · cases he.symm.trans (hunit h)
      · exact hf.quiet (quiet_of_calls _ rfl (by simp [Event.isCall])) (hunit h)
  | expectCheck f p file line check data count => cases h
  | checkExpected f p file line value =>
      rcases checkExpected_cases f p file line value s with
        ⟨-, hf⟩ | ⟨r, -, ⟨-, hf⟩ | ⟨check, -, -, ⟨-, s₂, he, -⟩ | ⟨-, hf⟩⟩⟩
      · exact hf.quiet (refl_of Quiet s) h
      · exact hf.quiet (quiet_of_calls [] (by simp) (by simp)) h
      · cases he.symm.trans h
      · refine hf.quiet (quiet_of_calls _ rfl ?_) h
        split <;> simp [Event.isCall]
  | expectFunctionCall f file line count =>
      rcases expectFunctionCall_cases f file line count s with ⟨-, he⟩ | ⟨-, hf⟩
      · cases he.symm.trans h
      · exact hf.quiet (refl_of Quiet s) h
  | functionCalled f file line =>
      rcases functionCalled_cases f file line s with
        ⟨-, hf⟩ | ⟨before, expected, refcount, after, -, ⟨-, released, he⟩ | ⟨-, hf⟩⟩
      · exact hf.quiet (refl_of Quiet s) h
      · cases he.symm.trans h
      · exact hf.quiet (refl_of Quiet s) h
  | testMalloc size file line libc => exact hprints (prints_testMalloc ..) (hunit h)
  | testCalloc n size file line libc => exact hprints (prints_testCalloc ..) (hunit h)
  | testRealloc ptr size file line libc => exact hprints (prints_testRealloc ..) (hunit h)
  | testFree ptr file line => exact hprints (prints_testFree ..) h
  | storeByte ptr byte => cases h
  | storeState state => cases h
  | printError text => cases h

/-- Every call is quiet, whether it returns or exits. -/
theorem keeps_op (op : Op) : Keeps Quiet Fails op.exec where
  ok h := (Op.exec_ok h).quiet
  error h := Op.exec_error h

/-- The calls of a callback, by induction on them. -/
theorem keeps_execOps (ops : List Op) : Keeps Quiet Fails (execOps ops) := by
  induction ops with
  | nil => exact Keeps.pure ()
  | cons op ops ih => exact (keeps_op op).bind (fun _ _ _ => Quiet.fails) fun _ => ih

/-! ### A callback -/

/-- The reasons for `exit_test` of the endings. -/
def ScriptEnd.reason? : ScriptEnd → Option Reason
  | .ret _ => none
  | .fail .. | .exception .. => some .fail
  | .skip .. => some .skip
  | .stop => some .stop

/-- The state with the flag set that goes with a reason for `exit_test`. -/
def Globals.flag (s : Globals) : Reason → Globals
  | .fail => s
  | .skip => { s with globalSkipTest := true }
  | .stop => { s with globalStopTest := true }

theorem Quiet.flag {s s' : Globals} (h : Quiet s s') (reason : Reason) :
    Quiet (s.flag reason) (s'.flag reason) := by
  cases reason with
  | fail => exact h
  | skip => exact { h with skip := rfl }
  | stop => exact { h with stop := rfl }

/-- An ending that does not return. -/
theorem ending_exec {ending : ScriptEnd} {reason : Reason} (hr : ending.reason? = some reason)
    (s : Globals) : ∃ e s', ending.exec s = .error e s' ∧ Inert (s.flag reason) s' ∧
      (e = (s.flag reason).exitOf reason ∨ e = .undefined) := by
  cases ending with
  | ret code => cases hr
  | fail file line =>
      cases hr
      exact failsFrom_fail file line s
  | skip file line =>
      cases hr
      simp only [ScriptEnd.exec, skip, bind_apply, cmockaPrintError_apply, modify_apply,
        exitTest_apply]
      exact ⟨_, _, rfl, ⟨_, _, _, _, rfl⟩, .inl rfl⟩
  | stop =>
      cases hr
      simp only [ScriptEnd.exec, stop, bind_apply, modify_apply, exitTest_apply]
      exact ⟨_, _, rfl, ⟨_, _, _, _, rfl⟩, .inl rfl⟩
  | exception sig description =>
      cases hr
      exact FailsFrom.of_bind (cmockaPrintError_apply _ s) ⟨_, _, _, _, rfl⟩
        (failsFrom_of_exit (exitTest_bind _ _ _) (refl_of Inert _))

/-- **The ways a callback ends** while a test is running: it returns; a call fails, or its own code
calls `fail`, `skip` or `stop`; or the process is lost.  The flags record the reason. -/
theorem script_exec_cases (script : Script) {s : Globals} (hrun : s.globalRunningTest = true) :
    (∃ code s', script.exec s = .ok code s' ∧ Quiet s s' ∧ script.ending = .ret code ∧
      execOps script.ops s = .ok () s') ∨
    (∃ reason s', script.exec s = .error (.longjmp reason) s' ∧ Quiet (s.flag reason) s' ∧
      (reason ≠ .fail → script.ending.reason? = some reason ∧
        ∃ s₁, execOps script.ops s = .ok () s₁ ∧ Inert (s₁.flag reason) s')) ∨
    (∃ e s', script.exec s = .error e s' ∧ (e = .abort ∨ e = .undefined) ∧
      CallsOnly s.trace s'.trace) := by
  cases hops : execOps script.ops s with
  | error e s₁ =>
      obtain ⟨hq, hf⟩ := (keeps_execOps script.ops).error hops
      have hexec : script.exec s = .error e s₁ := bind_of_error hops _
      rcases hf with rfl | rfl
      · rcases exitOf_running hrun .fail with ha | hl
        · exact .inr (.inr ⟨_, s₁, hexec, .inl ha, hq.trace⟩)
        · refine .inr (.inl ⟨.fail, s₁, by rw [hexec, hl], hq, ?_⟩)
          exact fun hne => absurd rfl hne
      · exact .inr (.inr ⟨_, s₁, hexec, .inr rfl, hq.trace⟩)
  | ok u s₁ =>
      have hq := (keeps_execOps script.ops).ok hops
      have hexec : script.exec s = script.ending.exec s₁ := bind_of_ok hops _
      cases hr : script.ending.reason? with
      | none =>
          obtain ⟨code, he⟩ : ∃ code, script.ending = .ret code := by
            cases hend : script.ending <;> simp [hend, ScriptEnd.reason?] at hr
            exact ⟨_, rfl⟩
          exact .inl ⟨code, s₁, by rw [hexec, he]; rfl, hq, he, rfl⟩
      | some reason =>
          obtain ⟨e, s', he, hi, hreason⟩ := ending_exec hr s₁
          rw [he] at hexec
          have hrun' : (s₁.flag reason).globalRunningTest = true := by
            cases reason <;> exact hq.running.trans hrun
          have htrace : CallsOnly s.trace s'.trace := by
            rw [hi.trace_eq]
            cases reason <;> exact hq.trace
          rcases hreason with rfl | rfl
          · rcases exitOf_running hrun' reason with ha | hl
            · exact .inr (.inr ⟨_, s', hexec, .inl ha, htrace⟩)
            · exact .inr (.inl ⟨reason, s', by rw [hexec, hl],
                trans_of Quiet (hq.flag reason) hi.quiet, fun _ => ⟨rfl, s₁, rfl, hi⟩⟩)
          · exact .inr (.inr ⟨_, s', hexec, .inr rfl, htrace⟩)

/-- A callback that returned made all its calls. -/
theorem script_returned {script : Script} {s s' : Globals} {code : Int}
    (hrun : s.globalRunningTest = true) (h : script.exec s = .ok code s') :
    Quiet s s' ∧ script.ending = .ret code ∧ execOps script.ops s = .ok () s' := by
  rcases script_exec_cases script hrun with
    ⟨_, _, he, hq, hend, hops⟩ | ⟨_, _, he, -⟩ | ⟨_, _, he, -⟩
  · cases h.symm.trans he
    exact ⟨hq, hend, hops⟩
  · cases h.symm.trans he
  · cases h.symm.trans he

/-- A callback that was left by a jump; one that stopped or skipped made all its calls. -/
theorem script_jumped {script : Script} {s s' : Globals} {reason : Reason}
    (hrun : s.globalRunningTest = true) (h : script.exec s = .error (.longjmp reason) s') :
    Quiet (s.flag reason) s' ∧ (reason ≠ .fail → script.ending.reason? = some reason ∧
      ∃ s₁, execOps script.ops s = .ok () s₁ ∧ Inert (s₁.flag reason) s') := by
  rcases script_exec_cases script hrun with ⟨_, _, he, -⟩ | ⟨_, _, he, hq⟩ | ⟨_, _, he, hlost, -⟩
  · cases h.symm.trans he
  · cases h.symm.trans he
    exact hq
  · cases h.symm.trans he
    simp at hlost

theorem script_lost {script : Script} {s s' : Globals} {e : Exit}
    (hrun : s.globalRunningTest = true) (h : script.exec s = .error e s')
    (hne : ∀ reason, e ≠ .longjmp reason) :
    (e = .abort ∨ e = .undefined) ∧ CallsOnly s.trace s'.trace := by
  rcases script_exec_cases script hrun with
    ⟨_, _, he, -⟩ | ⟨reason, _, he, -⟩ | ⟨_, _, he, hlost⟩
  · cases h.symm.trans he
  · cases h.symm.trans he
    exact absurd rfl (hne reason)
  · cases h.symm.trans he
    exact hlost

/-! ### Around the callback -/

/-- The state in which the branches of `setjmp` start, up to the memory of the allocator. -/
def Globals.entering (s : Globals) (state : Addr) : Globals :=
  { s with
    globalFunctionResultMap := []
    globalLastMockValueLocation := initializeSourceLocation
    globalFunctionParameterMap := []
    globalLastParameterLocation := initializeSourceLocation
    globalCallOrdering := []
    globalRunningTest := true
    stateCell := state }

/-- The state after `teardown_testing`. -/
def Globals.tearDown (s : Globals) : Globals :=
  { s with
    globalFunctionResultMap := []
    globalLastMockValueLocation := initializeSourceLocation
    globalFunctionParameterMap := []
    globalLastParameterLocation := initializeSourceLocation
    globalCallOrdering := []
    globalLastCallOrderingLocation := initializeSourceLocation
    trace := s.trace ++ s.tornDown.map .freed }

/-- The state at the call of a user function. -/
def Globals.calling (s : Globals) (f : UserFn) : Globals :=
  { s with trace := s.trace ++ [.enter f.addr s.snapshot] }

/-- The record of a run. -/
def invocationOf (callback : Option (UserFn × CallbackKind)) (received left : Addr)
    (ending : Ending) (rc : Int) : Option Invocation :=
  callback.map fun (f, kind) => { fn := f.addr, kind, received, left, ending, rc }

/-- `cmocka_run_one_test_or_fixture` after the check point was taken. -/
def runFrom (functionName : CString) (testFunc setupFunc teardownFunc : Option UserFn)
    (state : Addr) (checkPoint : BlockNode) : CM CallbackRun := do
  initializeTesting
  modify fun s => { s with globalRunningTest := true, stateCell := state }
  let (rc, ending) ←
    setjmp (runUnderSetjmp functionName testFunc setupFunc teardownFunc checkPoint) runAfterLongjmp
  teardownTesting
  let s ← get
  let invocation := invocationOf (theCallback testFunc setupFunc teardownFunc) state s.stateCell
    ending rc
  record (invocation.toList.map fun i => .leave i s.snapshot)
  return { rc, state := s.stateCell, invocation }

theorem runOne_eq (functionName : CString) (testFunc setupFunc teardownFunc : Option UserFn)
    (state : Addr) (heapCheckPoint : Option BlockNode) :
    cmockaRunOneTestOrFixture functionName testFunc setupFunc teardownFunc state heapCheckPoint =
      match heapCheckPoint with
      | some checkPoint => runFrom functionName testFunc setupFunc teardownFunc state checkPoint
      | none => checkPointAllocatedBlocks >>=
          runFrom functionName testFunc setupFunc teardownFunc state := by
  cases heapCheckPoint with
  | none => rfl
  | some checkPoint => rfl

/-- `runFrom` is what its `setjmp` makes of it. -/
theorem runFrom_apply (functionName : CString) (testFunc setupFunc teardownFunc : Option UserFn)
    (state : Addr) (checkPoint : BlockNode) (s : Globals) :
    runFrom functionName testFunc setupFunc teardownFunc state checkPoint s =
      match setjmp (runUnderSetjmp functionName testFunc setupFunc teardownFunc checkPoint)
        runAfterLongjmp (s.entering state) with
      | .error e s₁ => .error e s₁
      | .ok (rc, ending) s₁ =>
          let invocation := invocationOf (theCallback testFunc setupFunc teardownFunc) state
            s₁.stateCell ending rc
          .ok { rc, state := s₁.stateCell, invocation }
            { s₁.tearDown with
              trace := s₁.tearDown.trace ++
                invocation.toList.map (.leave · s₁.tearDown.snapshot) } := by
  simp only [runFrom, initializeTesting, bind_of_ok (modify_apply _ _)]
  cases he : setjmp (runUnderSetjmp functionName testFunc setupFunc teardownFunc checkPoint)
    runAfterLongjmp (s.entering state) with
  | error e s₁ => exact bind_of_error he _
  | ok r s₁ =>
      obtain ⟨rc, ending⟩ := r
      refine (bind_of_ok he _).trans ?_
      simp only [bind_of_ok (teardownTesting_apply s₁)]
      rfl

/-- Taking the check point leaves everything but the allocator's list alone. -/
theorem checkPoint_error {s s' : Globals} {e : Exit}
    (h : checkPointAllocatedBlocks s = .error e s') : e = .undefined ∧ Inert s s' := by
  refine ⟨?_, (prints_checkPointAllocatedBlocks.error h).1⟩
  obtain ⟨_, s₁, h₁, h⟩ := (bind_eq_error.mp h).resolve_left (by intro h; cases h)
  obtain ⟨_, s₂, h₂, h⟩ := (bind_eq_error.mp h).resolve_left (by intro h; cases h)
  cases h₂
  cases hn : s₁.globalAllocatedBlocks.nodes .head with
  | none =>
      rw [hn] at h
      cases h
      rfl
  | some node =>
      rw [hn] at h
      cases h

/-- `cmocka_run_one_test_or_fixture` around its `setjmp`. -/
theorem runOne_ok {functionName : CString} {testFunc setupFunc teardownFunc : Option UserFn}
    {state : Addr} {heapCheckPoint : Option BlockNode} {s s' : Globals} {run : CallbackRun}
    (h : cmockaRunOneTestOrFixture functionName testFunc setupFunc teardownFunc state
      heapCheckPoint s = .ok run s') :
    ∃ checkPoint s₀ s₁ rc ending invocation, Inert (s.entering state) s₀ ∧
      setjmp (runUnderSetjmp functionName testFunc setupFunc teardownFunc checkPoint)
        runAfterLongjmp s₀ = .ok (rc, ending) s₁ ∧
      invocation = invocationOf (theCallback testFunc setupFunc teardownFunc) state s₁.stateCell
        ending rc ∧
      run = { rc, state := s₁.stateCell, invocation } ∧
      s' = { s₁.tearDown with
        trace := s₁.tearDown.trace ++ invocation.toList.map (.leave · s₁.tearDown.snapshot) } := by
  obtain ⟨checkPoint, s₀, hi, h⟩ : ∃ checkPoint s₀, Inert s s₀ ∧
      runFrom functionName testFunc setupFunc teardownFunc state checkPoint s₀ = .ok run s' := by
    rw [runOne_eq] at h
    cases heapCheckPoint with
    | some c => exact ⟨c, s, refl_of Inert s, h⟩
    | none =>
        obtain ⟨c, s₀, h₀, h⟩ := bind_eq_ok.mp h
        exact ⟨c, s₀, prints_checkPointAllocatedBlocks.ok h₀, h⟩
  rw [runFrom_apply] at h
  split at h
  next e s₁ he => cases h
  next rc ending s₁ he =>
    cases h
    obtain ⟨_, _, _, _, rfl⟩ := hi
    exact ⟨checkPoint, _, s₁, rc, ending, _, ⟨_, _, _, _, rfl⟩, he, rfl, rfl, rfl⟩

/-- The branch that runs a callback of a kind. -/
def runCallback (functionName : CString) (f : UserFn) (kind : CallbackKind)
    (checkPoint : BlockNode) : CM (Int × Ending) := do
  let code ← callUser f
  if kind ≠ .setup then failIfBlocksAllocated checkPoint functionName
  failIfLeftoverValues
  modify fun s => { s with globalRunningTest := false }
  return (if kind = .test then 0 else code, .returned (if kind = .test then 0 else code))

theorem runUnderSetjmp_eq {functionName : CString}
    {testFunc setupFunc teardownFunc : Option UserFn} {f : UserFn} {kind : CallbackKind}
    (h : theCallback testFunc setupFunc teardownFunc = some (f, kind)) (checkPoint : BlockNode) :
    runUnderSetjmp functionName testFunc setupFunc teardownFunc checkPoint =
      runCallback functionName f kind checkPoint := by
  match testFunc, setupFunc, teardownFunc with
  | some g, _, _ =>
      cases h
      rfl
  | none, some g, _ =>
      cases h
      rfl
  | none, none, some g =>
      cases h
      rfl

/-- The branch before a jump, when the callback returns and nothing is left over. -/
theorem runCallback_ok {functionName : CString} {f : UserFn} {kind : CallbackKind}
    {checkPoint : BlockNode} {s s₁ : Globals} {rc : Int} {ending : Ending}
    (h : runCallback functionName f kind checkPoint s = .ok (rc, ending) s₁) :
    ∃ code s₂ s₃, f.script.exec (s.calling f) = .ok code s₂ ∧ Inert s₂ s₃ ∧ s₃.anyLeft = false ∧
      rc = (if kind = .test then 0 else code) ∧ ending = .returned rc ∧
      Inert { s₃.dropOptionals with globalRunningTest := false } s₁ := by
  obtain ⟨code, s₂, h₂, h⟩ := bind_eq_ok.mp h
  obtain ⟨s₃, hi, h⟩ : ∃ s₃, Inert s₂ s₃ ∧ (do
      failIfLeftoverValues
      modify fun s => { s with globalRunningTest := false }
      return (if kind = .test then 0 else code, .returned (if kind = .test then 0 else code)) :
      CM (Int × Ending)) s₃ = .ok (rc, ending) s₁ := by
    by_cases hk : kind ≠ .setup
    · simp only [if_pos hk] at h
      obtain ⟨_, s₃, h₃, h⟩ := bind_eq_ok.mp h
      exact ⟨s₃, (prints_failIfBlocksAllocated _ _).ok h₃, h⟩
    · simp only [if_neg hk] at h
      exact ⟨s₂, refl_of Inert _, h⟩
  obtain ⟨_, s₄, h₄, h⟩ := bind_eq_ok.mp h
  cases h
  rcases failIfLeftoverValues_cases s₃ with ⟨hl, s', he, hi'⟩ | ⟨-, hf⟩
  · cases he.symm.trans h₄
    obtain ⟨_, _, _, _, rfl⟩ := hi'
    exact ⟨code, s₂, s₃, h₂, hi, hl, rfl, rfl, ⟨_, _, _, _, rfl⟩⟩
  · exact absurd h₄ (hf.not_ok _ _)

/-- How a callback is left by `cm_longjmp`: out of its script, or by one of the two checks after
it. -/
theorem runCallback_error {functionName : CString} {f : UserFn} {kind : CallbackKind}
    {checkPoint : BlockNode} {s s₁ : Globals} {e : Exit}
    (h : runCallback functionName f kind checkPoint s = .error e s₁) :
    f.script.exec (s.calling f) = .error e s₁ ∨
    ∃ code s₂ s₃, f.script.exec (s.calling f) = .ok code s₂ ∧ Inert s₂ s₃ ∧ Fails s₂ e ∧
      (s₁ = s₃ ∨ Inert s₃.dropOptionals s₁) := by
  rcases bind_eq_error.mp h with h | ⟨code, s₂, h₂, h⟩
  · exact .inl h
  · have hrest : ∀ s₃, Inert s₂ s₃ → (do
        failIfLeftoverValues
        modify fun s => { s with globalRunningTest := false }
        return (if kind = .test then 0 else code, .returned (if kind = .test then 0 else code)) :
        CM (Int × Ending)) s₃ = .error e s₁ → Fails s₂ e ∧ Inert s₃.dropOptionals s₁ := by
      intro s₃ hi h
      rcases bind_eq_error.mp h with h | ⟨_, s₄, -, h⟩
      · rcases failIfLeftoverValues_cases s₃ with ⟨-, s', he, -⟩ | ⟨-, e', s', he, hi', hf⟩
        · cases he.symm.trans h
        · cases he.symm.trans h
          exact ⟨hi.fails hf, hi'⟩
      · cases h
    refine .inr ⟨code, s₂, ?_⟩
    by_cases hk : kind ≠ .setup
    · simp only [if_pos hk] at h
      rcases bind_eq_error.mp h with h | ⟨_, s₃, h₃, h⟩
      · obtain ⟨hi, hf⟩ := (prints_failIfBlocksAllocated _ _).error h
        exact ⟨s₁, h₂, hi, hf, .inl rfl⟩
      · have hi := (prints_failIfBlocksAllocated _ _).ok h₃
        obtain ⟨hf, hd⟩ := hrest s₃ hi h
        exact ⟨s₃, h₂, hi, hf, .inr hd⟩
    · simp only [if_neg hk] at h
      obtain ⟨hf, hd⟩ := hrest s₂ (refl_of Inert _) h
      exact ⟨s₂, h₂, refl_of Inert _, hf, .inr hd⟩

theorem quiet_dropOptionals (s : Globals) : Quiet s s.dropOptionals := by
  refine quiet_of_calls _ rfl fun e he => ?_
  obtain ⟨p, -, rfl⟩ := List.mem_map.mp he
  rfl

/-- The checks behind the call of a script that returned are quiet too. -/
theorem quiet_behind {s s₁ s₂ s₃ : Globals} (hq : Quiet s s₂) (hi : Inert s₂ s₃)
    (hd : s₁ = s₃ ∨ Inert s₃.dropOptionals s₁) : Quiet s s₁ := by
  have hq₃ := trans_of Quiet hq hi.quiet
  rcases hd with rfl | hd
  · exact hq₃
  · exact trans_of Quiet (trans_of Quiet hq₃ (quiet_dropOptionals s₃)) hd.quiet

theorem Quiet.running_fails {s s' : Globals} {e : Exit} (h : Quiet s s')
    (hrun : s.globalRunningTest = true) (hf : Fails s' e) :
    e = .abort ∨ e = .undefined ∨ e = .longjmp .fail := by
  rcases hf with rfl | rfl
  · rcases exitOf_running (h.running.trans hrun) .fail with ha | hl
    · exact .inl ha
    · exact .inr (.inr hl)
  · exact .inr (.inl rfl)

/-- Control comes back by a return or by a jump. -/
theorem setjmp_ok {β : Type} {body : CM β} {jumped : Reason → CM β} {s s' : Globals} {b : β}
    (h : setjmp body jumped s = .ok b s') :
    body s = .ok b s' ∨ ∃ reason s₁, body s = .error (.longjmp reason) s₁ ∧
      jumped reason s₁ = .ok b s' := by
  unfold setjmp at h
  split at h
  next b' s₁ he =>
    cases h
    exact .inl he
  next reason s₁ he => exact .inr ⟨reason, s₁, he, h⟩
  next e s₁ hne he => cases h

/-- The branch after a jump: `rc` is `-1`, but for a test that stopped with nothing left over. -/
theorem runAfterLongjmp_ok {reason : Reason} {s s₁ : Globals} {rc : Int} {ending : Ending}
    (h : runAfterLongjmp reason s = .ok (rc, ending) s₁) :
    ending = .jumped reason ∧
      ((s.globalStopTest = false ∧ rc = -1 ∧ s₁ = { s with globalRunningTest := false }) ∨
      (s.globalStopTest = true ∧ rc = (if s.anyLeft then -1 else 0) ∧
        Inert { s.dropOptionals with globalRunningTest := false, globalStopTest := false } s₁)) := by
  obtain ⟨_, s₂, h₂, h⟩ := bind_eq_ok.mp h
  cases h₂
  obtain ⟨_, s₃, h₃, h⟩ := bind_eq_ok.mp h
  cases h₃
  cases hstop : s.globalStopTest with
  | false =>
      simp only [hstop, Bool.false_eq_true, if_false, pure_apply] at h
      cases h
      exact ⟨rfl, .inl ⟨rfl, rfl, by rw [← hstop]⟩⟩
  | true =>
      obtain ⟨s₄, he, hi⟩ := hasLeftoverValues_spec { s with globalRunningTest := false }
      simp only [hstop, if_true] at h
      rw [hstop] at he
      rw [bind_of_ok he] at h
      cases h
      obtain ⟨_, _, _, _, rfl⟩ := hi
      rw [← hstop]
      exact ⟨rfl, .inr ⟨rfl, rfl, ⟨_, _, _, _, rfl⟩⟩⟩

/-- The check point of `cmocka_run_one_test_or_fixture`: the one passed, or a new one. -/
def takeCheckPoint : Option BlockNode → CM BlockNode
  | some checkPoint => pure checkPoint
  | none => checkPointAllocatedBlocks

/-- The state in which the code of a callback starts. -/
def Globals.atBody (s : Globals) (f : UserFn) (state : Addr)
    (heapCheckPoint : Option BlockNode) : Globals :=
  ((final (takeCheckPoint heapCheckPoint s)).entering state).calling f

theorem inert_takeCheckPoint (heapCheckPoint : Option BlockNode) (s : Globals) :
    Inert s (final (takeCheckPoint heapCheckPoint s)) := by
  cases heapCheckPoint with
  | some checkPoint => exact refl_of Inert s
  | none => exact prints_checkPointAllocatedBlocks.final s

/-- A run of a callback: the check point, the branches of `setjmp`, and `teardown_testing`. -/
theorem runOne_callback {functionName : CString} {testFunc setupFunc teardownFunc : Option UserFn}
    {f : UserFn} {kind : CallbackKind} {state : Addr} {heapCheckPoint : Option BlockNode}
    {s s' : Globals} {run : CallbackRun}
    (hcb : theCallback testFunc setupFunc teardownFunc = some (f, kind))
    (h : cmockaRunOneTestOrFixture functionName testFunc setupFunc teardownFunc state
      heapCheckPoint s = .ok run s') :
    ∃ checkPoint s₀ s₁ rc ending invocation, takeCheckPoint heapCheckPoint s = .ok checkPoint s₀ ∧
      setjmp (runCallback functionName f kind checkPoint) runAfterLongjmp (s₀.entering state) =
        .ok (rc, ending) s₁ ∧
      run.rc = rc ∧
      s' = { s₁.tearDown with
        trace := s₁.tearDown.trace ++ [.leave invocation s₁.tearDown.snapshot] } := by
  obtain ⟨checkPoint, s₀, h₀, h⟩ : ∃ checkPoint s₀,
      takeCheckPoint heapCheckPoint s = .ok checkPoint s₀ ∧
      runFrom functionName testFunc setupFunc teardownFunc state checkPoint s₀ = .ok run s' := by
    rw [runOne_eq] at h
    cases heapCheckPoint with
    | some c => exact ⟨c, s, rfl, h⟩
    | none => exact bind_eq_ok.mp h
  rw [runFrom_apply, runUnderSetjmp_eq hcb, hcb] at h
  split at h
  next e s₁ he => cases h
  next rc ending s₁ he =>
    cases h
    exact ⟨checkPoint, s₀, s₁, rc, ending, _, h₀, he, rfl, rfl⟩

/-- The flags of the runner, set to given values. -/
def Globals.withFlags (s : Globals) (running skip stop : Bool) : Globals :=
  { s with globalRunningTest := running, globalSkipTest := skip, globalStopTest := stop }

/-- **What a callback and the checks after it keep**: a property that does not depend on the flags,
on what is printed or on the allocator, and is kept by the removal of optional values, holds before
`teardown_testing` if it holds after the calls of the callback. -/
theorem callback_keeps {I : Globals → Prop} (hinert : ∀ {s s'}, Inert s s' → I s → I s')
    (hflags : ∀ {s} running skip stop, I s → I (s.withFlags running skip stop))
    (hdrop : ∀ {s}, I s → I s.dropOptionals) {functionName : CString} {f : UserFn}
    {kind : CallbackKind} {checkPoint : BlockNode} {s s₁ : Globals} {b : Int × Ending}
    (hcalls : I (final (execOps f.script.ops (s.calling f))))
    (h : setjmp (runCallback functionName f kind checkPoint) runAfterLongjmp s = .ok b s₁) :
    I s₁ := by
  -- the ending of the callback prints and sets a flag
  have hscript : I (final (f.script.exec (s.calling f))) := by
    cases hops : execOps f.script.ops (s.calling f) with
    | error e s₂ =>
        rw [show f.script.exec (s.calling f) = .error e s₂ from bind_of_error hops _]
        simpa [hops] using hcalls
    | ok u s₂ =>
        rw [show f.script.exec (s.calling f) = f.script.ending.exec s₂ from bind_of_ok hops _]
        replace hcalls : I s₂ := by simpa [hops] using hcalls
        cases hr : f.script.ending.reason? with
        | none =>
            cases hend : f.script.ending <;> simp [hend, ScriptEnd.reason?] at hr
            exact hcalls
        | some reason =>
            obtain ⟨e, s₃, he, hi, -⟩ := ending_exec hr s₂
            rw [he]
            refine hinert hi ?_
            cases reason with
            | fail => exact hcalls
            | skip => exact hflags _ _ _ hcalls
            | stop => exact hflags _ _ _ hcalls
  obtain ⟨rc, ending⟩ := b
  rcases setjmp_ok h with h | ⟨reason, s₂, h₂, h⟩
  · obtain ⟨code, s₂, s₃, hs, hi, -, -, -, hi'⟩ := runCallback_ok h
    rw [hs] at hscript
    exact hinert hi' (hflags _ _ _ (hdrop (hinert hi hscript)))
  · have hbefore : I s₂ := by
      rcases runCallback_error h₂ with hs | ⟨code, s₃, s₄, hs, hi, -, hd⟩
      · rw [hs] at hscript
        exact hscript
      · rw [hs] at hscript
        rcases hd with rfl | hd
        · exact hinert hi hscript
        · exact hinert hd (hdrop (hinert hi hscript))
    obtain ⟨-, ⟨-, -, rfl⟩ | ⟨-, -, hi⟩⟩ := runAfterLongjmp_ok h
    · exact hflags _ _ _ hbefore
    · exact hinert hi (hflags _ _ _ (hdrop hbefore))

theorem anyLeft_of_inert {s s' : Globals} (h : Inert s s') : s'.anyLeft = s.anyLeft := by
  obtain ⟨_, _, _, _, rfl⟩ := h
  rfl

/-- **A test passes** only if all its calls returned, and nothing expected is left after them. -/
theorem setjmp_passed {functionName : CString} {f : UserFn} {checkPoint : BlockNode}
    {s s₁ : Globals} {ending : Ending} (hrun : s.globalRunningTest = true)
    (hstop : s.globalStopTest = false)
    (h : setjmp (runCallback functionName f .test checkPoint) runAfterLongjmp s =
      .ok (0, ending) s₁) :
    ∃ s₂, execOps f.script.ops (s.calling f) = .ok () s₂ ∧ s₂.anyLeft = false := by
  have hrun' : (s.calling f).globalRunningTest = true := hrun
  rcases setjmp_ok h with h | ⟨reason, s₂, h₂, h⟩
  · obtain ⟨code, s₂, s₃, hs, hi, hleft, -⟩ := runCallback_ok h
    obtain ⟨-, -, hops⟩ := script_returned hrun' hs
    exact ⟨s₂, hops, (anyLeft_of_inert hi).symm.trans hleft⟩
  · obtain ⟨-, ⟨-, hrc, -⟩ | ⟨hs₂, hrc, -⟩⟩ := runAfterLongjmp_ok h
    · cases hrc
    have hleft : s₂.anyLeft = false := by
      cases hl : s₂.anyLeft with
      | false => rfl
      | true =>
          rw [hl] at hrc
          cases hrc
    rcases runCallback_error h₂ with hs | ⟨code, s₃, s₄, hs, hi, -, hd⟩
    · obtain ⟨hq, hr⟩ := script_jumped hrun' hs
      -- only `stop()` sets the flag
      cases reason with
      | fail => cases (hq.stop.trans hstop).symm.trans hs₂
      | skip => cases (hq.stop.trans hstop).symm.trans hs₂
      | stop =>
          obtain ⟨-, s₃, hops, hi⟩ := hr nofun
          exact ⟨s₃, hops, (anyLeft_of_inert hi).symm.trans hleft⟩
    · obtain ⟨hq, -⟩ := script_returned hrun' hs
      cases ((quiet_behind hq hi hd).stop.trans hstop).symm.trans hs₂

/-! ### A run of a callback -/

/-- What a callback finds. -/
def runningSnapshot : Snapshot where
  resultMapEmpty := true
  parameterMapEmpty := true
  callOrderingEmpty := true
  globalRunningTest := true
  globalStopTest := false
  globalLastMockValueLocation := initializeSourceLocation
  globalLastParameterLocation := initializeSourceLocation

/-- What is left behind after a callback. -/
def idleSnapshot : Snapshot := { runningSnapshot with globalRunningTest := false }

/-- The returned `rc` is that of the ending. -/
def Invocation.Consistent (i : Invocation) : Prop :=
  match i.ending with
  | .returned code => i.rc = code ∧ (i.kind = .test → code = 0)
  | .jumped .stop => i.rc = 0 ∨ i.rc = -1
  | .jumped _ => i.rc = -1

/-- The callback ended by `skip()`. -/
def Ending.skipped : Ending → Bool
  | .jumped .skip => true
  | _ => false

/-- The events of a run of a callback. -/
inductive RunEvents : Option (UserFn × CallbackKind) → Addr → CallbackRun → List Event → Prop where
  | absent (state : Addr) : RunEvents none state ⟨0, state, none⟩ []
  | run (f : UserFn) (kind : CallbackKind) (state : Addr) (i : Invocation) (calls : List Event)
      (hfn : i.fn = f.addr) (hkind : i.kind = kind) (hreceived : i.received = state)
      (hi : i.Consistent) (hcalls : ∀ e ∈ calls, e.isCall = true) :
      RunEvents (some (f, kind)) state ⟨i.rc, i.left, some i⟩
        (.enter f.addr runningSnapshot :: calls ++ [.leave i idleSnapshot])

/-- What a run of a callback does to the state. -/
structure RunSpec (callback : Option (UserFn × CallbackKind)) (state : Addr) (s : Globals)
    (run : CallbackRun) (s' : Globals) : Prop where
  snapshot : s'.snapshot = idleSnapshot
  platform : s'.platform = s.platform
  testFilter : s'.globalTestFilterPattern = s.globalTestFilterPattern
  skipFilter : s'.globalSkipFilterPattern = s.globalSkipFilterPattern
  skip : s'.globalSkipTest = (s.globalSkipTest || run.invocation.any (·.ending.skipped))
  trace : ∃ events, s'.trace = s.trace ++ events ∧ RunEvents callback state run events

/-- Both branches of `setjmp` end with the flags cleared, but for the skip flag. -/
structure Left (s : Globals) (skipped : Bool) (s' : Globals) : Prop where
  platform : s'.platform = s.platform
  running : s'.globalRunningTest = false
  stop : s'.globalStopTest = false
  skip : s'.globalSkipTest = (s.globalSkipTest || skipped)
  testFilter : s'.globalTestFilterPattern = s.globalTestFilterPattern
  skipFilter : s'.globalSkipFilterPattern = s.globalSkipFilterPattern
  trace : CallsOnly s.trace s'.trace

/-- **The branches of `setjmp` around a callback.** -/
theorem setjmp_left {functionName : CString} {f : UserFn} {kind : CallbackKind}
    {checkPoint : BlockNode} {s s₁ : Globals} {rc : Int} {ending : Ending}
    (hrun : s.globalRunningTest = true) (hstop : s.globalStopTest = false)
    (h : setjmp (runCallback functionName f kind checkPoint) runAfterLongjmp s =
      .ok (rc, ending) s₁) (received left : Addr) :
    Left (s.calling f) ending.skipped s₁ ∧
      Invocation.Consistent { fn := f.addr, kind, received, left, ending, rc } := by
  have hrun' : (s.calling f).globalRunningTest = true := hrun
  rcases setjmp_ok h with h | ⟨reason, s₂, h₂, h⟩
  · obtain ⟨code, s₂, s₃, hs, hi, -, rfl, rfl, hi'⟩ := runCallback_ok h
    obtain ⟨hq, -⟩ := script_returned hrun' hs
    have hq' := trans_of Quiet (trans_of Quiet hq hi.quiet) (quiet_dropOptionals s₃)
    obtain ⟨_, _, _, _, rfl⟩ := hi'
    refine ⟨⟨hq'.platform, rfl, hq'.stop.trans hstop, ?_, hq'.testFilter, hq'.skipFilter,
      hq'.trace⟩, ?_⟩
    · simpa [Ending.skipped] using hq'.skip
    · simp only [Invocation.Consistent, true_and]
      exact fun hk => if_pos hk
  · -- the jump comes from the script, or from a check behind it, which can only fail
    have hq : Quiet ((s.calling f).flag reason) s₂ := by
      rcases runCallback_error h₂ with hs | ⟨code, s₃, s₄, hs, hi, hf, hd⟩
      · exact (script_jumped hrun' hs).1
      · obtain ⟨hq, -⟩ := script_returned hrun' hs
        obtain rfl : reason = .fail := by
          rcases hq.running_fails hrun' hf with hf | hf | hf
          · cases hf
          · cases hf
          · cases hf
            rfl
        exact quiet_behind hq hi hd
    obtain ⟨rfl, hj⟩ := runAfterLongjmp_ok h
    have hskip : ((s.calling f).flag reason).globalSkipTest =
        ((s.calling f).globalSkipTest || (Ending.jumped reason).skipped) := by
      cases reason <;> simp [Globals.flag, Ending.skipped]
    have hflag : ∀ {s'}, Quiet ((s.calling f).flag reason) s' → s'.platform = (s.calling f).platform ∧
        s'.globalTestFilterPattern = s.globalTestFilterPattern ∧
        s'.globalSkipFilterPattern = s.globalSkipFilterPattern ∧
        CallsOnly (s.calling f).trace s'.trace := by
      intro s' hq
      cases reason <;> exact ⟨hq.platform, hq.testFilter, hq.skipFilter, hq.trace⟩
    obtain ⟨hp, ht, hsf, htr⟩ := hflag hq
    rcases hj with ⟨hns, rfl, rfl⟩ | ⟨hs, rfl, hi⟩
    · refine ⟨⟨hp, rfl, hns, hq.skip.trans hskip, ht, hsf, htr⟩, ?_⟩
      cases reason with
      | fail => exact rfl
      | skip => exact rfl
      | stop => exact .inr rfl
    · have hq' := trans_of Quiet hq (quiet_dropOptionals s₂)
      obtain ⟨_, _, _, _, rfl⟩ := hi
      obtain ⟨hp, ht, hsf, htr⟩ := hflag hq'
      -- only `stop` sets the flag
      have hreason : reason = .stop := by
        cases reason with
        | stop => rfl
        | fail => cases (hq.stop.symm.trans hs).symm.trans hstop
        | skip => cases (hq.stop.symm.trans hs).symm.trans hstop
      subst hreason
      refine ⟨⟨hp, rfl, rfl, hq'.skip.trans hskip, ht, hsf, htr⟩, ?_⟩
      simp only [Invocation.Consistent]
      split <;> simp

/-- `teardown_testing` leaves the idle snapshot. -/
theorem tearDown_snapshot {s : Globals} (hrun : s.globalRunningTest = false)
    (hstop : s.globalStopTest = false) : s.tearDown.snapshot = idleSnapshot := by
  simp only [Globals.snapshot, Globals.tearDown, hrun, hstop, idleSnapshot, runningSnapshot]
  rfl

theorem entering_snapshot {s s₀ : Globals} {state : Addr} (h : Inert (s.entering state) s₀)
    (hstop : s.globalStopTest = false) : s₀.snapshot = runningSnapshot := by
  obtain ⟨_, _, _, _, rfl⟩ := h
  simp only [Globals.snapshot, Globals.entering, hstop, runningSnapshot]
  rfl

theorem tornDown_eq {s s' : Globals} (h : Inert s s') : s'.tornDown = s.tornDown := by
  obtain ⟨_, _, _, _, rfl⟩ := h
  rfl

/-- Empty structures have nothing left over. -/
theorem anyLeft_of_empty {s : Globals} (hr : s.globalFunctionResultMap = [])
    (hp : s.globalFunctionParameterMap = []) (hc : s.globalCallOrdering = []) :
    s.anyLeft = false ∧ s.dropOptionals = s := by
  constructor
  · simp only [Globals.anyLeft, Globals.resultsLeft, Globals.parametersLeft, Globals.callsLeft, hr,
      hp, hc]
    rfl
  · obtain ⟨⟩ := s
    cases hr
    cases hp
    cases hc
    simp [Globals.dropOptionals, removeAlwaysReturnValues, removeAlwaysReturnValuesFromList]

theorem theCallback_eq_none {testFunc setupFunc teardownFunc : Option UserFn}
    (h : theCallback testFunc setupFunc teardownFunc = none) :
    testFunc = none ∧ setupFunc = none ∧ teardownFunc = none := by
  cases testFunc with
  | some f => cases h
  | none =>
      cases setupFunc with
      | some f => cases h
      | none =>
          cases teardownFunc with
          | some f => cases h
          | none => exact ⟨rfl, rfl, rfl⟩

/-- Without a callback nothing happens. -/
theorem setjmp_absent (functionName : CString) (checkPoint : BlockNode) {s s₀ : Globals}
    {state : Addr} (h₀ : Inert (s.entering state) s₀) :
    ∃ s₁, setjmp (runUnderSetjmp functionName none none none checkPoint) runAfterLongjmp s₀ =
        .ok (0, .returned 0) s₁ ∧
      Inert { s.entering state with globalRunningTest := false } s₁ := by
  obtain ⟨hleft, hdrop⟩ : s₀.anyLeft = false ∧ s₀.dropOptionals = s₀ := by
    obtain ⟨_, _, _, _, rfl⟩ := h₀
    exact anyLeft_of_empty rfl rfl rfl
  obtain ⟨s₂, he, hi⟩ : ∃ s₂, failIfLeftoverValues s₀ = .ok () s₂ ∧ Inert s₀ s₂ := by
    rcases failIfLeftoverValues_cases s₀ with ⟨-, s₂, he, hi⟩ | ⟨hl, -⟩
    · exact ⟨s₂, he, hdrop ▸ hi⟩
    · cases hleft.symm.trans hl
  have hbody : runUnderSetjmp functionName none none none checkPoint s₀ =
      .ok (0, .returned 0) { s₂ with globalRunningTest := false } := bind_of_ok he _
  refine ⟨{ s₂ with globalRunningTest := false }, by rw [setjmp, hbody], ?_⟩
  obtain ⟨_, _, _, _, rfl⟩ := trans_of Inert h₀ hi
  exact ⟨_, _, _, _, rfl⟩

/-- **A run of a callback**, from any state between callbacks. -/
theorem runOne_spec {functionName : CString} {testFunc setupFunc teardownFunc : Option UserFn}
    {state : Addr} {heapCheckPoint : Option BlockNode} {s s' : Globals} {run : CallbackRun}
    (hstop : s.globalStopTest = false)
    (h : cmockaRunOneTestOrFixture functionName testFunc setupFunc teardownFunc state
      heapCheckPoint s = .ok run s') :
    RunSpec (theCallback testFunc setupFunc teardownFunc) state s run s' := by
  obtain ⟨checkPoint, s₀, s₁, rc, ending, i, hi, hj, rfl, rfl, rfl⟩ := runOne_ok h
  cases hcb : theCallback testFunc setupFunc teardownFunc with
  | none =>
      obtain ⟨rfl, rfl, rfl⟩ := theCallback_eq_none hcb
      obtain ⟨s₂, he, hi₁⟩ := setjmp_absent functionName checkPoint hi
      cases he.symm.trans hj
      have hq := hi₁.quiet
      have hstate : s₁.stateCell = state := hi₁.stateCell_eq
      have htrace : s₁.tearDown.trace = s.trace := by
        rw [Globals.tearDown, tornDown_eq hi₁, hi₁.trace_eq]
        exact List.append_nil _
      refine ⟨tearDown_snapshot hq.running (hq.stop.trans hstop), hq.platform, hq.testFilter,
        hq.skipFilter, hq.skip.trans (Bool.or_false _).symm, [], ?_, ?_⟩
      · rw [List.append_nil, ← htrace]
        exact List.append_nil _
      · rw [hstate]
        exact .absent state
  | some callback =>
      obtain ⟨f, kind⟩ := callback
      have hsnap := entering_snapshot hi hstop
      rw [runUnderSetjmp_eq hcb] at hj
      have hrun : s₀.globalRunningTest = true := congrArg Snapshot.globalRunningTest hsnap
      have hstop₀ : s₀.globalStopTest = false := congrArg Snapshot.globalStopTest hsnap
      obtain ⟨hl, hc⟩ := setjmp_left hrun hstop₀ hj state s₁.stateCell
      obtain ⟨calls, htr, hcalls⟩ := hl.trace.trans (callsOnly_freed s₁.trace s₁.tornDown)
      have hidle := tearDown_snapshot hl.running hl.stop
      -- the trace gets the entry, the calls of the script and its releases, and the exit
      obtain ⟨_, _, _, _, rfl⟩ := hi
      refine ⟨hidle, hl.platform, hl.testFilter, hl.skipFilter, ?_,
        .enter f.addr runningSnapshot :: calls ++
          [.leave { fn := f.addr, kind, received := state, left := s₁.stateCell, ending, rc }
            idleSnapshot], ?_, ?_⟩
      · exact hl.skip
      · rw [hidle]
        simp only [invocationOf, Option.map_some, Option.toList_some, List.map_cons, List.map_nil]
        rw [show s₁.tearDown.trace = _ from htr, Globals.calling, hsnap]
        simp [Globals.entering]
      · exact .run f kind state _ calls rfl rfl rfl hc hcalls

/-- After `cm_longjmp` the runner does not fail. -/
theorem runAfterLongjmp_ne_error (reason : Reason) (s s' : Globals) (e : Exit) :
    runAfterLongjmp reason s ≠ .error e s' := by
  intro h
  obtain ⟨_, s₁, h₁, h⟩ := (bind_eq_error.mp h).resolve_left (by intro h; cases h)
  obtain ⟨_, s₂, h₂, h⟩ := (bind_eq_error.mp h).resolve_left (by intro h; cases h)
  cases h₂
  cases hstop : s₁.globalStopTest with
  | false =>
      simp only [hstop, Bool.false_eq_true, if_false] at h
      cases h
  | true =>
      obtain ⟨s₃, he, -⟩ := hasLeftoverValues_spec s₁
      simp only [hstop, if_true] at h
      rw [bind_of_ok he] at h
      cases h

/-- A callback that takes the process with it. -/
theorem setjmp_lost {functionName : CString} {f : UserFn} {kind : CallbackKind}
    {checkPoint : BlockNode} {s s₁ : Globals} {e : Exit} (hrun : s.globalRunningTest = true)
    (h : setjmp (runCallback functionName f kind checkPoint) runAfterLongjmp s = .error e s₁) :
    (e = .abort ∨ e = .undefined) ∧ CallsOnly (s.calling f).trace s₁.trace := by
  have hlost : runCallback functionName f kind checkPoint s = .error e s₁ ∧
      ∀ reason, e ≠ .longjmp reason := by
    -- what comes back by `cm_longjmp` is not lost
    unfold setjmp at h
    split at h
    next b s₂ he => cases h
    next reason s₂ he => exact absurd h (runAfterLongjmp_ne_error reason s₂ s₁ e)
    next e' s₂ hne he =>
      cases h
      exact ⟨he, hne⟩
  obtain ⟨h, hne⟩ := hlost
  have hrun' : (s.calling f).globalRunningTest = true := hrun
  rcases runCallback_error h with hs | ⟨code, s₂, s₃, hs, hi, hf, hd⟩
  · exact script_lost hrun' hs hne
  · obtain ⟨hq, -⟩ := script_returned hrun' hs
    refine ⟨?_, (quiet_behind hq hi hd).trace⟩
    rcases hq.running_fails hrun' hf with ha | hu | hl
    · exact .inl ha
    · exact .inr hu
    · exact absurd hl (hne _)

/-- A run that does not come back: the process is aborted or undefined, in the callback at the
latest. -/
theorem runOne_lost {functionName : CString} {testFunc setupFunc teardownFunc : Option UserFn}
    {state : Addr} {heapCheckPoint : Option BlockNode} {s s' : Globals} {e : Exit}
    (hstop : s.globalStopTest = false)
    (h : cmockaRunOneTestOrFixture functionName testFunc setupFunc teardownFunc state
      heapCheckPoint s = .error e s') :
    (e = .abort ∨ e = .undefined) ∧ (s'.trace = s.trace ∨ ∃ f calls,
      s'.trace = s.trace ++ .enter f runningSnapshot :: calls ∧ ∀ e ∈ calls, e.isCall = true) := by
  have hfrom : ∀ checkPoint s₀, Inert s s₀ →
      runFrom functionName testFunc setupFunc teardownFunc state checkPoint s₀ = .error e s' →
      (e = .abort ∨ e = .undefined) ∧ ∃ f calls,
        s'.trace = s.trace ++ .enter f runningSnapshot :: calls ∧
          ∀ e ∈ calls, e.isCall = true := by
    intro checkPoint s₀ hi h
    rw [runFrom_apply] at h
    split at h
    next e' s₁ he =>
      cases h
      have hstop₀ : s₀.globalStopTest = false := hi.quiet.stop.trans hstop
      cases hcb : theCallback testFunc setupFunc teardownFunc with
      | none =>
          obtain ⟨rfl, rfl, rfl⟩ := theCallback_eq_none hcb
          obtain ⟨s₂, hok, -⟩ := setjmp_absent functionName checkPoint (refl_of Inert _)
          cases hok.symm.trans he
      | some callback =>
          obtain ⟨f, kind⟩ := callback
          rw [runUnderSetjmp_eq hcb] at he
          obtain ⟨hlost, calls, htr, hcalls⟩ := setjmp_lost rfl he
          refine ⟨hlost, f.addr, calls, ?_, hcalls⟩
          rw [htr, Globals.calling, entering_snapshot (refl_of Inert _) hstop₀]
          simp [Globals.entering, hi.trace_eq]
    next rc ending s₁ he => cases h
  rw [runOne_eq] at h
  cases heapCheckPoint with
  | some c =>
      obtain ⟨hlost, htr⟩ := hfrom c s (refl_of Inert s) h
      exact ⟨hlost, .inr htr⟩
  | none =>
      rcases bind_eq_error.mp h with h | ⟨c, s₀, h₀, h⟩
      · obtain ⟨rfl, hi⟩ := checkPoint_error h
        exact ⟨.inr rfl, .inl hi.trace_eq⟩
      · obtain ⟨hlost, htr⟩ := hfrom c s₀ (prints_checkPointAllocatedBlocks.ok h₀) h
        exact ⟨hlost, .inr htr⟩

end Cmocka
