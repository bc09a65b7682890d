import Cmocka.Runner.Callback

/-!
# Runner — the output formats stay the same

`cm_get_output` answers what the environment or the program selected, and remembers what it read
(`Globals.output`, `Globals.asked`).  Nothing a callback or the runner does changes the answer
(`steady_runGroups`): all reports of a process are made in one selection of formats.  Calls on the
expectation structures and the endings of callbacks leave the tracked memory alone as well, and are
never undefined behaviour (`Apart`).
-/

namespace Cmocka

open Runs SymbolMap

/-- What `cm_get_output` answers. -/
def Globals.output (s : Globals) : BitVec 32 :=
  (cmGetOutput s.platform.cmockaMessageOutput s.envChecked s.globalMsgOutput).1

/-- The state after `cm_get_output`. -/
def Globals.asked (s : Globals) : Globals :=
  let answer := cmGetOutput s.platform.cmockaMessageOutput s.envChecked s.globalMsgOutput
  { s with envChecked := answer.2.1, globalMsgOutput := answer.2.2 }

/-- `cm_get_output` answers and remembers. -/
theorem getOutput_apply (s : Globals) : getOutput s = .ok s.output s.asked := rfl

/-- Asking again changes nothing. -/
theorem cmGetOutput_again (env : Option CString) (envChecked : Bool) (output : BitVec 32) :
    cmGetOutput env (cmGetOutput env envChecked output).2.1 (cmGetOutput env envChecked output).2.2 =
      cmGetOutput env envChecked output := by
  cases envChecked with
  | true => rfl
  | false =>
      cases env with
      | none => rfl
      | some env =>
          by_cases hlen : env.length = 0 ∨ env.length > 32
          · simp only [cmGetOutput, Bool.false_eq_true, if_false, if_pos hlen]
          · simp only [cmGetOutput, Bool.false_eq_true, if_false, if_neg hlen, if_true]

/-- The answer stays the same after it was given. -/
theorem asked_output (s : Globals) : s.asked.output = s.output :=
  congrArg Prod.fst (cmGetOutput_again _ _ _)

/-- The second question finds everything remembered. -/
theorem asked_asked (s : Globals) : s.asked.asked = s.asked := by
  have h := cmGetOutput_again s.platform.cmockaMessageOutput s.envChecked s.globalMsgOutput
  have he := congrArg (fun answer => answer.2.1) h
  have ho := congrArg (fun answer => answer.2.2) h
  simp only [Globals.asked, he, ho]

/-! ### What `_fail` prints -/

/-- The texts of `_fail`. -/
def failureTexts (output : BitVec 32) (file : CString) (line : Int) : List CString :=
  (if hasOutput output cmOutputStandard then
    ["[   LINE   ] --- ".toList ++ fmtFileLine file line ++ ": error: Failure!".toList] else []) ++
  if hasOutput output cmOutputSubunit || hasOutput output cmOutputTap ||
      hasOutput output cmOutputXml then [fmtFileLine file line ++ ": error: Failure!".toList] else []

/-- The state after texts were printed. -/
def Globals.printed (s : Globals) (texts : List CString) : Globals :=
  { s with cmErrorMessage := texts.foldl vcmockaPrintError s.cmErrorMessage }

/-- Texts are printed one after the other. -/
theorem printed_append (s : Globals) (texts texts' : List CString) :
    (s.printed texts).printed texts' = s.printed (texts ++ texts') := by
  simp only [Globals.printed, List.foldl_append]

/-- Printing and asking do not meet. -/
theorem printed_asked (s : Globals) (texts : List CString) :
    (s.printed texts).asked = s.asked.printed texts := rfl

theorem printed_output (s : Globals) (texts : List CString) :
    (s.printed texts).output = s.output := rfl

/-- What was printed does not decide where `exit_test` goes. -/
theorem printed_exitOf (s : Globals) (texts : List CString) (reason : Reason) :
    (s.printed texts).exitOf reason = s.exitOf reason := rfl

theorem asked_exitOf (s : Globals) (reason : Reason) :
    s.asked.exitOf reason = s.exitOf reason := rfl

/-- **`_fail`** prints where it was called, in each of the formats, and leaves. -/
theorem fail_apply {β : Type} (file : CString) (line : Int) (s : Globals) :
    (fail file line : CM β) s =
      .error (s.exitOf .fail) (s.asked.printed (failureTexts s.output file line)) := by
  rw [fail, bind_of_ok (getOutput_apply s), failureTexts]
  dsimp only
  split <;> split <;> exact exitTest_bind _ _ _

/-! ### Calls that keep the formats -/

/-- The formats and the platform are the same. -/
structure SameFormat (s s' : Globals) : Prop where
  platform : s'.platform = s.platform
  output : s'.output = s.output

instance : IsPreorder Globals SameFormat where
  refl _ := ⟨rfl, rfl⟩
  trans _ _ _ h h' := ⟨h'.platform.trans h.platform, h'.output.trans h.output⟩

/-- However `x` ends, the formats are the same. -/
def Steady {α : Type} (x : CM α) : Prop := ∀ s, SameFormat s (final (x s))

/-! ### Rules -/

section Rules

variable {α β : Type} {x : CM α} {f : α → CM β} {s s' : Globals}

theorem Steady.pure (a : α) : Steady (pure a : CM α) := fun s => refl_of SameFormat s

theorem Steady.throw (e : Exit) : Steady (throw e : CM α) := fun s => refl_of SameFormat s

/-- The second part starts in the formats the first one leaves. -/
theorem Steady.bind (hx : Steady x) (hf : ∀ a, Steady (f a)) : Steady (x >>= f) := by
  intro s
  have h := hx s
  rw [bind_apply]
  cases hs : x s with
  | ok a s₁ =>
      rw [hs] at h
      exact trans_of SameFormat h (hf a s₁)
  | error e s₁ =>
      rw [hs] at h
      exact h

theorem Steady.ite {c : Prop} [Decidable c] {y : CM α} (hx : Steady x) (hy : Steady y) :
    Steady (if c then x else y) := by
  split
  · exact hx
  · exact hy

/-- A computation that reads the state. -/
theorem Steady.read {f : Globals → CM α} (h : ∀ s, Steady (f s)) : Steady (get >>= f) :=
  fun s => h s s

/-- A computation that reads the state it goes on from. -/
theorem Steady.get {f : Globals → CM α} (h : ∀ s, SameFormat s (final (f s s))) :
    Steady (get >>= f) := h

/-- A computation that goes on from a state it stores. -/
theorem SameFormat.set {f : PUnit → CM α} (h : SameFormat s s') (hf : Steady (f ⟨⟩)) :
    SameFormat s (final ((set s' >>= f) s)) :=
  trans_of SameFormat h (hf s')

end Rules

/-! ### Calls that leave the memory alone -/

/-- The formats, the memory of the allocator and the cell behind `state` are the same. -/
structure SameMemory (s s' : Globals) : Prop extends SameFormat s s' where
  heap : s'.globalAllocatedBlocks = s.globalAllocatedBlocks
  state : s'.stateCell = s.stateCell

instance : IsPreorder Globals SameMemory where
  refl s := ⟨refl_of SameFormat s, rfl, rfl⟩
  trans _ _ _ h h' :=
    ⟨trans_of SameFormat h.toSameFormat h'.toSameFormat, h'.heap.trans h.heap,
      h'.state.trans h.state⟩

/-- An exit that the language defines. -/
def Defined (_ : Globals) (e : Exit) : Prop := e ≠ .undefined

/-- However `x` ends, the memory is the same, and the end is defined. -/
abbrev Apart {α : Type} (x : CM α) : Prop := Keeps SameMemory Defined x

section Apart

variable {α β : Type} {x : CM α} {f : α → CM β}

/-- What leaves the memory alone keeps the formats. -/
theorem Apart.steady (h : Apart x) : Steady x := fun s => (h.final s).toSameFormat

/-- An assignment to something else. -/
theorem apart_modify {g : Globals → Globals} (h : ∀ s, SameMemory s (g s)) :
    Apart (modify g : CM PUnit) := Keeps.modify h

/-- A sequence is apart if both its parts are. -/
theorem Apart.bind (hx : Apart x) (hf : ∀ a, Apart (f a)) : Apart (x >>= f) :=
  Keeps.bind hx (fun _ _ _ _ h => h) hf

/-- A computation that goes on from a state it stores. -/
theorem SameMemory.set {s s' : Globals} {f : PUnit → CM α} (h : SameMemory s s')
    (hf : Apart (f ⟨⟩)) : Leaves SameMemory Defined s ((set s' >>= f) s) :=
  Leaves.set h (fun _ he => he) hf

/-- `exit_test` is never undefined behaviour. -/
theorem exitOf_defined (s : Globals) (reason : Reason) : s.exitOf reason ≠ .undefined := by
  rw [Globals.exitOf]
  split
  · exact Exit.noConfusion
  · split <;> exact Exit.noConfusion

/-! ### Printing and leaving -/

/-- Records are kept beside the memory. -/
theorem apart_record (events : List Event) : Apart (record events) :=
  .modify fun _ => ⟨⟨rfl, rfl⟩, rfl, rfl⟩

/-- The message is not in the tracked memory. -/
theorem apart_print (text : CString) : Apart (cmockaPrintError text) :=
  .modify fun _ => ⟨⟨rfl, rfl⟩, rfl, rfl⟩

theorem apart_printAll (texts : List CString) : Apart (printAll texts) :=
  .modify fun _ => ⟨⟨rfl, rfl⟩, rfl, rfl⟩

theorem apart_freeAll (ptrs : List Addr) : Apart (freeAll ptrs) := apart_record _

/-- Asking for the formats keeps them. -/
theorem apart_getOutput : Apart getOutput :=
  .of_leaves fun s => ⟨⟨⟨rfl, asked_output s⟩, rfl, rfl⟩, fun _ _ h => by cases h⟩

/-- `exit_test` changes nothing. -/
theorem apart_exitTest (reason : Reason) : Apart (exitTest reason true) := by
  refine .of_leaves fun s => ?_
  rw [exitTest_apply]
  refine ⟨refl_of SameMemory s, fun e s' h => ?_⟩
  cases h
  exact exitOf_defined s reason

/-- `exit_test(1)` does not return. -/
theorem exitTest_ne_ok (reason : Reason) (s : Globals) (u : Unit) (s' : Globals) :
    exitTest reason true s ≠ .ok u s' := by
  rw [exitTest_apply]
  intro h
  cases h

/-- What stands behind `exit_test(1)` does not matter. -/
theorem apart_exit (reason : Reason) (f : Unit → CM α) : Apart (exitTest reason true >>= f) :=
  (apart_exitTest reason).leave (exitTest_ne_ok reason) f

/-- `_fail` asks, prints and leaves. -/
theorem apart_fail (file : CString) (line : Int) : Apart (fail file line : CM α) := by
  have second : ∀ output : BitVec 32, Apart (do
      if hasOutput output cmOutputSubunit || hasOutput output cmOutputTap ||
          hasOutput output cmOutputXml then
        cmockaPrintError (fmtFileLine file line ++ ": error: Failure!".toList)
      exitTest .fail true
      throw .exitFailure : CM α) := fun _ =>
    Keeps.ite ((apart_print _).bind fun _ => apart_exit _ _) (apart_exit _ _)
  exact apart_getOutput.bind fun output =>
    Keeps.ite ((apart_print _).bind fun _ => second output) (second output)

/-- The internal assertions print, or do nothing. -/
theorem apart_assertTrue (result : Bool) (expression : CString) (line : Int) :
    Apart (assertTrue result expression line) :=
  Keeps.ite (.pure _) ((apart_print _).bind fun _ => apart_fail _ _)

/-- A failed assertion of the library is followed by nothing. -/
theorem apart_assertFalse (expression : CString) (line : Int) (f : Unit → CM α) :
    Apart (assertTrue false expression line >>= f) := by
  refine (apart_assertTrue _ _ _).leave (fun s u s' h => ?_) f
  obtain ⟨_, s₁, -, h⟩ := bind_eq_ok.mp h
  exact fail_ne_ok _ _ _ _ _ h

/-! ### The expectation structures -/

/-- The nodes of the expectation structures are not in the tracked memory. -/
theorem apart_allocPtr : Apart allocPtr :=
  .of_leaves fun _ => ⟨⟨⟨rfl, rfl⟩, rfl, rfl⟩, fun _ _ h => by cases h⟩

/-- `_will_return` adds to the results. -/
theorem apart_willReturn (functionName file : CString) (line : Int) (name : Option CString)
    (value : CMockaValueData) (count : Int) :
    Apart (willReturn functionName file line name value count) := by
  refine apart_allocPtr.bind fun _ => (apart_assertTrue _ _ _).bind fun _ =>
    (apart_modify fun s => ?_).bind fun _ => apart_record _
  exact ⟨⟨rfl, rfl⟩, rfl, rfl⟩

/-- `_mock` takes from the results, or fails. -/
theorem apart_mock (function file : CString) (line : Int) (name : Option CString) :
    Apart (mock function file line name) := by
  refine .of_leaves fun s => ?_
  rw [mock, bind_of_ok (get_apply s)]
  cases getSymbolValue [function] s.globalFunctionResultMap with
  | none => exact (apart_assertFalse _ _ _).leaves s
  | some r =>
    refine SameMemory.set ⟨⟨rfl, rfl⟩, rfl, rfl⟩ ((apart_printAll _).bind fun _ => ?_)
    split
    · have rest : ∀ symbol : SymbolValue, Apart (do
          record [.mocked symbol.ptr]
          return symbol.value) := fun _ => (apart_record _).bind fun _ => .pure _
      refine Keeps.ite ?_ (Keeps.ite ?_ ?_)
      · exact (apart_printAll _).bind fun _ => apart_exit _ _
      · refine (apart_modify fun s => ?_).bind fun _ =>
          Keeps.ite ((apart_freeAll _).bind fun _ => rest _) (rest _)
        exact ⟨⟨rfl, rfl⟩, rfl, rfl⟩
      · exact (apart_printAll _).bind fun _ => (apart_freeAll _).bind fun _ => apart_exit _ _
    · exact (apart_printAll _).bind fun _ => apart_exit _ _

/-- `_expect_check` adds to the parameters. -/
theorem apart_expectCheck (function parameter file : CString) (line : Int)
    (checkFunction : CheckParameterValue) (checkData : CMockaValueData) (count : Int) :
    Apart (expectCheck function parameter file line checkFunction checkData count) :=
  .of_leaves fun _ => ⟨⟨⟨rfl, rfl⟩, rfl, rfl⟩, fun _ _ h => by cases h⟩

/-- A check function prints and answers; that is all it is modelled to do. -/
theorem apart_call (check : CheckParameterEvent) (value : CMockaValueData) :
    Apart (check.call value) :=
  (apart_record _).bind fun _ => (apart_printAll _).bind fun _ => .pure _

/-- `_check_expected` takes from the parameters, or fails. -/
theorem apart_checkExpected (functionName parameterName file : CString) (line : Int)
    (value : CMockaValueData) :
    Apart (checkExpected functionName parameterName file line value) := by
  refine .of_leaves fun s => ?_
  rw [checkExpected, bind_of_ok (get_apply s)]
  cases getSymbolValue [functionName, parameterName] s.globalFunctionParameterMap with
  | none => exact (apart_assertFalse _ _ _).leaves s
  | some r =>
    refine SameMemory.set ⟨⟨rfl, rfl⟩, rfl, rfl⟩ ((apart_printAll _).bind fun _ => ?_)
    split
    · refine Keeps.ite ((apart_printAll _).bind fun _ => apart_exitTest _)
        ((apart_modify fun s => ?_).bind fun _ => (apart_call _ _).bind fun outcome => ?_)
      · exact ⟨⟨rfl, rfl⟩, rfl, rfl⟩
      · cases outcome with
        | failed file line => exact apart_fail _ _
        | returned succeeded =>
          have rest : ∀ (succeeded : Bool) (check : CheckParameterEvent), Apart (do
              if succeeded then record [.checked check.ptr]
              else do
                cmockaPrintError (checkFailedReport functionName parameterName file line
                  check.location)
                fail file line : CM Unit) := fun _ _ =>
            Keeps.ite (apart_record _) ((apart_print _).bind fun _ => apart_fail _ _)
          exact Keeps.ite ((apart_freeAll _).bind fun _ => rest _ _) (rest _ _)
    · exact (apart_printAll _).bind fun _ => apart_exitTest _

/-- `_expect_function_call` adds to the calls. -/
theorem apart_expectFunctionCall (functionName file : CString) (line : Int) (count : Int) :
    Apart (expectFunctionCall functionName file line count) := by
  refine (apart_assertTrue _ _ _).bind fun _ => apart_allocPtr.bind fun _ =>
    (apart_modify fun s => ?_).bind fun _ => apart_record _
  exact ⟨⟨rfl, rfl⟩, rfl, rfl⟩

/-- `_function_called` takes from the calls, or fails. -/
theorem apart_functionCalled (function file : CString) (line : Int) :
    Apart (functionCalled function file line) := by
  refine .of_leaves fun s => ?_
  rw [functionCalled, bind_of_ok (get_apply s)]
  split
  · exact ((apart_print _).bind fun _ => apart_exitTest _).leaves s
  · cases scanCalls function s.globalCallOrdering with
    | none => exact ((apart_print _).bind fun _ => apart_exit _ _).leaves s
    | some found =>
        obtain ⟨before, ⟨expected, refcount⟩, after⟩ := found
        have rest : Apart (record [.called expected.ptr]) := apart_record _
        dsimp only
        split
        · split
          · split
            · exact SameMemory.set ⟨⟨rfl, rfl⟩, rfl, rfl⟩ ((apart_freeAll _).bind fun _ => rest)
            · exact SameMemory.set ⟨⟨rfl, rfl⟩, rfl, rfl⟩ rest
          · exact rest.leaves s
        · exact ((apart_print _).bind fun _ => apart_exitTest _).leaves s

/-- The search for leftover values prints and releases. -/
theorem apart_leftover : Apart hasLeftoverValues :=
  .of_leaves fun _ => ⟨⟨⟨rfl, rfl⟩, rfl, rfl⟩, fun _ _ h => by cases h⟩

/-- The search, and an exit if it found something. -/
theorem apart_failIfLeftoverValues : Apart failIfLeftoverValues :=
  apart_leftover.bind fun _ => Keeps.ite (apart_exitTest _) (.pure _)

/-! ### Endings -/

/-- A callback ends apart from the memory, however it ends. -/
theorem apart_ending (ending : ScriptEnd) : Apart ending.exec := by
  cases ending with
  | ret code => exact .pure _
  | fail file line => exact apart_fail _ _
  | skip file line =>
      refine ((apart_print _).bind fun _ => (apart_modify fun s => ?_).bind fun _ =>
        apart_exit _ _).bind fun _ => .pure _
      exact ⟨⟨rfl, rfl⟩, rfl, rfl⟩
  | stop =>
      refine ((apart_modify fun s => ?_).bind fun _ => apart_exit _ _).bind fun _ => .pure _
      exact ⟨⟨rfl, rfl⟩, rfl, rfl⟩
  | exception sig description => exact (apart_print _).bind fun _ => apart_exit _ _

end Apart

/-! ### The tracked allocator -/

theorem steady_modifyHeap (f : Globals → Heap) :
    Steady (modify fun s => { s with globalAllocatedBlocks := f s }) := fun _ => ⟨rfl, rfl⟩

/-- An operation on the list of blocks. -/
theorem steady_heapOp (f : Heap → Option Heap) : Steady (heapOp f) := by
  refine Steady.get fun s => ?_
  cases f s.globalAllocatedBlocks with
  | none => exact refl_of SameFormat s
  | some heap => exact ⟨rfl, rfl⟩

theorem steady_assertNonNull {β : Type} (ptr : Option β) (line : Int) :
    Steady (assertNonNull ptr line) := by
  cases ptr with
  | some p => exact .pure p
  | none => exact ((apart_print _).bind fun _ => apart_fail _ _).steady

/-- `_test_malloc`, with the assertions it makes. -/
theorem steady_testMalloc (size : Nat) (file : CString) (line : Int) (libc : Option Addr) :
    Steady (testMalloc size file line libc) :=
  (steady_modifyHeap _).bind fun _ => Steady.read fun _ =>
    (apart_assertTrue _ _ _).steady.bind fun _ => (steady_assertNonNull _ _).bind fun _ =>
      (steady_heapOp _).bind fun _ => .pure _

theorem steady_testCalloc (numberOfElements size : Nat) (file : CString) (line : Int)
    (libc : Option Addr) : Steady (testCalloc numberOfElements size file line libc) :=
  Steady.read fun _ => Steady.ite ((steady_modifyHeap _).bind fun _ => .pure _) <|
    (steady_testMalloc _ _ _ _).bind fun _ => (steady_modifyHeap _).bind fun _ => .pure _

/-- `_test_free`, also if it fails on a guard. -/
theorem steady_testFree (ptr : Addr) (file : CString) (line : Int) :
    Steady (testFree ptr file line) := by
  refine Steady.ite (.pure _) (Steady.read fun s => ?_)
  dsimp only
  split
  · exact .throw _
  · split
    · exact (apart_print _).steady.bind fun _ => (apart_fail _ _).steady
    · exact steady_heapOp _

/-- `_test_realloc` allocates, copies and frees. -/
theorem steady_testRealloc (ptr : Addr) (size : Nat) (file : CString) (line : Int)
    (libc : Option Addr) : Steady (testRealloc ptr size file line libc) := by
  refine Steady.ite (steady_testMalloc _ _ _ _) <|
    Steady.ite ((steady_testFree _ _ _).bind fun _ => .pure _) <|
      (steady_testMalloc _ _ _ _).bind fun newBlock => Steady.get fun s => ?_
  cases s.globalAllocatedBlocks.info (s.platform.headerOf ptr) with
  | none => exact refl_of SameFormat s
  | some data => exact SameFormat.set ⟨rfl, rfl⟩ ((steady_testFree _ _ _).bind fun _ => .pure _)

theorem steady_checkPoint : Steady checkPointAllocatedBlocks := by
  refine (steady_modifyHeap _).bind fun _ => Steady.read fun s => ?_
  split
  · exact .pure _
  · exact .throw _

/-- The walk that prints the blocks. -/
theorem steady_displayLoop (bound : Nat) (node : BlockNode) (allocatedBlocks : Nat) :
    Steady (displayLoop bound node allocatedBlocks) := by
  induction bound generalizing node allocatedBlocks with
  | zero => exact .throw _
  | succ bound ih =>
      refine Steady.ite (.pure _) (Steady.read fun s => ?_)
      split
      · exact .throw _
      · split
        · exact .throw _
        · have rest : ∀ data next, Steady (do
              cmockaPrintError (blockNote data)
              displayLoop bound next (allocatedBlocks + 1)) := fun _ next =>
            (apart_print _).steady.bind fun _ => ih next _
          exact Steady.ite ((apart_print _).steady.bind fun _ => rest _ _) (rest _ _)

/-- The walk that frees them. -/
theorem steady_freeLoop (bound : Nat) (node : BlockNode) : Steady (freeLoop bound node) := by
  induction bound generalizing node with
  | zero => exact .throw _
  | succ bound ih =>
      refine Steady.ite (.pure _) (Steady.read fun s => ?_)
      split
      · exact .throw _
      · exact (steady_testFree _ _ _).bind fun _ => ih _

/-- Both walks, and an exit if there were blocks. -/
theorem steady_failIfBlocksAllocated (checkPoint : BlockNode) (testName : CString) :
    Steady (failIfBlocksAllocated checkPoint testName) := by
  refine Steady.bind ((steady_modifyHeap _).bind fun _ => Steady.read fun s => ?_) fun _ =>
    Steady.ite (Steady.bind (Steady.read fun s => ?_) fun _ => (apart_print _).steady.bind fun _ =>
      (apart_exitTest _).steady) (.pure _)
  · split
    · exact .throw _
    · exact steady_displayLoop _ _ _
  · split
    · exact .throw _
    · exact steady_freeLoop _ _

/-! ### Callbacks -/

/-- Every call a callback makes. -/
theorem steady_op (op : Op) : Steady op.exec := by
  cases op with
  | willReturn f file line name value count => exact (apart_willReturn _ _ _ _ _ _).steady
  | mock f file line name => exact ((apart_mock _ _ _ _).bind fun _ => .pure _).steady
  | expectCheck f p file line check data count => exact (apart_expectCheck _ _ _ _ _ _ _).steady
  | checkExpected f p file line value => exact (apart_checkExpected _ _ _ _ _).steady
  | expectFunctionCall f file line count => exact (apart_expectFunctionCall _ _ _ _).steady
  | functionCalled f file line => exact (apart_functionCalled _ _ _).steady
  | testMalloc size file line libc => exact (steady_testMalloc _ _ _ _).bind fun _ => .pure _
  | testCalloc n size file line libc => exact (steady_testCalloc _ _ _ _ _).bind fun _ => .pure _
  | testRealloc ptr size file line libc => exact (steady_testRealloc _ _ _ _ _).bind fun _ => .pure _
  | testFree ptr file line => exact steady_testFree _ _ _
  | storeByte ptr byte => exact steady_modifyHeap _
  | storeState state => exact fun _ => ⟨rfl, rfl⟩
  | printError text => exact (apart_print text).steady

/-- The calls of a callback, by induction on them. -/
theorem steady_execOps (ops : List Op) : Steady (execOps ops) := by
  induction ops with
  | nil => exact .pure _
  | cons op ops ih => exact (steady_op op).bind fun _ => ih

theorem steady_callUser (f : UserFn) : Steady (callUser f) :=
  Steady.read fun _ => (apart_record _).steady.bind fun _ =>
    (steady_execOps _).bind fun _ => (apart_ending _).steady

/-! ### The runner -/

/-- Control comes back in the formats in which it left. -/
theorem steady_setjmp {β : Type} {body : CM β} {jumped : Reason → CM β} (hb : Steady body)
    (hj : ∀ reason, Steady (jumped reason)) : Steady (setjmp body jumped) := by
  intro s
  have h := hb s
  rw [setjmp]
  cases hs : body s with
  | ok b s₁ =>
      rw [hs] at h
      exact h
  | error e s₁ =>
      rw [hs] at h
      cases e with
      | longjmp reason => exact trans_of SameFormat h (hj reason s₁)
      | abort => exact h
      | exitFailure => exact h
      | undefined => exact h

/-- The branch before a jump. -/
theorem steady_runUnderSetjmp (functionName : CString)
    (testFunc setupFunc teardownFunc : Option UserFn) (checkPoint : BlockNode) :
    Steady (runUnderSetjmp functionName testFunc setupFunc teardownFunc checkPoint) := by
  have rest : ∀ rc : Int, Steady (do
      failIfLeftoverValues
      modify fun s => { s with globalRunningTest := false }
      return (rc, Ending.returned rc)) := by
    refine fun rc => apart_failIfLeftoverValues.steady.bind fun _ => Steady.bind ?_ fun _ => .pure _
    exact fun _ => ⟨rfl, rfl⟩
  have called : ∀ (f : UserFn) (rc : Int → Int), Steady (do
      let code ← callUser f
      failIfBlocksAllocated checkPoint functionName
      failIfLeftoverValues
      modify fun s => { s with globalRunningTest := false }
      return (rc code, Ending.returned (rc code))) := fun _ rc =>
    (steady_callUser _).bind fun code =>
      (steady_failIfBlocksAllocated _ _).bind fun _ => rest (rc code)
  cases testFunc with
  | some f => exact called f fun _ => 0
  | none =>
      cases setupFunc with
      | some f => exact (steady_callUser f).bind fun code => rest code
      | none =>
          cases teardownFunc with
          | some f => exact called f fun code => code
          | none => exact rest 0

/-- The branch after one. -/
theorem steady_runAfterLongjmp (reason : Reason) : Steady (runAfterLongjmp reason) := by
  refine Steady.bind (x := modify _) ?_ fun _ => Steady.read fun s => Steady.ite ?_ (.pure _)
  · exact fun _ => ⟨rfl, rfl⟩
  · refine apart_leftover.steady.bind fun _ => Steady.bind ?_ fun _ => .pure _
    exact fun _ => ⟨rfl, rfl⟩

theorem steady_initializeTesting : Steady initializeTesting := fun _ => ⟨rfl, rfl⟩

theorem steady_teardownTesting : Steady teardownTesting := fun _ => ⟨rfl, rfl⟩

/-- **A callback**, from the check point to `teardown_testing`. -/
theorem steady_runOne (functionName : CString) (testFunc setupFunc teardownFunc : Option UserFn)
    (state : Addr) (heapCheckPoint : Option BlockNode) :
    Steady (cmockaRunOneTestOrFixture functionName testFunc setupFunc teardownFunc state
      heapCheckPoint) := by
  have from_checkPoint : ∀ checkPoint, Steady
      (runFrom functionName testFunc setupFunc teardownFunc state checkPoint) := by
    refine fun checkPoint => steady_initializeTesting.bind fun _ => Steady.bind ?_ fun _ =>
      (steady_setjmp (steady_runUnderSetjmp _ _ _ _ _) steady_runAfterLongjmp).bind fun _ =>
        steady_teardownTesting.bind fun _ => Steady.read fun _ =>
          (apart_record _).steady.bind fun _ => .pure _
    exact fun _ => ⟨rfl, rfl⟩
  rw [runOne_eq]
  cases heapCheckPoint with
  | some checkPoint => exact from_checkPoint checkPoint
  | none => exact steady_checkPoint.bind from_checkPoint

theorem steady_groupFixture (functionName : CString) (setupFunc teardownFunc : Option UserFn)
    (state : Addr) (heapCheckPoint : Option BlockNode) :
    Steady (cmockaRunGroupFixture functionName setupFunc teardownFunc state heapCheckPoint) := by
  cases setupFunc with
  | some setup => exact steady_runOne _ _ _ _ _ _
  | none => exact steady_runOne _ _ _ _ _ _

/-- **A test** with its fixtures. -/
theorem steady_runOneTests (ts : CMUnitTestState) : Steady (cmockaRunOneTests ts) := by
  have finish : ∀ (ts : CMUnitTestState) (setup test teardown : Option Invocation),
      Steady (finishTest ts setup test teardown) := fun _ _ _ _ _ => ⟨rfl, rfl⟩
  have setup : Steady (runTestSetup ts) := by
    rw [runTestSetup]
    split
    · exact .pure _
    · exact steady_checkPoint.bind fun _ => (steady_runOne _ _ _ _ _ _).bind fun _ =>
        Steady.ite ((apart_print _).steady.bind fun _ => .pure _) (.pure _)
  have body : ∀ ts, Steady (runTestBody ts) := by
    refine fun ts => (steady_runOne _ _ _ _ _ _).bind fun _ => Steady.ite (.pure _) ?_
    refine Steady.get fun s => ?_
    dsimp only
    split
    · exact SameFormat.set ⟨rfl, rfl⟩ (.pure _)
    · exact refl_of SameFormat s
  have teardown : ∀ ts, Steady (runTestTeardown ts) := by
    intro ts
    rw [runTestTeardown]
    split
    · exact .pure _
    · exact (steady_runOne _ _ _ _ _ _).bind fun _ =>
        Steady.ite ((apart_print _).steady.bind fun _ => .pure _) (.pure _)
  exact setup.bind fun _ => Steady.ite
    ((body _).bind fun _ => (teardown _).bind fun _ => (finish _ _ _ _).bind fun _ => .pure _)
    ((finish _ _ _ _).bind fun _ => .pure _)

/-- The report on a test is made and counted. -/
theorem steady_countTest (testNumber : Nat) (rc : Int) (ts : CMUnitTestState) (totals : Totals) :
    Steady (countTest testNumber rc ts totals) := by
  refine Steady.ite ?_ ((apart_record _).steady.bind fun _ => .pure _)
  split
  all_goals exact (apart_record _).steady.bind fun _ => .pure _

/-- The loop over the tests, by induction on them. -/
theorem steady_runTests (groupState : Addr) (tests : List CMUnitTest) (testNumber : Nat)
    (totals : Totals) : Steady (runTests groupState tests testNumber totals) := by
  induction tests generalizing testNumber totals with
  | nil => exact .pure _
  | cons t rest ih =>
      exact (apart_record _).steady.bind fun _ => (steady_runOneTests _).bind fun _ =>
        (steady_countTest _ _ _ _).bind fun _ => (ih _ _).bind fun _ => .pure _

/-- The report on a fixture of the group. -/
theorem steady_reportGroupFixture (groupName text : CString) :
    Steady (reportGroupFixture groupName text) := by
  refine Steady.get fun s => ?_
  cases s.cmErrorMessage with
  | none => exact (apart_record _).steady s
  | some message =>
      exact SameFormat.set ⟨rfl, rfl⟩ ((apart_record _).steady.bind fun _ => (apart_record _).steady)

theorem steady_runGroupSetup (groupSetup : Option UserFn) (groupCheckPoint : BlockNode) :
    Steady (runGroupSetup groupSetup groupCheckPoint) := by
  cases groupSetup with
  | none => exact .pure _
  | some f => exact (steady_groupFixture _ _ _ _ _).bind fun _ => .pure _

theorem steady_runGroupTeardown (groupName : CString) (groupTeardown : Option UserFn)
    (groupState : Addr) (groupCheckPoint : BlockNode) :
    Steady (runGroupTeardown groupName groupTeardown groupState groupCheckPoint) := by
  cases groupTeardown with
  | none => exact .pure _
  | some f =>
      exact (steady_groupFixture _ _ _ _ _).bind fun _ =>
        Steady.ite (steady_reportGroupFixture _ _) (.pure _)

/-- **A group**, however its callbacks end. -/
theorem steady_runGroup (groupName : CString) (tests : List CMUnitTest)
    (groupSetup groupTeardown : Option UserFn) (allocated : Bool) :
    Steady (cmockaRunGroupTests groupName tests groupSetup groupTeardown allocated) := by
  refine steady_checkPoint.bind fun _ => Steady.ite (.pure _) (Steady.read fun _ =>
    (apart_record _).steady.bind fun _ => (steady_runGroupSetup _ _).bind fun _ => ?_)
  have rest : ∀ (groupState : Addr) (totals : Totals) (done : List CMUnitTestState) checkPoint,
      Steady (do
        runGroupTeardown groupName groupTeardown groupState checkPoint
        record [.groupFinish groupName totals.executed totals.passed totals.failed totals.errors
          totals.skipped (done.map fun ts => (ts.test.nameText, ts.status, ts.errorMessage))]
        failIfBlocksAllocated checkPoint "cmocka_group_tests".toList
        return toCInt (totals.failed + totals.errors)) := fun _ _ _ _ =>
    (steady_runGroupTeardown _ _ _ _).bind fun _ => (apart_record _).steady.bind fun _ =>
      (steady_failIfBlocksAllocated _ _).bind fun _ => .pure _
  exact Steady.ite ((steady_runTests _ _ _ _).bind fun _ => rest _ _ _ _)
    ((steady_reportGroupFixture _ _).bind fun _ => rest _ _ _ _)

/-- **The formats of a process.**  They are the same in every state of every run, however it ends. -/
theorem steady_runGroups (groups : List Group) : Steady (runGroups groups) := by
  induction groups with
  | nil => exact .pure _
  | cons g rest ih =>
      refine Steady.bind (Steady.bind (x := modify _) ?_ fun _ => steady_runGroup _ _ _ _ _)
        fun _ => ih.bind fun _ => .pure _
      exact fun _ => ⟨rfl, rfl⟩

end Cmocka
