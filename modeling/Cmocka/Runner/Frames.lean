import Cmocka.Support.Runs
import Cmocka.Model.Runner

/-!
# Runner — what a call leaves alone

Most of the library only prints, or moves blocks of the tracked allocator: `Inert` relates states
that differ in nothing else.  A call a callback makes may also change the expectation structures
and store to `*state`, but it leaves the flags of the runner alone and adds nothing but events of
the expectation structures to the trace (`Quiet`).

A call exits in two ways only, `exit_test` on a failure or undefined behaviour (`Fails`); where
`exit_test` goes is decided by the flags (`Globals.exitOf`).
-/

namespace Cmocka

open Runs

/-! ### Leaving a test -/

/-- Where `exit_test(1)` goes. -/
def Globals.exitOf (s : Globals) (reason : Reason) : Exit :=
  if !s.globalSkipTest && s.platform.abortTest then .abort
  else if s.globalRunningTest then .longjmp reason
  else .exitFailure

/-- `exit_test(1)` leaves the state alone and goes where the flags say. -/
@[simp] theorem exitTest_apply (reason : Reason) (s : Globals) :
    exitTest reason true s = .error (s.exitOf reason) s := by
  simp only [exitTest, bind_apply, get_apply, Globals.exitOf]
  split
  · rfl
  · split <;> rfl

/-- While a callback runs, `exit_test` jumps back to the runner or aborts. -/
theorem exitOf_running {s : Globals} (h : s.globalRunningTest = true) (reason : Reason) :
    s.exitOf reason = .abort ∨ s.exitOf reason = .longjmp reason := by
  unfold Globals.exitOf
  rw [h]
  split
  · exact .inl rfl
  · exact .inr rfl

/-- The exits of a call. -/
def Fails (s : Globals) (e : Exit) : Prop := e = s.exitOf .fail ∨ e = .undefined

/-! ### States that differ in what is printed and allocated -/

/-- Nothing but the message, the selected output and the memory of the allocator differs. -/
def Inert (s s' : Globals) : Prop :=
  ∃ cmErrorMessage envChecked globalMsgOutput globalAllocatedBlocks,
    s' = { s with cmErrorMessage, envChecked, globalMsgOutput, globalAllocatedBlocks }

instance : IsPreorder Globals Inert where
  refl s := ⟨_, _, _, _, rfl⟩
  trans := by
    rintro s s₁ s₂ ⟨m, e, o, h, rfl⟩ ⟨m', e', o', h', rfl⟩
    exact ⟨m', e', o', h', rfl⟩

/-- A state that is known by its four differences. -/
theorem Inert.of_eq {s s' : Globals}
    (h : s' = { s with
      cmErrorMessage := s'.cmErrorMessage, envChecked := s'.envChecked
      globalMsgOutput := s'.globalMsgOutput
      globalAllocatedBlocks := s'.globalAllocatedBlocks }) : Inert s s' := ⟨_, _, _, _, h⟩

namespace Inert

variable {s s' : Globals}

theorem trace_eq (h : Inert s s') : s'.trace = s.trace := by
  obtain ⟨_, _, _, _, rfl⟩ := h
  rfl

theorem stateCell_eq (h : Inert s s') : s'.stateCell = s.stateCell := by
  obtain ⟨_, _, _, _, rfl⟩ := h
  rfl

end Inert

/-- The exits allowed behind an inert step were allowed before it. -/
theorem Inert.fails {s s₁ : Globals} {e : Exit} (h : Inert s s₁) (he : Fails s₁ e) : Fails s e := by
  obtain ⟨_, _, _, _, rfl⟩ := h
  exact he

/-- A computation that prints, allocates and fails. -/
abbrev Prints {α : Type} (x : CM α) : Prop := Keeps Inert Fails x

namespace Prints

/-- What is allowed after the first part was allowed before it. -/
theorem bind {α β : Type} {x : CM α} {f : α → CM β} (hx : Prints x) (hf : ∀ a, Prints (f a)) :
    Prints (x >>= f) := Keeps.bind hx (fun _ _ _ => Inert.fails) hf

theorem pure {α : Type} (a : α) : Prints (pure a : CM α) := Keeps.pure a

theorem undefined {α : Type} : Prints (throw .undefined : CM α) := Keeps.throw fun _ => .inr rfl

theorem get : Prints (get : CM Globals) where
  ok := by
    intro s s' a h
    cases h
    exact refl_of Inert _
  error := by
    intro s s' e h
    cases h

end Prints

theorem prints_cmockaPrintError (text : CString) : Prints (cmockaPrintError text) :=
  Keeps.modify fun _ => ⟨_, _, _, _, rfl⟩

theorem prints_getOutput : Prints getOutput where
  ok := by
    intro s s' a h
    cases h
    exact ⟨_, _, _, _, rfl⟩
  error := by
    intro s s' e h
    cases h

theorem prints_exitTest : Prints (exitTest .fail true) where
  ok := by
    intro s s' a h
    simp at h
  error := by
    intro s s' e h
    rw [exitTest_apply] at h
    cases h
    exact ⟨refl_of Inert _, .inl rfl⟩

/-- `exit_test(1)` does not return. -/
theorem exitTest_bind {α : Type} (reason : Reason) (f : Unit → CM α) (s : Globals) :
    (exitTest reason true >>= f) s = .error (s.exitOf reason) s :=
  bind_of_error (exitTest_apply reason s) f

/-- A sequence whose second part does not return: the exits are those of both parts. -/
theorem prints_exitTest_bind {α : Type} (f : Unit → CM α) :
    Prints (exitTest .fail true >>= f) where
  ok := by
    intro s s' a h
    rw [exitTest_bind] at h
    cases h
  error := by
    intro s s' e h
    rw [exitTest_bind] at h
    cases h
    exact ⟨refl_of Inert _, .inl rfl⟩

/-- `_fail` prints and exits. -/
theorem prints_fail {α : Type} (file : CString) (line : Int) : Prints (fail file line : CM α) :=
  have second : ∀ output : BitVec 32, Prints (do
      if hasOutput output cmOutputSubunit || hasOutput output cmOutputTap ||
          hasOutput output cmOutputXml then
        cmockaPrintError (fmtFileLine file line ++ ": error: Failure!".toList)
      exitTest .fail true
      throw .exitFailure : CM α) := fun _ =>
    Keeps.ite ((prints_cmockaPrintError _).bind fun _ => prints_exitTest_bind _)
      (prints_exitTest_bind _)
  prints_getOutput.bind fun output =>
    Keeps.ite ((prints_cmockaPrintError _).bind fun _ => second output) (second output)

/-- The internal assertions print and fail, or do nothing. -/
theorem prints_assertTrue (result : Bool) (expression : CString) (line : Int) :
    Prints (assertTrue result expression line) :=
  Keeps.ite (.pure _) ((prints_cmockaPrintError _).bind fun _ => prints_fail _ _)

theorem prints_assertNonNull {β : Type} (ptr : Option β) (line : Int) :
    Prints (assertNonNull ptr line) := by
  cases ptr with
  | some p => exact .pure p
  | none => exact (prints_cmockaPrintError _).bind fun _ => prints_fail _ _

/-- `fail` does not return. -/
theorem fail_ne_ok {α : Type} (file : CString) (line : Int) (s s' : Globals) (a : α) :
    (fail file line : CM α) s ≠ .ok a s' := by
  intro h
  obtain ⟨output, s₁, -, h⟩ := bind_eq_ok.mp h
  dsimp only at h
  split at h <;> split at h <;> simp [bind_eq_ok] at h

/-! ### The tracked allocator -/

/-- An operation on the list of blocks, or undefined behaviour. -/
theorem prints_heapOp (f : Heap → Option Heap) : Prints (heapOp f) := by
  refine Keeps.get_bind ?_ ?_
  · intro s s' a h
    cases hf : f s.globalAllocatedBlocks with
    | none =>
        rw [hf] at h
        cases h
    | some heap =>
        rw [hf] at h
        cases h
        exact ⟨_, _, _, _, rfl⟩
  · intro s s' e h
    cases hf : f s.globalAllocatedBlocks with
    | none =>
        rw [hf] at h
        cases h
        exact ⟨refl_of Inert _, .inr rfl⟩
    | some heap =>
        rw [hf] at h
        cases h

/-- A store to the memory of the allocator. -/
theorem prints_modifyHeap (f : Globals → Heap) :
    Prints (modify fun s => { s with globalAllocatedBlocks := f s }) :=
  Keeps.modify fun _ => ⟨_, _, _, _, rfl⟩

/-- `_test_malloc` asserts that `libc_malloc` succeeded. -/
theorem prints_testMalloc (size : Nat) (file : CString) (line : Int) (libc : Option Addr) :
    Prints (testMalloc size file line libc) :=
  (prints_modifyHeap _).bind fun _ => Prints.get.bind fun _ =>
    (prints_assertTrue _ _ _).bind fun _ => (prints_assertNonNull _ _).bind fun _ =>
      (prints_heapOp _).bind fun _ => .pure _

theorem prints_testCalloc (numberOfElements size : Nat) (file : CString) (line : Int)
    (libc : Option Addr) : Prints (testCalloc numberOfElements size file line libc) :=
  Prints.get.bind fun _ => Keeps.ite ((prints_modifyHeap _).bind fun _ => .pure _) <|
    (prints_testMalloc _ _ _ _).bind fun _ => (prints_modifyHeap _).bind fun _ => .pure _

/-- `_test_free` fails on a guard that was overwritten. -/
theorem prints_testFree (ptr : Addr) (file : CString) (line : Int) :
    Prints (testFree ptr file line) := by
  refine Keeps.ite (.pure _) (Prints.get.bind fun s => ?_)
  dsimp only
  split
  · exact .undefined
  · split
    · exact (prints_cmockaPrintError _).bind fun _ => prints_fail _ _
    · exact prints_heapOp _

/-- The copy of `_test_realloc` into the new block, and what follows. -/
theorem prints_copy {α : Type} (f : Globals → Option MallocBlockInfoData)
    (g : Globals → MallocBlockInfoData → Heap) {next : CM α} (hn : Prints next) :
    Prints (do
      let s ← get
      match f s with
      | none => throw .undefined
      | some data => do
          set { s with globalAllocatedBlocks := g s data }
          next) := by
  refine Keeps.get_bind ?_ ?_
  · intro s s' a h
    cases hf : f s with
    | none =>
        rw [hf] at h
        cases h
    | some data =>
        rw [hf] at h
        obtain ⟨_, s₁, h₁, h⟩ := bind_eq_ok.mp h
        cases h₁
        exact trans_of Inert ⟨_, _, _, _, rfl⟩ (hn.ok h)
  · intro s s' e h
    cases hf : f s with
    | none =>
        rw [hf] at h
        cases h
        exact ⟨refl_of Inert _, .inr rfl⟩
    | some data =>
        rw [hf] at h
        rcases bind_eq_error.mp h with h | ⟨_, s₁, h₁, h⟩
        · cases h
        · cases h₁
          obtain ⟨hi, he⟩ := hn.error h
          exact ⟨trans_of Inert ⟨_, _, _, _, rfl⟩ hi, he⟩

/-- `_test_realloc` allocates, copies and frees. -/
theorem prints_testRealloc (ptr : Addr) (size : Nat) (file : CString) (line : Int)
    (libc : Option Addr) : Prints (testRealloc ptr size file line libc) :=
  Keeps.ite (prints_testMalloc _ _ _ _) <|
    Keeps.ite ((prints_testFree _ _ _).bind fun _ => .pure _) <|
      (prints_testMalloc _ _ _ _).bind fun _ =>
        prints_copy _ _ ((prints_testFree _ _ _).bind fun _ => .pure _)

/-- A check point is a node of the list of blocks. -/
theorem prints_checkPointAllocatedBlocks : Prints checkPointAllocatedBlocks := by
  refine (prints_modifyHeap _).bind fun _ => Prints.get.bind fun s => ?_
  split
  · exact .pure _
  · exact .undefined

/-- The walk of `display_allocated_blocks` from a node to the head. -/
theorem prints_displayLoop (bound : Nat) (node : BlockNode) (allocatedBlocks : Nat) :
    Prints (displayLoop bound node allocatedBlocks) := by
  induction bound generalizing node allocatedBlocks with
  | zero => exact .undefined
  | succ bound ih =>
      refine Keeps.ite (.pure _) (Prints.get.bind fun s => ?_)
      split
      · exact .undefined
      · split
        · exact .undefined
        · have rest : ∀ data next, Prints (do
              cmockaPrintError (blockNote data)
              displayLoop bound next (allocatedBlocks + 1)) := fun _ next =>
            (prints_cmockaPrintError _).bind fun _ => ih next _
          exact Keeps.ite ((prints_cmockaPrintError _).bind fun _ => rest _ _) (rest _ _)

theorem prints_displayAllocatedBlocks (checkPoint : BlockNode) :
    Prints (displayAllocatedBlocks checkPoint) := by
  refine (prints_modifyHeap _).bind fun _ => Prints.get.bind fun s => ?_
  split
  · exact .undefined
  · exact prints_displayLoop _ _ _

/-- The walk of `free_allocated_blocks`; each block is freed on the way. -/
theorem prints_freeLoop (bound : Nat) (node : BlockNode) : Prints (freeLoop bound node) := by
  induction bound generalizing node with
  | zero => exact .undefined
  | succ bound ih =>
      refine Keeps.ite (.pure _) (Prints.get.bind fun s => ?_)
      split
      · exact .undefined
      · exact (prints_testFree _ _ _).bind fun _ => ih _

theorem prints_freeAllocatedBlocks (checkPoint : BlockNode) :
    Prints (freeAllocatedBlocks checkPoint) := by
  refine Prints.get.bind fun s => ?_
  split
  · exact .undefined
  · exact prints_freeLoop _ _

/-- `fail_if_blocks_allocated` fails after it freed the blocks. -/
theorem prints_failIfBlocksAllocated (checkPoint : BlockNode) (testName : CString) :
    Prints (failIfBlocksAllocated checkPoint testName) :=
  (prints_displayAllocatedBlocks _).bind fun _ => Keeps.ite
    ((prints_freeAllocatedBlocks _).bind fun _ => (prints_cmockaPrintError _).bind fun _ =>
      prints_exitTest)
    (.pure _)

end Cmocka
