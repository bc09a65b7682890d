import Cmocka.Model.MockAssert
import Cmocka.Support.Runs
import Cmocka.Support.Splits

/-!
# Runner — the flag of `expect_assert_failure`

The flag is set when a block begins and cleared when a block ends, so it says that the innermost
block being executed has had no block of its own that ended; a block that ends disarms the one
around it.  A test that is left inside a block leaves the flag set for the next one.  As long as no
`mock_assert` fails in a disarmed block and no test starts after one that was left in an armed one
(`AllAllowed`), the flag and the buffer are those of the armed block, at every event of a run
(`flag_of_armed`).
-/

namespace Cmocka

open Runs Splits

/-! ### The blocks being executed -/

/-- The blocks being executed, innermost first; each is disarmed once a block in it has ended. -/
abbrev BlockStack := List (Nat × Bool)

/-- The blocks after an event. -/
def nest (stack : BlockStack) : AssertEvent → BlockStack
  | .testStart _ => []
  | .blockStart block => (block, false) :: stack
  | .blockEnd =>
      match stack.tail with
      | [] => []
      | (block, _) :: rest => (block, true) :: rest
  | _ => stack

/-- The blocks being executed after some events.  A test that is left leaves its blocks; they are
gone when the next test starts. -/
def nesting (events : List AssertEvent) : BlockStack := events.foldl nest []

/-- The blocks after one more event. -/
theorem nesting_concat (events : List AssertEvent) (e : AssertEvent) :
    nesting (events ++ [e]) = nest (nesting events) e := by
  simp [nesting]

/-- The innermost block, if no block in it has ended. -/
def armed : BlockStack → Option Nat
  | (block, false) :: _ => some block
  | _ => none

/-- What the tests may do: no test starts after one that was left in an armed block, and no
`mock_assert` fails in a disarmed block. -/
def AssertEvent.Allowed (stack : BlockStack) : AssertEvent → Prop
  | .testStart _ => ∀ block rest, stack ≠ (block, false) :: rest
  | .assertFailed _ => ∀ block rest, stack ≠ (block, true) :: rest
  | _ => True

def AllAllowed (events : List AssertEvent) : Prop :=
  ∀ before e after, events = before ++ e :: after → e.Allowed (nesting before)

/-- What was allowed so far stays allowed. -/
theorem AllAllowed.of_prefix {events before : List AssertEvent} (h : AllAllowed events)
    (hpre : before <+: events) : AllAllowed before := by
  obtain ⟨rest, rfl⟩ := hpre
  rintro first e after rfl
  exact h first e (after ++ rest) (by simp)

/-! ### The flag -/

/-- The block a flag and a buffer name. -/
def flagged (globalExpectingAssert : Bool) (globalExpectAssertEnv : Nat) : Option Nat :=
  if globalExpectingAssert then some globalExpectAssertEnv else none

theorem flagged_eq_none_iff {flag : Bool} {env : Nat} : flagged flag env = none ↔ flag = false := by
  simp [flagged]

theorem flagged_eq_some_iff {flag : Bool} {env block : Nat} :
    flagged flag env = some block ↔ flag = true ∧ env = block := by
  simp [flagged]

/-- The flag and the buffer are those of the armed block. -/
def Linked (s : AssertState) : Prop :=
  flagged s.globalExpectingAssert s.globalExpectAssertEnv = armed (nesting s.events)

/-- The variables an event was recorded with are those of the armed block. -/
def AssertEvent.Reads (stack : BlockStack) : AssertEvent → Prop
  | .testStart globalExpectingAssert => globalExpectingAssert = false ↔ armed stack = none
  | .assertFailed call =>
      flagged call.globalExpectingAssert call.globalExpectAssertEnv = armed stack
  | _ => True

/-- As long as only allowed events happened, the flag is right, and so are the variables the next
event was recorded with. -/
structure Tracks (s : AssertState) : Prop where
  linked : AllAllowed s.events → Linked s
  reads : ∀ before e after, s.events = before ++ e :: after → AllAllowed before →
    e.Reads (nesting before)

/-- One more event. -/
theorem Tracks.event {s s' : AssertState} {e : AssertEvent} (h : Tracks s)
    (hevents : s'.events = s.events ++ [e]) (hreads : Linked s → e.Reads (nesting s.events))
    (hlinked : Linked s → e.Allowed (nesting s.events) → Linked s') : Tracks s' where
  linked := by
    intro hall
    rw [AllAllowed, hevents, forall_concat] at hall
    exact hlinked (h.linked hall.1) hall.2
  reads := by
    rw [hevents]
    exact forall_concat.mpr ⟨h.reads, fun hall => hreads (h.linked hall)⟩

/-- The rest of the state does not matter. -/
theorem Tracks.of_eq {s s' : AssertState} (h : Tracks s) (hevents : s'.events = s.events)
    (hflag : s'.globalExpectingAssert = s.globalExpectingAssert)
    (henv : s'.globalExpectAssertEnv = s.globalExpectAssertEnv) : Tracks s' where
  linked := by
    rw [hevents, Linked, hflag, henv, hevents]
    exact h.linked
  reads := by
    rw [hevents]
    exact h.reads

/-- An event that neither reads the variables nor moves between blocks. -/
theorem Tracks.neutral {s s' : AssertState} {e : AssertEvent} (h : Tracks s)
    (hevents : s'.events = s.events ++ [e])
    (hflag : s'.globalExpectingAssert = s.globalExpectingAssert)
    (henv : s'.globalExpectAssertEnv = s.globalExpectAssertEnv)
    (hnest : nest (nesting s.events) e = nesting s.events)
    (hreads : Linked s → e.Reads (nesting s.events)) : Tracks s' := by
  refine h.event hevents hreads ?_
  intro hlinked _
  rw [Linked, hevents, nesting_concat, hnest, hflag, henv]
  exact hlinked

/-- No block is armed if the innermost one is disarmed, or there is none. -/
theorem armed_eq_none_iff {stack : BlockStack} :
    armed stack = none ↔ ∀ block rest, stack ≠ (block, false) :: rest := by
  match stack with
  | [] => simp [armed]
  | (block, true) :: rest => simp [armed]
  | (block, false) :: rest => simp [armed]

/-- A block that ends leaves none armed. -/
theorem armed_nest_blockEnd (stack : BlockStack) : armed (nest stack .blockEnd) = none := by
  match stack with
  | [] => rfl
  | [_] => rfl
  | _ :: (_, _) :: _ => rfl

/-- The flag is cleared when no block is armed. -/
theorem Linked.flag_iff {s : AssertState} (h : Linked s) :
    s.globalExpectingAssert = false ↔ armed (nesting s.events) = none := by
  rw [← h, flagged_eq_none_iff]

/-- A test starts; no block of the test before is armed. -/
theorem Tracks.testStart {s : AssertState} (h : Tracks s) :
    Tracks { s with events := s.events ++ [.testStart s.globalExpectingAssert] } := by
  refine h.event rfl Linked.flag_iff ?_
  intro hlinked hallowed
  have hflag := hlinked.flag_iff.mpr (armed_eq_none_iff.mpr hallowed)
  unfold Linked
  rw [nesting_concat, hflag]
  rfl

/-- A block begins: it is armed. -/
theorem Tracks.blockStart {s : AssertState} (h : Tracks s) :
    Tracks { s with
      globalExpectingAssert := true
      globalExpectAssertEnv := s.nextBlock
      nextBlock := s.nextBlock + 1
      events := s.events ++ [.blockStart s.nextBlock] } := by
  refine h.event rfl (fun _ => trivial) ?_
  intro _ _
  unfold Linked
  rw [nesting_concat]
  rfl

/-- A block ends, and the flag is cleared. -/
theorem Tracks.blockEnd {s : AssertState} (h : Tracks s) :
    Tracks { s with globalExpectingAssert := false, events := s.events ++ [.blockEnd] } := by
  refine h.event rfl (fun _ => trivial) ?_
  intro _ _
  unfold Linked
  rw [nesting_concat, armed_nest_blockEnd]
  rfl

theorem Tracks.ended {s : AssertState} (h : Tracks s) (e : Exit) : Tracks (s.ended e) :=
  h.neutral rfl rfl rfl rfl fun _ => trivial

/-- A call of `mock_assert` records the variables. -/
theorem Tracks.assertFailed {s : AssertState} (h : Tracks s) (expression file : CString)
    (line : Int) :
    Tracks { s with
      events := s.events ++ [.assertFailed (s.failedAssert expression file line)] } :=
  h.neutral rfl rfl rfl rfl id

/-! ### The runs of tests -/

/-- A run does not disturb it. -/
def TracksKept (s s' : AssertState) : Prop := Tracks s → Tracks s'

instance : IsPreorder AssertState TracksKept where
  refl _ := id
  trans _ _ _ h h' := h' ∘ h

/-- Every run of `x`, however it ends. -/
abbrev KeepsTracks {β : Type} (x : AM β) : Prop := Keeps TracksKept (fun _ _ => True) x

theorem keepsTracks_bind {β γ : Type} {x : AM β} {f : β → AM γ} (hx : KeepsTracks x)
    (hf : ∀ b, KeepsTracks (f b)) : KeepsTracks (x >>= f) :=
  Keeps.bind hx (fun _ _ _ _ _ => trivial) hf

/-- A computation of the library that returns. -/
theorem library_ok {β : Type} {x : CM β} {s s' : AssertState} {b : β}
    (h : library x s = .ok b s') : ∃ g, x s.globals = .ok b g ∧ s' = { s with globals := g } := by
  unfold library at h
  split at h
  next b' g hx =>
    cases h
    exact ⟨g, hx, rfl⟩
  next e g hx => cases h

/-- A computation of the library that exits. -/
theorem library_error {β : Type} {x : CM β} {s s' : AssertState} {e : AssertExit}
    (h : library x s = .error e s') :
    ∃ exit g, x s.globals = .error exit g ∧ e = .library exit ∧ s' = { s with globals := g } := by
  unfold library at h
  split at h
  next b g hx => cases h
  next exit g hx =>
    cases h
    exact ⟨exit, g, hx, rfl, rfl⟩

/-- The library does not know the three variables. -/
theorem keepsTracks_library {β : Type} (x : CM β) : KeepsTracks (library x) where
  ok := by
    intro s s' b h
    obtain ⟨g, -, rfl⟩ := library_ok h
    exact fun ht => ht.of_eq rfl rfl rfl
  error := by
    intro s s' e h
    obtain ⟨exit, g, -, -, rfl⟩ := library_error h
    exact ⟨fun ht => ht.of_eq rfl rfl rfl, trivial⟩

/-- `mock_assert` only reads the flag and the buffer. -/
theorem keepsTracks_mockAssert (result : Bool) (expression file : CString) (line : Int) :
    KeepsTracks (mockAssert result expression file line) := by
  have hbranches (s : AssertState) : KeepsTracks
      (if s.globalExpectingAssert then do
        modify fun s => { s with globalLastFailedAssert := some expression }
        throw (.longjmp s.globalExpectAssertEnv)
      else do
        library (cmockaPrintError ("ASSERT: ".toList ++ expression ++ "\n".toList))
        library (fail file line) : AM Unit) :=
    Keeps.ite
      (keepsTracks_bind (Keeps.modify fun _ ht => ht.of_eq rfl rfl rfl) fun _ =>
        Keeps.throw fun _ => trivial)
      (keepsTracks_bind (keepsTracks_library _) fun _ => keepsTracks_library _)
  unfold mockAssert
  exact Keeps.ite (Keeps.pure ()) (Keeps.get_bind (hbranches _).ok (hbranches _).error)

theorem keepsTracks_callMockAssert (result : Bool) (expression file : CString) (line : Int) :
    KeepsTracks (callMockAssert result expression file line) := by
  cases result with
  | true => exact Keeps.pure ()
  | false =>
      exact keepsTracks_bind (Keeps.modify fun _ ht => ht.assertFailed expression file line)
        fun _ => keepsTracks_mockAssert false expression file line

theorem keepsTracks_enterBlock : KeepsTracks enterBlock := by
  refine Keeps.get_bind ?_ ?_
  · intro s s' block h
    cases h
    exact Tracks.blockStart
  · intro s s' e h
    cases h

theorem keepsTracks_leaveBlock : KeepsTracks leaveBlock := Keeps.modify fun _ => Tracks.blockEnd

/-- Control arrives behind the `setjmp` with the variables as they were at the jump. -/
theorem keepsTracks_setjmpAssert (block : Nat) {body jumped : AM Unit} (hbody : KeepsTracks body)
    (hjumped : KeepsTracks jumped) : KeepsTracks (setjmpAssert block body jumped) where
  ok := by
    intro s s' u h
    unfold setjmpAssert at h
    split at h
    · rename_i s₁ hrun
      cases h
      exact hbody.ok hrun
    · rename_i target s₁ hrun
      split at h
      · exact trans_of TracksKept (hbody.error hrun).1 (hjumped.ok h)
      · cases h
    · cases h
  error := by
    intro s s' e h
    refine ⟨?_, trivial⟩
    unfold setjmpAssert at h
    split at h
    · cases h
    · rename_i target s₁ hrun
      split at h
      · exact trans_of TracksKept (hbody.error hrun).1 (hjumped.error h).1
      · cases h
        exact (hbody.error hrun).1
    · rename_i e' s₁ hrun
      cases h
      exact (hbody.error hrun).1

/-- **A block**, whichever way it is left. -/
theorem keepsTracks_expectAssertFailure (functionCall file : CString) (line : Int) {body : AM Unit}
    (hbody : KeepsTracks body) : KeepsTracks (expectAssertFailure functionCall file line body) := by
  unfold expectAssertFailure
  refine keepsTracks_bind keepsTracks_enterBlock fun block => keepsTracks_setjmpAssert block ?_ ?_
  · exact keepsTracks_bind hbody fun _ => keepsTracks_bind keepsTracks_leaveBlock fun _ =>
      keepsTracks_bind (keepsTracks_library _) fun _ => keepsTracks_library _
  · exact keepsTracks_bind
      (Keeps.modify fun _ ht => ht.neutral rfl rfl rfl rfl fun _ => trivial) fun _ =>
      keepsTracks_leaveBlock

/-- The code of a test. -/
theorem keepsTracks_exec (body : TestBody) : KeepsTracks body.exec := by
  induction body with
  | done => exact Keeps.pure ()
  | mockAssert result expression file line rest ih =>
      exact keepsTracks_bind (keepsTracks_callMockAssert result expression file line) fun _ => ih
  | fail file line rest ih => exact keepsTracks_bind (keepsTracks_library _) fun _ => ih
  | stop rest ih => exact keepsTracks_bind (keepsTracks_library _) fun _ => ih
  | skip file line rest ih => exact keepsTracks_bind (keepsTracks_library _) fun _ => ih
  | expectAssertFailure block functionCall file line rest ihblock ih =>
      exact keepsTracks_bind (keepsTracks_expectAssertFailure functionCall file line ihblock)
        fun _ => ih

/-- Control arrives behind the `setjmp` of the runner in the same way. -/
theorem keepsTracks_setjmpRunner {β : Type} {body : AM β} {jumped : Reason → AM β}
    (hbody : KeepsTracks body) (hjumped : ∀ reason, KeepsTracks (jumped reason)) :
    KeepsTracks (setjmpRunner body jumped) where
  ok := by
    intro s s' b h
    unfold setjmpRunner at h
    split at h
    · rename_i b' s₁ hrun
      cases h
      exact hbody.ok hrun
    · rename_i reason s₁ hrun
      exact trans_of TracksKept (hbody.error hrun).1 ((hjumped reason).ok h)
    · cases h
    · cases h
  error := by
    intro s s' e h
    refine ⟨?_, trivial⟩
    unfold setjmpRunner at h
    split at h
    · cases h
    · rename_i reason s₁ hrun
      exact trans_of TracksKept (hbody.error hrun).1 ((hjumped reason).error h).1
    · rename_i e' s₁ hne hrun
      cases h
      exact fun ht => ((hbody.error hrun).1 ht).ended e'
    · rename_i target s₁ hrun
      cases h
      exact fun ht => ((hbody.error hrun).1 ht).ended .undefined

/-- **A test**, from the check point to `teardown_testing`. -/
theorem keepsTracks_runAssertTest (functionName : CString) (body : TestBody) :
    KeepsTracks (runAssertTest functionName body) := by
  unfold runAssertTest
  refine keepsTracks_bind (keepsTracks_library _) fun checkPoint =>
    keepsTracks_bind (keepsTracks_library _) fun _ =>
    keepsTracks_bind (keepsTracks_library _) fun _ =>
    keepsTracks_bind (keepsTracks_setjmpRunner ?_ fun reason => keepsTracks_library _) fun _ =>
    keepsTracks_bind (keepsTracks_library _) fun _ =>
    keepsTracks_bind (Keeps.modify fun _ ht => ht.neutral rfl rfl rfl rfl fun _ => trivial) fun _ =>
    Keeps.pure _
  exact keepsTracks_bind (Keeps.modify fun _ => Tracks.testStart) fun _ =>
    keepsTracks_bind (keepsTracks_exec body) fun _ =>
    keepsTracks_bind (keepsTracks_library _) fun _ =>
    keepsTracks_bind (keepsTracks_library _) fun _ =>
    keepsTracks_bind (keepsTracks_library _) fun _ => Keeps.pure _

/-- The tests of a process, by induction on them. -/
theorem keepsTracks_runAssertTests (tests : List (CString × TestBody)) :
    KeepsTracks (runAssertTests tests) := by
  induction tests with
  | nil => exact Keeps.pure []
  | cons test rest ih =>
      have hrest : ∀ rc : Int, KeepsTracks (do
          library (modify fun s => { s with cmErrorMessage := none })
          let rcs ← runAssertTests rest
          return rc :: rcs) := fun rc =>
        keepsTracks_bind (keepsTracks_library _) fun _ => keepsTracks_bind ih fun _ => Keeps.pure _
      exact keepsTracks_bind (keepsTracks_runAssertTest test.1 test.2) fun rc =>
        Keeps.ite (keepsTracks_bind (keepsTracks_library _) fun _ => hrest rc) (hrest rc)

theorem tracks_initial (platform : Platform) : Tracks (AssertState.initial platform) where
  linked _ := rfl
  reads := by
    intro before e after h
    simp [AssertState.initial] at h

/-- **The flag says which block is armed**, at every event of a run before which only allowed events
happened. -/
theorem flag_of_armed {platform : Platform} {tests : List (CString × TestBody)}
    {before after : List AssertEvent} {e : AssertEvent}
    (h : (final (runAssertTests tests (AssertState.initial platform))).events =
      before ++ e :: after) (hall : AllAllowed before) : e.Reads (nesting before) :=
  ((keepsTracks_runAssertTests tests).final _ (tracks_initial platform)).reads before e after h hall

end Cmocka
