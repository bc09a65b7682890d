import Cmocka.Runner.AssertFlag
import Cmocka.Runner.Formats

/-!
# Runner — expected assertions

Where control goes after a `mock_assert` of something false is decided by the flag it finds.  With
the flag set it goes to the block whose number is in the buffer, if that is the innermost block of
the test; with the flag cleared the test prints the assertion, and ends by `_fail`
(`answered_runAssertTests`).  So a failed `mock_assert` goes to the innermost block being executed
or, if there is none, fails its test, and every test starts with the flag cleared, exactly when the
flag says which block is the innermost one (`expected_asserts_caught_iff`).
-/

namespace Cmocka

open Runs Splits

/-! ### Where a failed assertion goes -/

/-- The message after the assertion was printed and `_fail` called. -/
def FailedAssert.failMessage (call : FailedAssert) : Option CString :=
  (("ASSERT: ".toList ++ call.expression ++ "\n".toList) ::
    failureTexts call.formats call.file call.line).foldl vcmockaPrintError call.cmErrorMessage

/-- What comes after is the end of the test: it failed, with the assertion and the place printed, or
`_fail` aborted the process, as `CMOCKA_TEST_ABORT` asks for. -/
def FailsTest (platform : Platform) (call : FailedAssert) (after : List AssertEvent) : Prop :=
  [.testEnd (-1) call.failMessage] <+: after ∨
    platform.abortTest = true ∧ [.processEnd .abort] <+: after

/-- What comes after is the return to a block, with the expression of the assertion. -/
def ReturnsTo (block : Nat) (call : FailedAssert) (after : List AssertEvent) : Prop :=
  [.returnedTo block (some call.expression)] <+: after

/-- The two exclude each other. -/
theorem FailsTest.not_returnsTo {platform : Platform} {call : FailedAssert} {block : Nat}
    {after : List AssertEvent} (h : FailsTest platform call after) :
    ¬ReturnsTo block call after := by
  rintro ⟨rest, rfl⟩
  rcases h with ⟨rest', heq⟩ | ⟨-, rest', heq⟩
  · simp at heq
  · simp at heq

/-- An event as it should be, in the blocks being executed and before what comes after it: a test
starts with the flag cleared, and a failed `mock_assert` returns to the innermost block, or fails
the test if there is none. -/
def AssertEvent.Caught (platform : Platform) (stack : BlockStack) (after : List AssertEvent) :
    AssertEvent → Prop
  | .testStart globalExpectingAssert => globalExpectingAssert = false
  | .assertFailed call =>
      match stack with
      | [] => FailsTest platform call after
      | (block, _) :: _ => ReturnsTo block call after
  | _ => True

def AllCaught (platform : Platform) (events : List AssertEvent) : Prop :=
  ∀ before e after, events = before ++ e :: after → e.Caught platform (nesting before) after

/-- What a failed `mock_assert` does in any case: without the flag it fails the test, and with the
flag it returns to the block in the buffer, if that is the innermost one. -/
def AssertEvent.Answered (platform : Platform) (stack : BlockStack) (after : List AssertEvent) :
    AssertEvent → Prop
  | .assertFailed call =>
      (call.globalExpectingAssert = false → FailsTest platform call after) ∧
      (call.globalExpectingAssert = true → ∀ disarmed rest,
        stack = (call.globalExpectAssertEnv, disarmed) :: rest →
        ReturnsTo call.globalExpectAssertEnv call after)
  | _ => True

def AllAnswered (platform : Platform) (events : List AssertEvent) : Prop :=
  ∀ before e after, events = before ++ e :: after → e.Answered platform (nesting before) after

section Answers

variable {platform : Platform} {events : List AssertEvent} {call : FailedAssert}

/-- More events do not change what came first. -/
theorem AssertEvent.Answered.append {stack : BlockStack} {after : List AssertEvent}
    {e : AssertEvent} (h : e.Answered platform stack after) (later : List AssertEvent) :
    e.Answered platform stack (after ++ later) := by
  cases e with
  | assertFailed call =>
      refine ⟨fun hflag => ?_, fun hflag disarmed rest hstack => ?_⟩
      · exact (h.1 hflag).imp (fun hpre => hpre.trans (List.prefix_append _ _))
          fun habort => ⟨habort.1, habort.2.trans (List.prefix_append _ _)⟩
      · exact (h.2 hflag disarmed rest hstack).trans (List.prefix_append _ _)
  | _ => trivial

theorem allAnswered_nil (platform : Platform) : AllAnswered platform [] := by
  intro before e after h
  simp at h

/-- One more event that is no failed assertion. -/
theorem AllAnswered.concat (h : AllAnswered platform events) {e : AssertEvent}
    (he : ∀ call, e ≠ .assertFailed call) : AllAnswered platform (events ++ [e]) := by
  intro before e' after heq
  rcases concat_eq_split.mp heq with ⟨mid, hevents, rfl⟩ | ⟨rfl, rfl, rfl⟩
  · exact (h before e' mid hevents).append [e]
  · cases e' with
    | assertFailed call => exact absurd rfl (he call)
    | _ => trivial

/-- A failed assertion and what it is answered with. -/
theorem AllAnswered.answer {before : List AssertEvent} (h : AllAnswered platform before)
    {e : AssertEvent} (he : ∀ call, e ≠ .assertFailed call)
    (hanswer : (AssertEvent.assertFailed call).Answered platform (nesting before) [e]) :
    AllAnswered platform (before ++ [.assertFailed call] ++ [e]) := by
  intro first e' after heq
  rcases concat_eq_split.mp heq with ⟨mid, hevents, rfl⟩ | ⟨rfl, rfl, rfl⟩
  · rcases concat_eq_split.mp hevents with ⟨mid', hbefore, rfl⟩ | ⟨rfl, rfl, rfl⟩
    · exact ((h first e' mid' hbefore).append [.assertFailed call]).append [e]
    · exact hanswer
  · cases e' with
    | assertFailed call => exact absurd rfl (he call)
    | _ => trivial

end Answers

/-! ### The code of a test -/

/-- The flags of the runner while a test runs. -/
structure InTest (platform : Platform) (s : Globals) : Prop where
  platform : s.platform = platform
  running : s.globalRunningTest = true
  stop : s.globalStopTest = false

/-- The code of a test is executed, in these blocks. -/
structure Inside (platform : Platform) (blocks : List Nat) (s : AssertState) : Prop where
  answered : AllAnswered platform s.events
  executed : (nesting s.events).map Prod.fst = blocks
  buffer : ∀ block rest, blocks = block :: rest → s.globalExpectingAssert = true →
    s.globalExpectAssertEnv = block
  inTest : InTest platform s.globals

/-- The ways the code of a test is left, out of these blocks: by the jump of a failed `mock_assert`,
which is to the innermost block if there is one; by the `_fail` of one; or by another call. -/
inductive LeftBy (platform : Platform) (blocks : List Nat) (s : AssertState) : AssertExit → Prop
  | jumped {before : List AssertEvent} {call : FailedAssert}
      (hevents : s.events = before ++ [.assertFailed call]) (hbefore : AllAnswered platform before)
      (hflag : call.globalExpectingAssert = true)
      (hblocks : (nesting before).map Prod.fst = blocks)
      (hinner : ∀ block rest, blocks = block :: rest → call.globalExpectAssertEnv = block)
      (hbuffer : s.globalExpectAssertEnv = call.globalExpectAssertEnv)
      (hlast : s.globalLastFailedAssert = some call.expression)
      (hinTest : InTest platform s.globals) :
      LeftBy platform blocks s (.longjmp call.globalExpectAssertEnv)
  | failed {before : List AssertEvent} {call : FailedAssert}
      (hevents : s.events = before ++ [.assertFailed call]) (hbefore : AllAnswered platform before)
      (hflag : call.globalExpectingAssert = false)
      (hmessage : s.globals.cmErrorMessage = call.failMessage)
      (hinTest : InTest platform s.globals) :
      LeftBy platform blocks s (.library (.longjmp .fail))
  | aborted {before : List AssertEvent} {call : FailedAssert}
      (hevents : s.events = before ++ [.assertFailed call]) (hbefore : AllAnswered platform before)
      (hflag : call.globalExpectingAssert = false) (habort : platform.abortTest = true) :
      LeftBy platform blocks s (.library .abort)
  | other {e : Exit} (hanswered : AllAnswered platform s.events)
      (hplatform : s.globals.platform = platform) : LeftBy platform blocks s (.library e)

/-- Code of a test that is executed in the blocks, and is in them again when it ends normally. -/
abbrev Executes (platform : Platform) (blocks : List Nat) (x : AM Unit) : Prop :=
  Ensures (Inside platform blocks) x (fun _ => Inside platform blocks)
    (fun e s => LeftBy platform blocks s e)

section Code

variable {platform : Platform} {blocks : List Nat}

/-- An exit out of a block that is not a jump of a `mock_assert` leaves the block around it too. -/
theorem LeftBy.library {blocks' : List Nat} {s : AssertState} {e : Exit}
    (h : LeftBy platform blocks s (.library e)) : LeftBy platform blocks' s (.library e) := by
  cases h with
  | failed hevents hbefore hflag hmessage hinTest =>
      exact .failed hevents hbefore hflag hmessage hinTest
  | aborted hevents hbefore hflag habort => exact .aborted hevents hbefore hflag habort
  | other hanswered hplatform => exact .other hanswered hplatform

theorem Inert.inTest {g g' : Globals} (h : Inert g g') (hg : InTest platform g) :
    InTest platform g' := by
  obtain ⟨_, _, _, _, rfl⟩ := h
  exact ⟨hg.platform, hg.running, hg.stop⟩

/-- A computation of the library, by its runs. -/
theorem ensures_library {β : Type} {x : CM β} {P : AssertState → Prop}
    {Q : β → AssertState → Prop} {E : AssertExit → AssertState → Prop}
    (hok : ∀ s b g, P s → x s.globals = .ok b g → Q b { s with globals := g })
    (herror : ∀ s e g, P s → x s.globals = .error e g →
      E (.library e) { s with globals := g }) : Ensures P (library x) Q E where
  ok := by
    intro s s' b hs h
    obtain ⟨g, hg, rfl⟩ := library_ok h
    exact hok s b g hs hg
  error := by
    intro s s' e hs h
    obtain ⟨exit, g, hg, rfl, rfl⟩ := library_error h
    exact herror s exit g hs hg

/-- A call of the library that does not return. -/
theorem executes_library {blocks' : List Nat} {x : CM Unit} (hno : ∀ g u g', x g ≠ .ok u g')
    (hx : ∀ g e g', x g = .error e g' → g'.platform = g.platform) :
    Ensures (Inside platform blocks) (library x) (fun _ => Inside platform blocks)
      (fun e s => LeftBy platform blocks' s e) :=
  ensures_library (fun _ _ _ _ h => absurd h (hno _ _ _)) fun _ _ _ hs h =>
    .other hs.answered ((hx _ _ _ h).trans hs.inTest.platform)

theorem executes_fail {blocks' : List Nat} (file : CString) (line : Int) :
    Ensures (Inside platform blocks) (library (fail file line : CM Unit))
      (fun _ => Inside platform blocks) (fun e s => LeftBy platform blocks' s e) := by
  refine executes_library (fun g u g' => fail_ne_ok file line g g' u) ?_
  intro g e g' h
  obtain ⟨_, _, _, _, rfl⟩ := ((prints_fail file line).error h).1
  rfl

theorem executes_stop : Executes platform blocks (library stop) := by
  have hstop (g : Globals) : stop g = .error ({ g with globalStopTest := true }.exitOf .stop)
      { g with globalStopTest := true } := by
    simp only [stop, bind_apply, modify_apply, exitTest_apply]
  refine executes_library ?_ ?_
  · intro g u g' h
    cases (hstop g).symm.trans h
  · intro g e g' h
    cases (hstop g).symm.trans h
    rfl

theorem executes_skip (file : CString) (line : Int) :
    Executes platform blocks (library (skip file line)) := by
  have hskip (g : Globals) : ∃ e g', skip file line g = .error e g' ∧ g'.platform = g.platform := by
    simp only [skip, bind_apply, cmockaPrintError_apply, modify_apply, exitTest_apply]
    exact ⟨_, _, rfl, rfl⟩
  refine executes_library ?_ ?_
  · intro g u g' h
    obtain ⟨e, g₁, h₁, -⟩ := hskip g
    cases h₁.symm.trans h
  · intro g e g' h
    obtain ⟨e₁, g₁, h₁, hplatform⟩ := hskip g
    cases h₁.symm.trans h
    exact hplatform

/-- **`mock_assert`** jumps to the innermost block, or prints the assertion and calls `_fail`. -/
theorem executes_callMockAssert (result : Bool) (expression file : CString) (line : Int) :
    Executes platform blocks (callMockAssert result expression file line) := by
  cases result with
  | true => exact Ensures.pure fun _ hs => hs
  | false =>
      have hrun : ∀ s, Inside platform blocks s → ∃ e s',
          callMockAssert false expression file line s = .error e s' ∧
            LeftBy platform blocks s' e := by
        intro s hs
        unfold callMockAssert mockAssert
        simp only [Bool.not_false, Bool.false_eq_true, if_true, if_false, bind_apply, get_apply,
          modify_apply]
        by_cases hflag : s.globalExpectingAssert = true
        · simp only [hflag, if_true, bind_apply, modify_apply, throw_apply]
          exact ⟨_, _, rfl, @LeftBy.jumped platform blocks _ s.events
            (s.failedAssert expression file line) rfl hs.answered hflag hs.executed
            (fun block rest hb => hs.buffer block rest hb hflag) rfl rfl hs.inTest⟩
        · rw [Bool.not_eq_true] at hflag
          -- what was printed before `_fail`
          obtain ⟨g, hg⟩ : ∃ g, g = s.globals.printed
              ["ASSERT: ".toList ++ expression ++ "\n".toList] := ⟨_, rfl⟩
          have hin : InTest platform g := by
            rw [hg]
            exact ⟨hs.inTest.platform, hs.inTest.running, hs.inTest.stop⟩
          have hprint : cmockaPrintError ("ASSERT: ".toList ++ expression ++ "\n".toList)
              s.globals = .ok () g := by
            rw [hg]
            rfl
          have hmessage : (g.asked.printed (failureTexts g.output file line)).cmErrorMessage =
              (s.failedAssert expression file line).failMessage := by
            rw [hg]
            rfl
          simp only [hflag, Bool.false_eq_true, if_false, bind_apply, library, hprint, fail_apply]
          refine ⟨_, _, rfl, ?_⟩
          by_cases habort : (!g.globalSkipTest && g.platform.abortTest) = true
          · rw [Globals.exitOf, if_pos habort]
            rw [Bool.and_eq_true, hin.platform] at habort
            exact @LeftBy.aborted platform blocks _ s.events (s.failedAssert expression file line)
              rfl hs.answered hflag habort.2
          · rw [Globals.exitOf, if_neg habort, if_pos hin.running]
            exact @LeftBy.failed platform blocks _ s.events (s.failedAssert expression file line)
              rfl hs.answered hflag hmessage ⟨hin.platform, hin.running, hin.stop⟩
      exact
        { ok := by
            intro s s' u hs h
            obtain ⟨e, s₁, h₁, -⟩ := hrun s hs
            cases h₁.symm.trans h
          error := by
            intro s s' e hs h
            obtain ⟨e₁, s₁, h₁, hleft⟩ := hrun s hs
            cases h₁.symm.trans h
            exact hleft }

theorem map_nest_blockEnd (stack : BlockStack) :
    (nest stack .blockEnd).map Prod.fst = (stack.map Prod.fst).tail := by
  match stack with
  | [] => rfl
  | [_] => rfl
  | _ :: (_, _) :: _ => rfl

/-- The end of a block. -/
theorem Inside.leave {block : Nat} {s : AssertState} (hs : Inside platform (block :: blocks) s) :
    Inside platform blocks
      { s with globalExpectingAssert := false, events := s.events ++ [.blockEnd] } where
  answered := hs.answered.concat (by simp)
  executed := by rw [nesting_concat, map_nest_blockEnd, hs.executed, List.tail_cons]
  buffer := by
    intro _ _ _ hflag
    cases hflag
  inTest := hs.inTest

/-- Behind the `setjmp` of a block control arrives by the jump of a `mock_assert` in it. -/
theorem LeftBy.caught {block target : Nat} {s : AssertState}
    (h : LeftBy platform (block :: blocks) s (.longjmp target)) :
    target = block ∧ ∀ stdout, Inside platform (block :: blocks) { s with
      stdout, events := s.events ++ [.returnedTo block s.globalLastFailedAssert] } := by
  cases h with
  | @jumped before call hevents hbefore hflag hblocks hinner hbuffer hlast hinTest =>
      have htarget := hinner block blocks rfl
      refine ⟨htarget, fun stdout => ⟨?_, ?_, ?_, hinTest⟩⟩
      · dsimp only
        rw [hevents, hlast]
        refine hbefore.answer (by simp) ⟨fun hno => ?_, fun _ _ _ _ => ?_⟩
        · cases hflag.symm.trans hno
        · rw [ReturnsTo, htarget]
      · dsimp only
        rw [nesting_concat, hevents, nesting_concat]
        exact hblocks
      · intro block' rest hcons _
        cases hcons
        exact hbuffer.trans htarget

/-- **`expect_assert_failure`** is left by jumps to it only as it says. -/
theorem executes_expectAssertFailure (functionCall file : CString) (line : Int) {body : AM Unit}
    (hbody : ∀ block, Executes platform (block :: blocks) body) :
    Executes platform blocks (expectAssertFailure functionCall file line body) := by
  have henter : Ensures (Inside platform blocks) enterBlock
      (fun block => Inside platform (block :: blocks)) (fun e s => LeftBy platform blocks s e) :=
    { ok := by
        intro s s' block hs h
        cases h
        refine ⟨hs.answered.concat (by simp), ?_, ?_, hs.inTest⟩
        · rw [nesting_concat, nest, List.map_cons, hs.executed]
        · intro block rest hcons _
          cases hcons
          rfl
      error := by
        intro s s' e _ h
        cases h }
  have hrecord (blocks' : List Nat) (events : List Event) :
      Ensures (Inside platform blocks) (library (record events)) (fun _ => Inside platform blocks)
        (fun e s => LeftBy platform blocks' s e) := by
    refine ensures_library ?_ ?_
    · intro s u g hs h
      cases h
      exact ⟨hs.answered, hs.executed, hs.buffer, hs.inTest.platform, hs.inTest.running,
        hs.inTest.stop⟩
    · intro s e g _ h
      cases h
  -- the branch of the macro that runs the code in the block
  have hinner : ∀ block, Ensures (Inside platform (block :: blocks)) (do
        body
        leaveBlock
        library (record [.printError ("Expected assert in ".toList ++ functionCall ++ "\n".toList)])
        library (fail file line)) (fun _ => Inside platform blocks)
      (fun e s => LeftBy platform (block :: blocks) s e) := fun block =>
    (hbody block).bind fun _ => (Ensures.modify fun _ => Inside.leave).bind fun _ =>
      (hrecord _ _).bind fun _ => executes_fail file line
  refine henter.bind fun block => ?_
  exact
    { ok := by
        intro s s' u hs h
        unfold setjmpAssert at h
        split at h
        next s₁ hrun =>
          cases h
          exact (hinner block).ok hs hrun
        next target s₁ hrun =>
          obtain ⟨rfl, hcaught⟩ := LeftBy.caught ((hinner block).error hs hrun)
          rw [if_pos rfl] at h
          cases h
          exact (hcaught _).leave
        next e s₁ hrun => cases h
      error := by
        intro s s' e hs h
        unfold setjmpAssert at h
        split at h
        next s₁ hrun => cases h
        next target s₁ hrun =>
          obtain ⟨rfl, -⟩ := LeftBy.caught ((hinner block).error hs hrun)
          rw [if_pos rfl] at h
          cases h
        next e' s₁ hrun =>
          cases h
          exact ((hinner block).error hs hrun).library }

/-- **The code of a test**, in any blocks. -/
theorem executes_exec (body : TestBody) (blocks : List Nat) :
    Executes platform blocks body.exec := by
  induction body generalizing blocks with
  | done => exact Ensures.pure fun _ hs => hs
  | mockAssert result expression file line rest ih =>
      exact (executes_callMockAssert result expression file line).bind fun _ => ih blocks
  | fail file line rest ih => exact (executes_fail file line).bind fun _ => ih blocks
  | stop rest ih => exact executes_stop.bind fun _ => ih blocks
  | skip file line rest ih => exact (executes_skip file line).bind fun _ => ih blocks
  | expectAssertFailure block functionCall file line rest ihblock ih =>
      exact (executes_expectAssertFailure functionCall file line fun n =>
        ihblock (n :: blocks)).bind fun _ => ih blocks

end Code

/-! ### A test -/

/-- The state between the tests. -/
structure BetweenTests (platform : Platform) (s : AssertState) : Prop where
  answered : AllAnswered platform s.events
  platform : s.globals.platform = platform
  stop : s.globals.globalStopTest = false

/-- The state in which the code of a test starts. -/
structure TestReady (platform : Platform) (s : AssertState) : Prop where
  answered : AllAnswered platform s.events
  inTest : InTest platform s.globals

/-- The state when `rc` of a test is known: nothing is left to be answered, or the test was ended by
the `_fail` of a `mock_assert`. -/
inductive TestJudged (platform : Platform) (rc : Int) (s : AssertState) : Prop
  | settled (hbetween : BetweenTests platform s)
  | failing {before : List AssertEvent} {call : FailedAssert}
      (hevents : s.events = before ++ [.assertFailed call]) (hbefore : AllAnswered platform before)
      (hflag : call.globalExpectingAssert = false) (hrc : rc = -1)
      (hmessage : s.globals.cmErrorMessage = call.failMessage)
      (hplatform : s.globals.platform = platform) (hstop : s.globals.globalStopTest = false)

/-- After every end of the process, nothing is left to be answered. -/
abbrev Settles {β : Type} (platform : Platform) (P : AssertState → Prop) (x : AM β)
    (Q : β → AssertState → Prop) : Prop :=
  Ensures P x Q (fun _ s => AllAnswered platform s.events)

section Tests

variable {platform : Platform}

/-- The code of a test and the checks behind it. -/
theorem executes_body (functionName : CString) (checkPoint : BlockNode) (body : TestBody) :
    Ensures (TestReady platform) (do
        modify fun s => { s with events := s.events ++ [.testStart s.globalExpectingAssert] }
        body.exec
        library (failIfBlocksAllocated checkPoint functionName)
        library failIfLeftoverValues
        library (modify fun s => { s with globalRunningTest := false })
        return ((0 : Int), Ending.returned 0))
      (fun _ => BetweenTests platform) (fun e s => LeftBy platform [] s e) := by
  have hstart : ∀ s, TestReady platform s → Inside platform []
      { s with events := s.events ++ [.testStart s.globalExpectingAssert] } := by
    intro s hs
    refine ⟨hs.answered.concat (by simp), ?_, by simp, hs.inTest⟩
    rw [nesting_concat]
    rfl
  have hblocks : Executes platform []
      (library (failIfBlocksAllocated checkPoint functionName)) := by
    have hprints := prints_failIfBlocksAllocated checkPoint functionName
    refine ensures_library ?_ ?_
    · intro s u g hs h
      exact ⟨hs.answered, hs.executed, hs.buffer, (hprints.ok h).inTest hs.inTest⟩
    · intro s e g hs h
      exact .other hs.answered ((hprints.error h).1.inTest hs.inTest).platform
  have hleftover : Executes platform [] (library failIfLeftoverValues) := by
    refine ensures_library ?_ ?_
    · intro s u g hs h
      rcases failIfLeftoverValues_cases s.globals with ⟨-, g', hg, hi⟩ | ⟨-, e, g', hg, -⟩
      · cases hg.symm.trans h
        exact ⟨hs.answered, hs.executed, hs.buffer,
          hi.inTest ⟨hs.inTest.platform, hs.inTest.running, hs.inTest.stop⟩⟩
      · cases hg.symm.trans h
    · intro s e g hs h
      rcases failIfLeftoverValues_cases s.globals with ⟨-, g', hg, -⟩ | ⟨-, e', g', hg, hi, -⟩
      · cases hg.symm.trans h
      · cases hg.symm.trans h
        obtain ⟨_, _, _, _, rfl⟩ := hi
        exact .other hs.answered hs.inTest.platform
  refine (Ensures.modify hstart).bind fun _ => (executes_exec body []).bind fun _ =>
    hblocks.bind fun _ => hleftover.bind fun _ => ?_
  refine Ensures.bind (Q := fun _ => BetweenTests platform) (ensures_library ?_ ?_) fun _ =>
    Ensures.pure fun _ hs => hs
  · intro s u g hs h
    cases h
    exact ⟨hs.answered, hs.inTest.platform, hs.inTest.stop⟩
  · intro s e g _ h
    cases h

/-- Behind the `setjmp` of the runner. -/
theorem settles_setjmpRunner {body : AM (Int × Ending)}
    (hbody : Ensures (TestReady platform) body (fun _ => BetweenTests platform)
      (fun e s => LeftBy platform [] s e)) :
    Settles platform (TestReady platform)
      (setjmpRunner body fun reason => library (runAfterLongjmp reason))
      (fun r s => TestJudged platform r.1 s) where
  ok := by
    intro s s' r hs h
    unfold setjmpRunner at h
    split at h
    next r' s₁ hrun =>
      cases h
      exact .settled (hbody.ok hs hrun)
    next reason s₁ hrun =>
      obtain ⟨rc, ending⟩ := r
      obtain ⟨g, hg, rfl⟩ := library_ok h
      obtain ⟨-, hend⟩ := runAfterLongjmp_ok hg
      cases hbody.error hs hrun with
      | failed hevents hbefore hflag hmessage hinTest =>
          rcases hend with ⟨-, rfl, rfl⟩ | ⟨hstop, -, -⟩
          · exact .failing hevents hbefore hflag rfl hmessage hinTest.platform hinTest.stop
          · cases hinTest.stop.symm.trans hstop
      | other hanswered hplatform =>
          rcases hend with ⟨hstop, -, rfl⟩ | ⟨-, -, hi⟩
          · exact .settled ⟨hanswered, hplatform, hstop⟩
          · obtain ⟨_, _, _, _, rfl⟩ := hi
            exact .settled ⟨hanswered, hplatform, rfl⟩
    next e s₁ hne hrun => cases h
    next target s₁ hrun => cases h
  error := by
    intro s s' e hs h
    unfold setjmpRunner at h
    split at h
    next r s₁ hrun => cases h
    next reason s₁ hrun =>
      obtain ⟨exit, g, hg, -, -⟩ := library_error h
      exact absurd hg (runAfterLongjmp_ne_error _ _ _ _)
    next e' s₁ hne hrun =>
      cases h
      cases hbody.error hs hrun with
      | failed => exact absurd rfl (hne .fail)
      | aborted hevents hbefore hflag habort =>
          dsimp only [AssertState.ended]
          rw [hevents]
          refine hbefore.answer (by simp) ⟨fun _ => ?_, fun hset => ?_⟩
          · exact .inr ⟨habort, List.prefix_rfl⟩
          · cases hflag.symm.trans hset
      | other hanswered _ => exact hanswered.concat (by simp)
    next target s₁ hrun =>
      cases h
      cases hbody.error hs hrun with
      | jumped hevents hbefore hflag hblocks =>
          dsimp only [AssertState.ended]
          rw [hevents]
          refine hbefore.answer (by simp) ⟨fun hno => ?_, fun _ _ _ hstack => ?_⟩
          · cases hflag.symm.trans hno
          · rw [List.map_eq_nil_iff.mp hblocks] at hstack
            cases hstack

/-- The end of a test answers the assertion that failed it. -/
theorem TestJudged.ends {rc : Int} {s : AssertState} (h : TestJudged platform rc s) :
    BetweenTests platform
      { s with events := s.events ++ [.testEnd rc s.globals.cmErrorMessage] } := by
  cases h with
  | settled hbetween =>
      exact ⟨hbetween.answered.concat (by simp), hbetween.platform, hbetween.stop⟩
  | failing hevents hbefore hflag hrc hmessage hplatform hstop =>
      refine ⟨?_, hplatform, hstop⟩
      dsimp only
      rw [hevents, hrc, hmessage]
      refine hbefore.answer (by simp) ⟨fun _ => .inl List.prefix_rfl, fun hset => ?_⟩
      cases hflag.symm.trans hset

/-- A computation of the library between the tests. -/
theorem settles_library {β : Type} {x : CM β} (hx : ∀ g b g', x g = .ok b g' →
      g'.platform = g.platform ∧ g'.globalStopTest = g.globalStopTest) :
    Settles platform (BetweenTests platform) (library x) (fun _ => BetweenTests platform) := by
  refine ensures_library ?_ fun s e g hs _ => hs.answered
  intro s b g hs h
  obtain ⟨hplatform, hstop⟩ := hx _ _ _ h
  exact ⟨hs.answered, hplatform.trans hs.platform, hstop.trans hs.stop⟩

/-- **A test**, from a state between the tests to the next one. -/
theorem settles_runAssertTest (functionName : CString) (body : TestBody) :
    Settles platform (BetweenTests platform) (runAssertTest functionName body)
      (fun _ => BetweenTests platform) := by
  have hcheckPoint : Settles platform (BetweenTests platform) (library checkPointAllocatedBlocks)
      (fun _ => BetweenTests platform) := by
    refine settles_library fun g node g' h => ?_
    obtain ⟨_, _, _, _, rfl⟩ := prints_checkPointAllocatedBlocks.ok h
    exact ⟨rfl, rfl⟩
  have hinitialize : Settles platform (BetweenTests platform) (library initializeTesting)
      (fun _ => BetweenTests platform) := by
    refine settles_library fun g u g' h => ?_
    cases h
    exact ⟨rfl, rfl⟩
  have hrunning : Settles platform (BetweenTests platform)
      (library (modify fun s => { s with globalRunningTest := true }))
      (fun _ => TestReady platform) := by
    refine ensures_library ?_ fun s e g hs _ => hs.answered
    intro s b g hs h
    cases h
    exact ⟨hs.answered, hs.platform, rfl, hs.stop⟩
  have hteardown : ∀ rc, Settles platform (TestJudged platform rc) (library teardownTesting)
      (fun _ => TestJudged platform rc) := by
    intro rc
    refine ensures_library ?_ ?_
    · intro s b g hs h
      cases (teardownTesting_apply s.globals).symm.trans h
      cases hs with
      | settled hbetween =>
          exact .settled ⟨hbetween.answered, hbetween.platform, hbetween.stop⟩
      | failing hevents hbefore hflag hrc hmessage hplatform hstop =>
          exact .failing hevents hbefore hflag hrc hmessage hplatform hstop
    · intro s e g _ h
      cases (teardownTesting_apply s.globals).symm.trans h
  unfold runAssertTest
  exact hcheckPoint.bind fun checkPoint => hinitialize.bind fun _ => hrunning.bind fun _ =>
    (settles_setjmpRunner (executes_body functionName checkPoint body)).bind fun r =>
      (hteardown r.1).bind fun _ => (Ensures.modify fun _ => TestJudged.ends).bind fun _ =>
        Ensures.pure fun _ hs => hs

theorem settles_runAssertTests (tests : List (CString × TestBody)) :
    Settles platform (BetweenTests platform) (runAssertTests tests)
      (fun _ => BetweenTests platform) := by
  have hclear (f : Globals → Globals) (hf : ∀ g, (f g).platform = g.platform ∧
      (f g).globalStopTest = g.globalStopTest) :
      Settles platform (BetweenTests platform) (library (modify f))
        (fun _ => BetweenTests platform) := by
    refine settles_library fun g u g' h => ?_
    cases h
    exact hf g
  induction tests with
  | nil => exact Ensures.pure fun _ hs => hs
  | cons test rest ih =>
      have hrest : ∀ rc : Int, Settles platform (BetweenTests platform) (do
          library (modify fun s => { s with cmErrorMessage := none })
          let rcs ← runAssertTests rest
          return rc :: rcs) (fun _ => BetweenTests platform) := fun rc =>
        (hclear (fun g => { g with cmErrorMessage := none }) fun _ => ⟨rfl, rfl⟩).bind fun _ =>
          ih.bind fun _ => Ensures.pure fun _ hs => hs
      exact (settles_runAssertTest test.1 test.2).bind fun rc => Ensures.ite
        ((hclear (fun g => { g with globalSkipTest := false }) fun _ => ⟨rfl, rfl⟩).bind fun _ =>
          hrest rc) (hrest rc)

/-- **Where a failed `mock_assert` goes**, in every run of any number of tests. -/
theorem answered_runAssertTests (platform : Platform) (tests : List (CString × TestBody)) :
    AllAnswered platform (final (runAssertTests tests (AssertState.initial platform))).events :=
  (settles_runAssertTests tests).final (fun _ _ hs => hs.answered) (fun _ _ hs => hs)
    ⟨allAnswered_nil platform, rfl, rfl⟩

end Tests

/-! ### When expected assertions are caught -/

/-- **When expected assertions are caught.**  In every run of any number of tests, however it ends,
a failed `mock_assert` returns to the innermost block being executed or, if there is none, fails its
test, and every test starts with the flag cleared, exactly when no `mock_assert` fails in a block in
which another one ended and no test starts after one that was left in a block in which none did. -/
theorem expected_asserts_caught_iff (platform : Platform) (tests : List (CString × TestBody)) :
    AllCaught platform (final (runAssertTests tests (AssertState.initial platform))).events ↔
      AllAllowed (final (runAssertTests tests (AssertState.initial platform))).events := by
  have hanswered := answered_runAssertTests platform tests
  have hreads := @flag_of_armed platform tests
  revert hanswered hreads
  generalize (final (runAssertTests tests (AssertState.initial platform))).events = events
  intro hanswered hreads
  constructor
  · intro hcaught before
    -- the events before an event are allowed, so it read the variables of the armed block
    induction hn : before.length using Nat.strong_induction_on generalizing before with
    | _ n ih =>
        intro e after hsplit
        have hbefore : AllAllowed before := by
          rintro first e' mid rfl
          exact ih first.length (by simp [← hn]) first rfl e' (mid ++ e :: after) (by simp [hsplit])
        have hread := hreads hsplit hbefore
        have hhere := hcaught before e after hsplit
        cases e with
        | testStart globalExpectingAssert => exact armed_eq_none_iff.mp (hread.mp hhere)
        | assertFailed call =>
            intro block rest hstack
            rw [hstack] at hread hhere
            exact ((hanswered before _ after hsplit).1 (flagged_eq_none_iff.mp hread)).not_returnsTo
              hhere
        | _ => trivial
  · intro hallowed before e after hsplit
    have hread := hreads hsplit (hallowed.of_prefix ⟨e :: after, hsplit.symm⟩)
    have hhere := hallowed before e after hsplit
    cases e with
    | testStart globalExpectingAssert => exact hread.mpr (armed_eq_none_iff.mpr hhere)
    | assertFailed call =>
        obtain ⟨hfails, hreturns⟩ := hanswered before _ after hsplit
        match hstack : nesting before with
        | [] =>
            rw [hstack] at hread
            exact hfails (flagged_eq_none_iff.mp hread)
        | (block, true) :: rest => exact absurd hstack (hhere block rest)
        | (block, false) :: rest =>
            rw [hstack] at hread
            obtain ⟨hflag, rfl⟩ := flagged_eq_some_iff.mp hread
            exact hreturns hflag false rest hstack
    | _ => trivial

/-- A test that fails inside a block, and one whose assertion fails outside of any. -/
def staleFlagTests : List (CString × TestBody) :=
  [("first".toList, .expectAssertFailure (.fail "t.c".toList 10 .done) "f()".toList "t.c".toList 10
    .done),
   ("second".toList, .mockAssert false "x".toList "t.c".toList 20 .done)]

/-- The events of the two. -/
def staleFlagEvents : List AssertEvent :=
  [.testStart false, .blockStart 1,
    .testEnd (-1) (some "[   LINE   ] --- t.c:10: error: Failure!".toList),
    .testStart true,
    .assertFailed {
      expression := "x".toList
      file := "t.c".toList
      line := 20
      globalExpectingAssert := true
      globalExpectAssertEnv := 1
      formats := cmOutputStandard
      cmErrorMessage := none },
    .processEnd .undefined]

/-- The second test starts with the flag set, and its assertion jumps into the first: no block is
returned to, and the test does not end. -/
theorem stale_flag_jumps :
    (final (runAssertTests staleFlagTests (AssertState.initial .lp64))).events = staleFlagEvents ∧
      ¬AllCaught .lp64 (final (runAssertTests staleFlagTests (AssertState.initial .lp64))).events :=
    by
  have hevents : (final (runAssertTests staleFlagTests (AssertState.initial .lp64))).events =
      staleFlagEvents := by
    decide +kernel
  refine ⟨hevents, ?_⟩
  rw [hevents]
  intro h
  have hassert : FailsTest .lp64 _ _ := h (staleFlagEvents.take 4) (.assertFailed _) _ rfl
  rcases hassert with hpre | ⟨habort, -⟩
  · exact absurd hpre (by decide)
  · exact absurd habort (by decide)

end Cmocka
