import Cmocka.Checks.Verdicts

/-!
# Checks — test functions with assertions

An assertion that holds does nothing, and one that does not ends the test by `_fail`.  So a test
function with assertions behaves as one without: the calls up to the first assertion that does not
hold, and there its error and `_fail` (`TestText.exec_script`).
-/

namespace Cmocka

open Runs

/-! ### Assertions as calls -/

/-- The statements as a script: an assertion that holds is no call at all, and the first that does
not is the end. -/
def scriptOf (p : Platform) (output : BitVec 32) (ending : ScriptEnd) : List Statement → Script
  | [] => ⟨[], ending⟩
  | .call op :: statements =>
      let script := scriptOf p output ending statements
      ⟨op :: script.ops, script.ending⟩
  | .assertion a file line :: statements =>
      if a.Holds then scriptOf p output ending statements
      else ⟨(a.error p output).map .printError, .fail file line⟩

/-- The test function as a script. -/
def TestText.script (p : Platform) (output : BitVec 32) (text : TestText) : Script :=
  scriptOf p output text.ending text.statements

theorem execOps_printError (texts : List CString) (s : Globals) :
    execOps (texts.map .printError) s = .ok () (s.printed texts) := by
  induction texts generalizing s with
  | nil => rfl
  | cons text texts ih => exact ih _

/-- Printing the error of an assertion and failing is what the assertion does. -/
theorem printed_fail_apply (texts : List CString) (file : CString) (line : Int) (s : Globals) :
    Script.exec ⟨texts.map .printError, .fail file line⟩ s =
      .error (s.exitOf .fail)
        (s.asked.printed (texts ++ failureTexts s.output file line)) := by
  refine (bind_of_ok (execOps_printError texts s) _).trans ?_
  refine (fail_apply file line _).trans ?_
  rw [printed_asked, printed_output, printed_exitOf, printed_append]

/-- The size of every area compared is one the platform has. -/
def StatementsFit (p : Platform) (statements : List Statement) : Prop :=
  ∀ a file line, .assertion a file line ∈ statements → a.Fits p

theorem statementsFit_cons {p : Platform} {statement : Statement} {statements : List Statement}
    (h : StatementsFit p (statement :: statements)) : StatementsFit p statements :=
  fun a file line ha => h a file line (List.mem_cons_of_mem _ ha)

/-- From any state with the formats, the statements and the ending are the script. -/
theorem execStatements_script {p : Platform} {output : BitVec 32} (ending : ScriptEnd)
    {statements : List Statement} (hfit : StatementsFit p statements) {s : Globals}
    (hp : s.platform = p) (ho : s.output = output) :
    (execStatements statements >>= fun _ => ending.exec) s =
      (scriptOf p output ending statements).exec s := by
  induction statements generalizing s with
  | nil => rfl
  | cons statement statements ih =>
      have hrest := fun {s} => ih (s := s) (statementsFit_cons hfit)
      rw [execStatements, bind_assoc]
      cases statement with
      | call op =>
          rw [Statement.exec, scriptOf, Script.exec, execOps, bind_assoc]
          cases hop : op.exec s with
          | error e s₁ => rw [bind_of_error hop, bind_of_error hop]
          | ok u s₁ =>
              -- the call may have asked for the formats, but not changed them
              have hsame := steady_op op s
              rw [hop] at hsame
              rw [bind_of_ok hop, bind_of_ok hop]
              exact hrest (hsame.platform.trans hp) (hsame.output.trans ho)
      | assertion a file line =>
          have hfits : a.Fits s.platform := hp ▸ hfit a file line List.mem_cons_self
          have hexec := Assertion.exec_eq hfits file line
          rw [Statement.exec, scriptOf]
          by_cases ha : a.Holds
          · rw [if_pos ha] at hexec
            rw [if_pos ha, bind_of_ok hexec]
            exact hrest hp ho
          · rw [if_neg ha] at hexec
            rw [if_neg ha, bind_of_error hexec, printed_fail_apply, hp, ho]

/-- **A test function with assertions behaves as its script**, in every state of a process with the
formats the script was made for. -/
theorem TestText.exec_script {text : TestText} {s : Globals}
    (hfit : StatementsFit s.platform text.statements) :
    text.exec s = (text.script s.platform s.output).exec s :=
  execStatements_script text.ending hfit rfl rfl

/-- Two stores around an assertion that holds and one that does not. -/
def unequalText : TestText where
  statements := [.call (.storeState 7), .assertion (.memoryEqual 1 #v[5] #v[5]) "t.c".toList 5,
    .assertion (.intEqual 1 2) "t.c".toList 6, .call (.storeState 8)]
  ending := .ret 0

theorem exec_unequalText :
    StatementsFit Platform.lp64 unequalText.statements ∧
      unequalText.exec (.initial .lp64) =
        Script.exec ⟨[.storeState 7, .printError "1 != 2\n".toList], .fail "t.c".toList 6⟩
          (.initial .lp64) := by
  have hfit : StatementsFit Platform.lp64 unequalText.statements := by
    rintro a file line ha
    simp only [unequalText, List.mem_cons, List.not_mem_nil, or_false] at ha
    rcases ha with ha | ha | ha | ha <;> cases ha
    · exact (by decide : 1 + 16 < Platform.lp64.sizeLimit)
    · trivial
  exact ⟨hfit, TestText.exec_script hfit⟩

end Cmocka
