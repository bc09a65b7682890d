import Cmocka.Runner.Summary

/-!
# Report — the TAP stream

What a group prints to `stdout` in the TAP format after its plan: for each test a result line, for a
failed test its message as comments, for a test that could not be run its message on the result
line and whatever lines follow it, and the summary, a comment up to the first newline in the name of
the group.  The stream is well formed exactly when the messages of the tests that could not be run
and the name of the group go on with comments only, and the tests can be numbered by an
`unsigned` (`tap_stream_well_formed_iff`).
-/

namespace Cmocka

open Runs

/-! ### Lines -/

/-- The lines of a text that ends with a newline. -/
def printedLines (text : CString) : List CString := (text.splitOn '\n').dropLast

/-- A line that starts with `#`. -/
def isComment (line : CString) : Bool := line.head? == some '#'

/-- The lines that are not comments. -/
def plainLines (lines : List CString) : List CString := lines.filter fun line => !isComment line

/-- A line that starts with `ok k` or `not ok k`. -/
def ResultLine (k : Nat) (line : CString) : Prop :=
  "ok ".toList ++ (fmtZu k ++ " ".toList) <+: line ∨
    "not ok ".toList ++ (fmtZu k ++ " ".toList) <+: line

/-- The lines are a result line for each of `1..n`, in order, and otherwise comments. -/
def TapWellFormed (n : Nat) (lines : List CString) : Prop :=
  List.Forall₂ ResultLine (List.range' 1 n) (plainLines lines)

/-- What comes after the first line of a text are comments. -/
def ContinuesWithComments (text : CString) : Prop :=
  ∀ line ∈ (text.splitOn '\n').tail, isComment line = true

theorem plainLines_append (l l' : List CString) :
    plainLines (l ++ l') = plainLines l ++ plainLines l' := List.filter_append _ _

theorem plainLines_cons_comment {line : CString} (h : isComment line = true) (l : List CString) :
    plainLines (line :: l) = plainLines l := by
  simp [plainLines, h]

theorem plainLines_cons_plain {line : CString} (h : isComment line = false) (l : List CString) :
    plainLines (line :: l) = line :: plainLines l := by
  simp [plainLines, h]

theorem plainLines_eq_nil_iff {l : List CString} :
    plainLines l = [] ↔ ∀ line ∈ l, isComment line = true := by
  simp [plainLines]

/-- The lines of a text and of what is printed after its newline. -/
theorem printedLines_append (text rest : CString) :
    printedLines (text ++ '\n' :: rest) = text.splitOn '\n' ++ printedLines rest := by
  unfold printedLines
  rw [List.splitOn_append_cons_self, List.dropLast_append_of_ne_nil (List.splitOn_ne_nil _ _)]

/-- One line. -/
theorem printedLines_cons {line : CString} (h : '\n' ∉ line) (rest : CString) :
    printedLines (line ++ '\n' :: rest) = line :: printedLines rest := by
  rw [printedLines_append, List.splitOn_eq_singleton h]
  rfl

/-- A text after the beginning of a line. -/
theorem splitOn_append_of_not_mem {line : CString} (h : '\n' ∉ line) (text : CString) :
    ∃ first, (line ++ text).splitOn '\n' = (line ++ first) :: (text.splitOn '\n').tail := by
  induction line with
  | nil =>
      obtain ⟨first, rest, hsplit⟩ := List.exists_cons_of_ne_nil (List.splitOn_ne_nil '\n' text)
      exact ⟨first, by rw [List.nil_append, List.nil_append, hsplit, List.tail_cons]⟩
  | cons c line ih =>
      rw [List.mem_cons, not_or] at h
      obtain ⟨first, hfirst⟩ := ih h.2
      refine ⟨first, ?_⟩
      rw [List.cons_append, List.splitOn_cons_eq_if_modifyHead, hfirst,
        if_neg (by simpa using Ne.symm h.1)]
      rfl

/-! ### Result lines -/

theorem ResultLine.not_comment {k : Nat} {line : CString} (h : ResultLine k line) :
    isComment line = false := by
  rcases h with ⟨rest, rfl⟩ | ⟨rest, rfl⟩
  · rfl
  · rfl

/-- What comes before the first blank. -/
theorem eq_of_prefix_blank {a b line : CString} (ha : ' ' ∉ a) (hb : ' ' ∉ b)
    (h₁ : a ++ " ".toList <+: line) (h₂ : b ++ " ".toList <+: line) : a = b := by
  obtain ⟨r₁, h₁⟩ := h₁
  obtain ⟨r₂, h₂⟩ := h₂
  have h : a ++ ' ' :: r₁ = b ++ ' ' :: r₂ := by
    have := h₁.trans h₂.symm
    simpa using this
  have hsplit := congrArg (List.splitOn ' ') h
  rw [List.splitOn_append_cons_self_of_not_mem ha, List.splitOn_append_cons_self_of_not_mem hb]
    at hsplit
  exact (List.cons.inj hsplit).1

theorem fmtZu_inj {m n : Nat} (h : fmtZu m = fmtZu n) : m = n := by
  have hvalue := congrArg (fun l => Nat.ofDigitChars 10 l 0) h
  simpa only [fmtZu, Nat.ofDigitChars_ten_toDigits] using hvalue

/-- A line is the result of one test only. -/
theorem ResultLine.unique {j k : Nat} {line : CString} (hj : ResultLine j line)
    (hk : ResultLine k line) : j = k := by
  have hblank (n : Nat) : ' ' ∉ fmtZu n := not_mem_fmtZu rfl n
  have hsame (word : CString) (h₁ : word ++ (fmtZu j ++ " ".toList) <+: line)
      (h₂ : word ++ (fmtZu k ++ " ".toList) <+: line) : j = k := by
    obtain ⟨rest, rfl⟩ := (List.prefix_append word _).trans h₁
    rw [List.prefix_append_right_inj] at h₁ h₂
    exact fmtZu_inj (eq_of_prefix_blank (hblank j) (hblank k) h₁ h₂)
  rcases hj with h₁ | h₁ <;> rcases hk with h₂ | h₂
  · exact hsame _ h₁ h₂
  · obtain ⟨r₁, rfl⟩ := h₁
    obtain ⟨r₂, h₂⟩ := h₂
    exact absurd (show some 'n' = some 'o' from congrArg List.head? h₂) (by decide)
  · obtain ⟨r₁, rfl⟩ := h₁
    obtain ⟨r₂, h₂⟩ := h₂
    exact absurd (show some 'o' = some 'n' from congrArg List.head? h₂) (by decide)
  · exact hsame _ h₁ h₂

/-! ### The report on a test -/

/-- `err_msg` of a test that could not be run. -/
def errMsg (message : Option CString) : CString :=
  ("Could not run test: ".toList ++ fmtS message).take 2047

/-- The lines a test prints after its result line, but for comments it makes itself. -/
def laterLines (status : CMUnitTestStatus) (message : Option CString) : List CString :=
  if status = .error then ((errMsg message).splitOn '\n').tail else []

/-- The lines a failed test splits its message into. -/
theorem newline_not_mem_tapLines {q p line : CString} (hq : '\n' ∉ q) (h : line ∈ tapLines q p) :
    '\n' ∉ line := by
  induction p generalizing q with
  | nil =>
      unfold tapLines at h
      split at h
      · cases h
      · cases List.mem_singleton.mp h
        exact hq
  | cons c p ih =>
      unfold tapLines at h
      split at h
      · rcases List.mem_cons.mp h with rfl | h
        · exact hq
        · exact ih List.not_mem_nil h
      · rename_i hc
        refine ih ?_ h
        rw [List.mem_append, List.mem_singleton, not_or]
        exact ⟨hq, Ne.symm hc⟩

theorem plainLines_comments {qs : List CString} (h : ∀ q ∈ qs, '\n' ∉ q) (rest : CString) :
    plainLines (printedLines ((qs.flatMap fun q => "# ".toList ++ q ++ "\n".toList) ++ rest)) =
      plainLines (printedLines rest) := by
  induction qs with
  | nil => rfl
  | cons q qs ih =>
      obtain ⟨hq, hqs⟩ := List.forall_mem_cons.mp h
      have hline : '\n' ∉ "# ".toList ++ q := by
        rw [List.mem_append, not_or]
        exact ⟨by decide, hq⟩
      have htext : ((q :: qs).flatMap fun q => "# ".toList ++ q ++ "\n".toList) ++ rest =
          ("# ".toList ++ q) ++
            '\n' :: ((qs.flatMap fun q => "# ".toList ++ q ++ "\n".toList) ++ rest) := by
        simp [List.flatMap_cons]
      rw [htext, printedLines_cons hline, plainLines_cons_comment rfl, ih hqs]

/-- The result line `ok k` or `not ok k` of a test, and what is printed after its newline. -/
theorem plainLines_result {word middle name : CString}
    (hword : word = "ok ".toList ∨ word = "not ok ".toList)
    (hmiddle : '\n' ∉ middle) (hname : '\n' ∉ name) (number : Nat) (rest : CString) :
    ∃ line, ResultLine number line ∧
      plainLines (printedLines
        (word ++ (fmtZu number ++ " ".toList) ++ (middle ++ name) ++ '\n' :: rest)) =
        line :: plainLines (printedLines rest) := by
  have hresult : ResultLine number (word ++ (fmtZu number ++ " ".toList) ++ (middle ++ name)) := by
    rcases hword with rfl | rfl
    · exact .inl (List.prefix_append _ _)
    · exact .inr (List.prefix_append _ _)
  have hnewline : '\n' ∉ word := by
    rcases hword with rfl | rfl
    · decide
    · decide
  have hline : '\n' ∉ word ++ (fmtZu number ++ " ".toList) ++ (middle ++ name) := by
    simp only [List.mem_append, not_or]
    exact ⟨⟨hnewline, not_mem_fmtZu rfl _, by decide⟩, hmiddle, hname⟩
  refine ⟨_, hresult, ?_⟩
  rw [printedLines_cons hline, plainLines_cons_plain hresult.not_comment]

section Tests

variable {name : CString} (hname : '\n' ∉ name) (k : Nat) (message : Option CString) (rest : CString)

include hname

theorem testSuccess_lines :
    ∃ line, ResultLine (toUnsigned k) line ∧
      plainLines (printedLines (cmprintfTap .testSuccess k name message ++ rest)) =
        line :: plainLines (printedLines rest) := by
  obtain ⟨line, hline, hlines⟩ := plainLines_result (.inl rfl) (show '\n' ∉ "- ".toList by decide)
    hname (toUnsigned k) rest
  refine ⟨line, hline, ?_⟩
  rw [← hlines]
  unfold cmprintfTap
  generalize fmtZu (toUnsigned k) = number
  simp

theorem testSkipped_lines :
    ∃ line, ResultLine (toUnsigned k) line ∧
      plainLines (printedLines (cmprintfTap .testSkipped k name message ++ rest)) =
        line :: plainLines (printedLines rest) := by
  obtain ⟨line, hline, hlines⟩ := plainLines_result (.inl rfl)
    (show '\n' ∉ "# SKIP ".toList by decide) hname (toUnsigned k) rest
  refine ⟨line, hline, ?_⟩
  rw [← hlines]
  unfold cmprintfTap
  generalize fmtZu (toUnsigned k) = number
  simp

/-- The lines of the message of a failed test are comments. -/
theorem testFailure_lines :
    ∃ line, ResultLine (toUnsigned k) line ∧
      plainLines (printedLines (cmprintfTap .testFailure k name message ++ rest)) =
        line :: plainLines (printedLines rest) := by
  cases message with
  | none =>
      obtain ⟨line, hline, hlines⟩ := plainLines_result (.inr rfl)
        (show '\n' ∉ "- ".toList by decide) hname (toUnsigned k) rest
      refine ⟨line, hline, ?_⟩
      rw [← hlines]
      unfold cmprintfTap
      generalize fmtZu (toUnsigned k) = number
      simp
  | some message =>
      obtain ⟨line, hline, hlines⟩ := plainLines_result (.inr rfl)
        (show '\n' ∉ "- ".toList by decide) hname (toUnsigned k)
        (((tapLines [] message).flatMap fun q => "# ".toList ++ q ++ "\n".toList) ++ rest)
      rw [plainLines_comments fun q hq => newline_not_mem_tapLines List.not_mem_nil hq] at hlines
      refine ⟨line, hline, ?_⟩
      rw [← hlines]
      unfold cmprintfTap
      generalize fmtZu (toUnsigned k) = number
      simp

/-- The message of a test that could not be run goes on in the lines after the result line. -/
theorem testError_lines (text : CString) :
    ∃ line, ResultLine (toUnsigned k) line ∧
      plainLines (printedLines (cmprintfTap .testError k name (some text) ++ rest)) =
        line :: (plainLines (text.splitOn '\n').tail ++ plainLines (printedLines rest)) := by
  have hstart : '\n' ∉ "not ok ".toList ++ (fmtZu (toUnsigned k) ++ " ".toList) ++
      ("- ".toList ++ name ++ " ".toList) := by
    simp only [List.mem_append, not_or]
    exact ⟨⟨by decide, not_mem_fmtZu rfl _, by decide⟩, ⟨by decide, hname⟩, by decide⟩
  obtain ⟨first, hfirst⟩ := splitOn_append_of_not_mem hstart text
  have hresult : ResultLine (toUnsigned k) ("not ok ".toList ++ (fmtZu (toUnsigned k) ++
      " ".toList) ++ ("- ".toList ++ name ++ " ".toList) ++ first) := by
    refine .inr ?_
    rw [List.append_assoc]
    exact List.prefix_append _ _
  have htext : cmprintfTap .testError k name (some text) ++ rest =
      ("not ok ".toList ++ (fmtZu (toUnsigned k) ++ " ".toList) ++
        ("- ".toList ++ name ++ " ".toList) ++ text) ++ '\n' :: rest := by
    unfold cmprintfTap
    generalize fmtZu (toUnsigned k) = number
    simp [fmtS]
  refine ⟨_, hresult, ?_⟩
  rw [htext, printedLines_append, hfirst, plainLines_append,
    plainLines_cons_plain hresult.not_comment, List.cons_append]

end Tests

/-- The report on test `k`: its result line and, if it could not be run, the rest of its message. -/
theorem testReport_lines {rc : Int} {ts : CMUnitTestState}
    (hrc : (rc = 0 ∧ (ts.status = .passed ∨ ts.status = .skipped ∨ ts.status = .failed)) ∨
      (rc ≠ 0 ∧ ts.status = .error))
    (hname : '\n' ∉ ts.test.nameText) (k : Nat) (versionPrinted : Bool) (rest : CString) :
    ((testReport k rc ts).tap versionPrinted).2 = versionPrinted ∧
    ∃ line, ResultLine (toUnsigned k) line ∧
      plainLines (printedLines (((testReport k rc ts).tap versionPrinted).1 ++ rest)) =
        line :: (plainLines (laterLines ts.status ts.errorMessage) ++
          plainLines (printedLines rest)) := by
  rcases hrc with ⟨rfl, hstatus | hstatus | hstatus⟩ | ⟨hrc, hstatus⟩
  · rw [testReport, if_pos rfl, hstatus]
    exact ⟨rfl, testSuccess_lines hname k ts.errorMessage rest⟩
  · rw [testReport, if_pos rfl, hstatus]
    exact ⟨rfl, testSkipped_lines hname k ts.errorMessage rest⟩
  · rw [testReport, if_pos rfl, hstatus]
    exact ⟨rfl, testFailure_lines hname k ts.errorMessage rest⟩
  · rw [testReport, if_neg hrc, hstatus]
    exact ⟨rfl, testError_lines hname k rest (errMsg ts.errorMessage)⟩

/-! ### The reports on a group -/

/-- Only the reports print. -/
theorem tapOutput_filter (versionPrinted : Bool) (events : List Event) :
    tapOutput versionPrinted (events.filter Event.isReport) = tapOutput versionPrinted events := by
  induction events generalizing versionPrinted with
  | nil => rfl
  | cons e events ih =>
      cases he : e.isReport with
      | true =>
          rw [List.filter_cons_of_pos he]
          exact congrArg (_ ++ ·) (ih _)
      | false =>
          have hnone : e.tap versionPrinted = ([], versionPrinted) := by
            cases e <;> first | rfl | cases he
          rw [List.filter_cons_of_neg (by rw [he]; decide), ih, tapOutput, hnone]
          rfl

/-- What the reports on the tests print, before `events`: at least one line for each test, and no
more exactly when the messages go on with comments. -/
theorem testReports_lines {done : List (CMUnitTestState × Int)}
    (hdone : ∀ d ∈ done,
      ((d.2 = 0 ∧ (d.1.status = .passed ∨ d.1.status = .skipped ∨ d.1.status = .failed)) ∨
        (d.2 ≠ 0 ∧ d.1.status = .error)) ∧ '\n' ∉ d.1.test.nameText)
    (k : Nat) (versionPrinted : Bool) (events : List Event) :
    ∃ lines, plainLines (printedLines (tapOutput versionPrinted (testReports k done ++ events))) =
        lines ++ plainLines (printedLines (tapOutput versionPrinted events)) ∧
      done.length ≤ lines.length ∧
      (lines.length = done.length ↔
        ∀ d ∈ done, plainLines (laterLines d.1.status d.1.errorMessage) = []) ∧
      (lines.length = done.length →
        List.Forall₂ (fun k line => ResultLine (toUnsigned k) line) (List.range' k done.length)
          lines) := by
  induction done generalizing k with
  | nil => exact ⟨[], rfl, Nat.le_refl _, by simp, fun _ => .nil⟩
  | cons d done ih =>
      obtain ⟨⟨hrc, hname⟩, hrest⟩ := List.forall_mem_cons.mp hdone
      obtain ⟨lines, hlines, hle, hiff, hall⟩ := ih hrest (k + 1)
      obtain ⟨hversion, line, hresult, hline⟩ := testReport_lines hrc hname k versionPrinted
        (tapOutput versionPrinted (testReports (k + 1) done ++ events))
      let later := plainLines (laterLines d.1.status d.1.errorMessage)
      refine ⟨line :: (later ++ lines), ?_, ?_, ?_, ?_⟩
      · have htap : tapOutput versionPrinted (testReports k (d :: done) ++ events) =
            ((testReport k d.2 d.1).tap versionPrinted).1 ++
              tapOutput versionPrinted (testReports (k + 1) done ++ events) := by
          change _ ++ tapOutput ((testReport k d.2 d.1).tap versionPrinted).2 _ = _
          rw [hversion]
          rfl
        rw [htap, hline, hlines, List.cons_append, List.append_assoc]
      · simp only [List.length_cons, List.length_append]
        omega
      · rw [List.forall_mem_cons, ← hiff, ← List.length_eq_zero_iff]
        simp only [List.length_cons, List.length_append]
        change later.length + lines.length + 1 = done.length + 1 ↔ later.length = 0 ∧ _
        omega
      · intro hlen
        simp only [List.length_cons, List.length_append] at hlen
        have hnil : later = [] := List.length_eq_zero_iff.mp (by omega)
        rw [hnil, List.nil_append, List.length_cons, List.range'_succ]
        exact .cons hresult (hall (by omega))

/-- The summary of a group: a comment, and the rest of the name. -/
theorem groupFinish_lines (groupName : CString) (executed passed failed errors skippedTests : Nat)
    (tests : List (CString × CMUnitTestStatus × Option CString)) (versionPrinted : Bool) :
    plainLines (printedLines (tapOutput versionPrinted
      [.groupFinish groupName executed passed failed errors skippedTests tests])) =
      plainLines (groupName.splitOn '\n').tail := by
  let status := if passed + skippedTests = executed then "ok" else "not ok"
  have htext : tapOutput versionPrinted
      [.groupFinish groupName executed passed failed errors skippedTests tests] =
      ("# ".toList ++ status.toList ++ " - ".toList) ++ groupName ++ '\n' :: [] := by
    simp [tapOutput, Event.tap, cmprintfGroupFinishTap, status]
  have hstart : '\n' ∉ "# ".toList ++ status.toList ++ " - ".toList := by
    simp only [List.mem_append, not_or]
    refine ⟨⟨by decide, ?_⟩, by decide⟩
    by_cases h : passed + skippedTests = executed
    · simp [status, h]
    · simp [status, h]
  obtain ⟨first, hfirst⟩ := splitOn_append_of_not_mem hstart groupName
  rw [htext, printedLines_append, hfirst, plainLines_append, plainLines_cons_comment rfl]
  exact List.append_nil _

/-! ### The stream -/

theorem toUnsigned_of_lt {n : Nat} (h : n < 2 ^ 32) : toUnsigned n = n := Nat.mod_eq_of_lt h

theorem forall₂_number {n k : Nat} {lines : List CString} (hk : k + n ≤ 2 ^ 32)
    (h : List.Forall₂ (fun k line => ResultLine (toUnsigned k) line) (List.range' k n) lines) :
    List.Forall₂ ResultLine (List.range' k n) lines := by
  induction n generalizing k lines with
  | zero => simpa using h
  | succ n ih =>
      rw [List.range'_succ] at h ⊢
      cases h with
      | cons hline hrest =>
          rw [toUnsigned_of_lt (by omega)] at hline
          exact .cons hline (ih (by omega) hrest)

/-- Two descriptions of the same lines. -/
theorem forall₂_both {α β : Type} {R R' : α → β → Prop} {as : List α} {bs : List β}
    (h : List.Forall₂ R as bs) (h' : List.Forall₂ R' as bs) : ∀ a ∈ as, ∃ b, R a b ∧ R' a b := by
  induction h with
  | nil => simp
  | cons hab hrest ih =>
      cases h' with
      | cons hab' hrest' => exact List.forall_mem_cons.mpr ⟨⟨_, hab, hab'⟩, ih hrest'⟩

/-- Lines that are at least the result lines are just these when there are no more of them and
their numbers fit. -/
theorem forall₂_resultLine_iff {n : Nat} {lines later : List CString} (hle : n ≤ lines.length)
    (hall : lines.length = n →
      List.Forall₂ (fun k line => ResultLine (toUnsigned k) line) (List.range' 1 n) lines) :
    List.Forall₂ ResultLine (List.range' 1 n) (lines ++ later) ↔
      n < 2 ^ 32 ∧ lines.length = n ∧ later = [] := by
  constructor
  · intro h
    have hlen := h.length_eq
    rw [List.length_range', List.length_append] at hlen
    have hlines : lines.length = n := by omega
    have hlater : later = [] := List.length_eq_zero_iff.mp (by omega)
    rw [hlater, List.append_nil] at h
    refine ⟨?_, hlines, hlater⟩
    -- test `2 ^ 32` would be printed as test `0`
    by_contra hn
    obtain ⟨line, h₁, h₂⟩ := forall₂_both h (hall hlines) (2 ^ 32)
      (List.mem_range'_1.mpr ⟨by decide, by omega⟩)
    exact absurd (h₁.unique h₂) (by decide)
  · rintro ⟨hn, hlines, rfl⟩
    rw [List.append_nil]
    exact forall₂_number (by omega) (hall hlines)

/-- The entries of the array of tests, and the `rc` of each. -/
theorem paired_of_run {done : List CMUnitTestState} {records : List (TestRecord × Int)}
    {selected : List CMUnitTest} (htests : done.map CMUnitTestState.test = selected)
    (hnames : ∀ t ∈ selected, '\n' ∉ t.nameText)
    (hstatuses : done.map CMUnitTestState.status = records.map (·.1.status))
    (hrc : ∀ r ∈ records, (r.2 = 0 ∧ (r.1.status = .passed ∨ r.1.status = .skipped ∨
      r.1.status = .failed)) ∨ (r.2 ≠ 0 ∧ r.1.status = .error)) :
    ∀ d ∈ done.zip (records.map Prod.snd),
      ((d.2 = 0 ∧ (d.1.status = .passed ∨ d.1.status = .skipped ∨ d.1.status = .failed)) ∨
        (d.2 ≠ 0 ∧ d.1.status = .error)) ∧ '\n' ∉ d.1.test.nameText := by
  induction done generalizing records selected with
  | nil => simp
  | cons ts done ih =>
      cases records with
      | nil => simp
      | cons r records =>
          subst htests
          obtain ⟨hstatus, hstatuses⟩ := List.cons.inj hstatuses
          obtain ⟨hr, hrc⟩ := List.forall_mem_cons.mp hrc
          obtain ⟨hname, hnames⟩ := List.forall_mem_cons.mp hnames
          rw [List.map_cons, List.zip_cons_cons, List.forall_mem_cons]
          refine ⟨⟨?_, hname⟩, ih rfl hnames hstatuses hrc⟩
          rw [hstatus]
          exact hr

theorem laterLines_iff {status : CMUnitTestStatus} {message : Option CString} :
    plainLines (laterLines status message) = [] ↔
      (status = .error → ContinuesWithComments (errMsg message)) := by
  unfold laterLines
  by_cases h : status = .error
  · rw [if_pos h, plainLines_eq_nil_iff]
    exact ⟨fun hall _ => hall, fun hall => hall h⟩
  · rw [if_neg h]
    exact ⟨fun _ herror => absurd herror h, fun _ => rfl⟩

theorem forall_mem_zip {α β : Type} {as : List α} {bs : List β} (h : as.length = bs.length)
    {P : α → Prop} : (∀ d ∈ as.zip bs, P d.1) ↔ ∀ a ∈ as, P a := by
  have hfst : (as.zip bs).map Prod.fst = as := List.map_fst_zip (Nat.le_of_eq h)
  conv => rhs; rw [← hfst]
  rw [List.forall_mem_map]

/-- **When the TAP stream is well formed.**  In a group whose fixtures are absent or succeed, the
lines after the plan are the result lines of the tests, in order, and comments, exactly when the
number of tests is an `unsigned` and the messages of the tests that could not be run, and the name
of the group, go on with comments after their first line. -/
theorem tap_stream_well_formed_iff (platform : Platform) (before : List Group) (rcs : List Int)
    (s s' : Globals) (g : Group)
    (hbefore : runGroups before (Globals.initial platform) = .ok rcs s)
    (hallocated : g.allocated = true)
    (h : (∃ rc, g.run s = .ok rc s') ∨ g.run s = .error .exitFailure s')
    (hnames : ∀ t ∈ g.tests, '\n' ∉ t.nameText) :
    ∃ events executed passed failed errors skipped tests, s'.trace = s.trace ++ events ∧
      (events.filter Event.isReport).getLast? =
        some (.groupFinish g.name executed passed failed errors skipped tests) ∧
      (succeeded (g.setupRun events) = true → succeeded (g.teardownRun events) = true →
        ∀ versionPrinted, ∃ stream,
          let n := (g.tests.filter (isSelected g.testFilter g.skipFilter)).length
          tapOutput versionPrinted events = (cmprintfGroupStartTap versionPrinted n).1 ++ stream ∧
          (TapWellFormed n (printedLines stream) ↔
            n < 2 ^ 32 ∧
            (∀ t ∈ tests, t.2.1 = .error → ContinuesWithComments (errMsg t.2.2)) ∧
            ContinuesWithComments g.name)) := by
  obtain ⟨setup, records, teardown, skip, events, hg, htr, -, done, between, reports, hreports,
    htests, hran, -, hquiet⟩ := Group.run_ended hbefore hallocated h
  refine ⟨events, _, _, _, _, _, _, htr, by rw [hreports, List.getLast?_append]; rfl, ?_⟩
  intro hsetup hteardown versionPrinted
  have hsetup : setup.rc = 0 := of_decide_eq_true (hg.fixtures.1.symm.trans hsetup)
  have hteardown : teardown.rc = 0 := of_decide_eq_true (hg.fixtures.2.symm.trans hteardown)
  obtain ⟨hstatuses, rfl⟩ := hran hsetup
  obtain rfl := hquiet hteardown
  obtain ⟨-, hlength, -⟩ := hg.counted
  have hdone : done.length = (records.map Prod.snd).length := by
    rw [List.length_map, hlength hsetup, ← htests, List.length_map]
  have hlen : (done.zip (records.map Prod.snd)).length =
      (g.tests.filter (isSelected g.testFilter g.skipFilter)).length := by
    rw [List.length_zip, ← hdone, Nat.min_self, ← htests, List.length_map]
  let totals := groupTotals setup.rc records
  let finish : Event := .groupFinish g.name totals.executed totals.passed totals.failed totals.errors
    totals.skipped (done.map fun ts => (ts.test.nameText, ts.status, ts.errorMessage))
  -- each test prints its result line, and a message may print more lines behind it
  obtain ⟨lines, hlines, hle, hiff, hall⟩ := testReports_lines
    (paired_of_run htests (fun t ht => hnames t (List.mem_of_mem_filter ht)) hstatuses
      hg.status_of_rc) 1 true [finish]
  rw [hlen] at hle hiff hall
  refine ⟨tapOutput true (testReports 1 (done.zip (records.map Prod.snd)) ++ [finish]), ?_, ?_⟩
  · rw [← tapOutput_filter, hreports, List.append_nil, List.cons_append]
    rfl
  · unfold TapWellFormed
    rw [hlines, groupFinish_lines, forall₂_resultLine_iff hle hall, hiff, plainLines_eq_nil_iff]
    simp only [laterLines_iff]
    rw [List.forall_mem_map]
    exact and_congr_right fun _ => and_congr_left fun _ => forall_mem_zip hdone
      (P := fun ts => ts.status = .error → ContinuesWithComments (errMsg ts.errorMessage))

/-- One failing test: its message is a comment. -/
theorem failing_test_stream :
    ∃ s' stream, failingTest.run (Globals.initial .lp64) = .ok 1 s' ∧
      tapOutput false s'.trace = (cmprintfGroupStartTap false 1).1 ++ stream ∧
      TapWellFormed 1 (printedLines stream) := by
  have h : failingTest.run (Globals.initial .lp64) =
      .ok 1 (final (failingTest.run (Globals.initial .lp64))) :=
    eq_ok_of_value (by decide +kernel)
  have hreport : ((final (failingTest.run (Globals.initial .lp64))).trace.filter
      Event.isReport).getLast? = some (.groupFinish "tests".toList 1 0 1 0 0
        [("failing".toList, .failed, some "[   LINE   ] --- t.c:10: error: Failure!".toList)]) := by
    decide +kernel
  obtain ⟨events, executed, passed, failed, errors, skipped, tests, htr, hlast, hstream⟩ :=
    tap_stream_well_formed_iff .lp64 [] [] _ _ failingTest rfl rfl (.inl ⟨1, h⟩) (by decide +kernel)
  have hevents : (final (failingTest.run (Globals.initial .lp64))).trace = events := htr
  rw [← hevents] at hlast hstream
  cases hreport.symm.trans hlast
  obtain ⟨stream, hplan, hiff⟩ := hstream (by decide +kernel) (by decide +kernel) false
  refine ⟨_, stream, h, hplan, hiff.mpr ⟨by decide +kernel, ?_, ?_⟩⟩
  · intro t ht herror
    cases List.mem_singleton.mp ht
    cases herror
  · unfold ContinuesWithComments
    decide +kernel

/-- A process started with `CMOCKA_MESSAGE_OUTPUT=TAP`. -/
def Platform.tap : Platform := { Platform.lp64 with cmockaMessageOutput := some "TAP".toList }

/-- A test whose setup prints a line and fails. -/
def unrunnableTest : Group :=
  .ofTests [
    { name := some "unrunnable".toList
      testFunc := some (.ending 1 (.ret 0))
      setupFunc := some ⟨2, ⟨[.printError "1 != 2\n".toList], .fail "t.c".toList 10⟩⟩
      teardownFunc := none
      initialState := 0 }]

/-- The second line of its message is not a comment. -/
theorem unrunnable_test_stream :
    ∃ s' stream, unrunnableTest.run (Globals.initial .tap) = .ok 1 s' ∧
      tapOutput false s'.trace = (cmprintfGroupStartTap false 1).1 ++ stream ∧
      ¬TapWellFormed 1 (printedLines stream) := by
  let first := "not ok 1 - unrunnable Could not run test: 1 != 2\n".toList
  let second := "t.c:10: error: Failure!Test setup failed\n".toList
  refine ⟨_, first ++ second ++ "# not ok - tests\n".toList, eq_ok_of_value (by decide +kernel),
    by decide +kernel, ?_⟩
  intro h
  exact absurd h.length_eq (by decide +kernel)

end Cmocka
