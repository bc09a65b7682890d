import Cmocka.Report.Replace
import Cmocka.Support.Splits

/-!
# Report — the XML files of a run

`cmprintf_group_finish_xml` is called once for each group, with the static flags `xml_printed` and
`file_append` kept from one call to the next.  The flags are shared by all files: a group that finds
its file there stops the declaration in every file created later, and once a file was created every
file that exists is appended to.  So the files a process creates have their declaration exactly when
they are all created before any group finds its file (`created_files_declared_iff`), and the files
from before the process keep their contents exactly when no group with such a file finishes after one
without (`existing_files_kept_iff`).
-/

namespace Cmocka

open Occurrence Splits

/-! ### Texts without the declaration -/

/-- The declaration line without its newline. -/
def xmlDeclarationText : CString := "<?xml version=\"1.0\" encoding=\"UTF-8\" ?>".toList

theorem xmlDeclaration_concat : xmlDeclaration = xmlDeclarationText ++ ['\n'] := by decide

/-- The declaration line without its first character. -/
def xmlDeclarationTail : CString := "?xml version=\"1.0\" encoding=\"UTF-8\" ?>\n".toList

theorem xmlDeclaration_cons : xmlDeclaration = '<' :: xmlDeclarationTail := by decide

/-- The declaration does not occur. -/
def Undeclared (text : CString) : Prop := ¬xmlDeclaration <:+: text

/-- A line and what follows it. -/
theorem Undeclared.append_line {x y : CString} (hx : Undeclared (x ++ ['\n'])) (hy : Undeclared y) :
    Undeclared (x ++ ['\n'] ++ y) := by
  intro h
  rw [xmlDeclaration_concat] at h
  rcases infix_append_last (by decide) h with h | h
  · exact hx h
  · exact hy h

/-- A text in which a character of the declaration is missing. -/
theorem undeclared_of_not_mem {c : Char} {text : CString} (hc : c ∈ xmlDeclaration) (h : c ∉ text) :
    Undeclared text := by
  intro hsub
  exact h (hsub.subset hc)

/-- The texts of the report itself have no question mark. -/
theorem undeclared_of_no_mark {text : CString} (h : '?' ∉ text) : Undeclared text :=
  undeclared_of_not_mem (by decide) h

/-- An element with a name: `start` up to the `t` of the tag, `tag` from there to the name, and the
other attributes, after the `t` of the first. -/
theorem undeclared_element {start tag name attributes : CString} (hstart : Undeclared start)
    (htag : '<' ∉ tag) (hname : Undeclared name) (hattributes : '<' ∉ attributes) :
    Undeclared (start ++ 't' :: (tag ++ (name ++ ("\" ".toList ++ 't' :: attributes)))) := by
  intro h
  rcases infix_append_cons (by decide) h with h | h
  · exact hstart h
  rw [xmlDeclaration_cons] at h
  have h := infix_of_append_left htag h
  rw [← xmlDeclaration_cons, ← List.append_assoc] at h
  rcases infix_append_cons (by decide) h with h | h
  · rw [xmlDeclaration_concat] at h
    have h := infix_of_append_right (by decide) h
    exact hname (xmlDeclaration_concat ▸ h)
  · exact undeclared_of_not_mem (by decide) hattributes h

/-- What `%.3f` prints: digits, a point, a sign, or `inf` and `nan`. -/
def PrintedFloat (text : CString) : Prop := ∀ c ∈ text, c ∈ "0123456789.-infa".toList

theorem PrintedFloat.not_mem {text : CString} (h : PrintedFloat text) : '<' ∉ text := by
  intro hmem
  exact absurd (h '<' hmem) (by decide)

/-- The attribute of every element that has a name. -/
theorem timeAttribute_split : "\" time=\"".toList = "\" ".toList ++ 't' :: "ime=\"".toList := rfl

theorem XmlItem.undeclared_testsuite {name time : CString} (hname : Undeclared name)
    (htime : PrintedFloat time) (tests failures errors skippedTests : Nat) :
    Undeclared (XmlItem.testsuite name time tests failures errors skippedTests).text := by
  have hsplit : "  <testsuite name=\"".toList = "  <".toList ++ 't' :: "estsuite name=\"".toList :=
    rfl
  unfold XmlItem.text
  rw [hsplit, timeAttribute_split]
  simp only [List.append_assoc, List.cons_append]
  refine undeclared_element (undeclared_of_no_mark (by decide)) (by decide) hname ?_
  simp only [List.mem_append, not_or]
  exact ⟨by decide, htime.not_mem, by decide, not_mem_fmtZu rfl _, by decide, not_mem_fmtZu rfl _,
    by decide, not_mem_fmtZu rfl _, by decide, not_mem_fmtZu rfl _, by decide⟩

theorem XmlItem.undeclared_testcase {name time : CString} (hname : Undeclared name)
    (htime : PrintedFloat time) : Undeclared (XmlItem.testcase name time).text := by
  have hsplit : "    <testcase name=\"".toList = "    <".toList ++ 't' :: "estcase name=\"".toList :=
    rfl
  unfold XmlItem.text
  rw [hsplit, timeAttribute_split]
  simp only [List.append_assoc, List.cons_append]
  refine undeclared_element (undeclared_of_no_mark (by decide)) (by decide) hname ?_
  simp only [List.mem_append, not_or]
  exact ⟨by decide, htime.not_mem, by decide⟩

theorem XmlItem.undeclared_failure {message : Option CString}
    (hmessage : ∀ m, message = some m → Undeclared m) :
    Undeclared (XmlItem.failure message).text := by
  cases message with
  | none => exact undeclared_of_no_mark (by decide)
  | some m =>
      have hbefore : "      <failure><![CDATA[".toList =
          "      <failure><![CDATA".toList ++ '[' :: [] := rfl
      have hafter : "]]></failure>\n".toList = ']' :: "]></failure>\n".toList := rfl
      unfold XmlItem.text
      rw [hbefore, hafter]
      simp only [List.append_assoc, List.cons_append, List.nil_append]
      intro h
      rcases infix_append_cons (by decide) h with h | h
      · exact undeclared_of_no_mark (by decide) h
      rcases infix_append_cons (by decide) h with h | h
      · exact hmessage m rfl h
      · exact undeclared_of_no_mark (by decide) h

/-! ### Reports without the declaration -/

/-- The texts a report is made of: names and messages do not contain the declaration, and run times
are printed numbers. -/
structure GroupReport.Plain (r : GroupReport) : Prop where
  groupName : Undeclared r.groupName
  name : ∀ t ∈ r.tests, Undeclared t.name
  errorMessage : ∀ t ∈ r.tests, ∀ m, t.errorMessage = some m → Undeclared m
  totalRuntime : PrintedFloat r.totalRuntime
  runtime : ∀ t ∈ r.tests, PrintedFloat t.runtime

/-- Escaping a name does not bring the declaration in, cut short or not. -/
theorem undeclared_escaped {src text : CString} (hsrc : Undeclared src)
    (h : cmprepareXmlAttributeString xmlBufferSize src = some text) : Undeclared text := by
  intro hsub
  exact hsrc (infix_of_cmprepareXmlAttributeString (by decide) (by decide) (by decide) h hsub)

theorem xmlTestcase_undeclared {t : TestReport} {items : List XmlItem} (hname : Undeclared t.name)
    (hmessage : ∀ m, t.errorMessage = some m → Undeclared m) (htime : PrintedFloat t.runtime)
    (h : xmlTestcase t = some items) : ∀ i ∈ items, Undeclared i.text := by
  unfold xmlTestcase at h
  obtain ⟨name, hescaped, h⟩ := Option.bind_eq_some_iff.mp h
  cases h
  intro i hi
  rcases List.mem_cons.mp hi with rfl | hi
  · exact XmlItem.undeclared_testcase (undeclared_escaped hname hescaped) htime
  rcases List.mem_append.mp hi with hi | hi
  · cases hstatus : t.status with
    | error =>
        rw [hstatus] at hi
        cases List.mem_singleton.mp hi
        exact XmlItem.undeclared_failure hmessage
    | failed =>
        rw [hstatus] at hi
        cases List.mem_singleton.mp hi
        exact XmlItem.undeclared_failure hmessage
    | skipped =>
        rw [hstatus] at hi
        cases List.mem_singleton.mp hi
        exact undeclared_of_no_mark (by decide)
    | passed => rw [hstatus] at hi; cases hi
    | notStarted => rw [hstatus] at hi; cases hi
  · cases List.mem_singleton.mp hi
    exact undeclared_of_no_mark (by decide)

theorem xmlTestcases_undeclared {tests : List TestReport} {testcases : List (List XmlItem)}
    (htests : ∀ t ∈ tests, ∀ items, xmlTestcase t = some items → ∀ i ∈ items, Undeclared i.text)
    (h : tests.mapM xmlTestcase = some testcases) : ∀ i ∈ testcases.flatten, Undeclared i.text := by
  induction tests generalizing testcases with
  | nil =>
      cases h
      intro i hi
      cases hi
  | cons t tests ih =>
      rw [List.mapM_cons] at h
      obtain ⟨items, hitems, h⟩ := Option.bind_eq_some_iff.mp h
      obtain ⟨rest, hrest, h⟩ := Option.bind_eq_some_iff.mp h
      cases h
      intro i hi
      rw [List.flatten_cons] at hi
      rcases List.mem_append.mp hi with hi | hi
      · exact htests t List.mem_cons_self items hitems i hi
      · exact ih (fun t ht => htests t (List.mem_cons_of_mem _ ht)) hrest i hi

/-- The report begins with the `testsuites` line. -/
theorem xmlReport_head {r : GroupReport} {items : List XmlItem} (h : xmlReport r = some items) :
    ∃ rest, items = .testsuites :: rest := by
  unfold xmlReport at h
  obtain ⟨name, hescaped, h⟩ := Option.bind_eq_some_iff.mp h
  obtain ⟨testcases, hcases, h⟩ := Option.bind_eq_some_iff.mp h
  cases h
  exact ⟨_, rfl⟩

/-- No line of the report is the declaration. -/
theorem xmlReport_undeclared {r : GroupReport} {items : List XmlItem} (hr : r.Plain)
    (h : xmlReport r = some items) : ∀ i ∈ items, Undeclared i.text := by
  unfold xmlReport at h
  obtain ⟨name, hescaped, h⟩ := Option.bind_eq_some_iff.mp h
  obtain ⟨testcases, hcases, h⟩ := Option.bind_eq_some_iff.mp h
  cases h
  have htests : ∀ t ∈ r.tests.take r.totalExecuted, ∀ items, xmlTestcase t = some items →
      ∀ i ∈ items, Undeclared i.text := by
    intro t ht items hitems
    have hmem := List.mem_of_mem_take ht
    exact xmlTestcase_undeclared (hr.name t hmem) (hr.errorMessage t hmem) (hr.runtime t hmem) hitems
  intro i hi
  rcases List.mem_cons.mp hi with rfl | hi
  · exact undeclared_of_no_mark (by decide)
  rcases List.mem_cons.mp hi with rfl | hi
  · exact XmlItem.undeclared_testsuite (undeclared_escaped hr.groupName hescaped) hr.totalRuntime
      _ _ _ _
  rcases List.mem_append.mp hi with hi | hi
  · exact xmlTestcases_undeclared htests hcases i hi
  · simp only [List.mem_cons, List.not_mem_nil, or_false] at hi
    rcases hi with rfl | rfl
    · exact undeclared_of_no_mark (by decide)
    · exact undeclared_of_no_mark (by decide)

theorem XmlItem.text_declaration : XmlItem.declaration.text = xmlDeclaration := rfl

/-- Every `fprintf` call ends a line. -/
theorem XmlItem.text_line (i : XmlItem) : ∃ line, i.text = line ++ ['\n'] := by
  have hend (before : CString) (s : String) (hs : s.toList.getLast? = some '\n') :
      ∃ line, before ++ s.toList = line ++ ['\n'] := by
    obtain ⟨line, hline⟩ := List.getLast?_eq_some_iff.mp hs
    exact ⟨before ++ line, by rw [hline, List.append_assoc]⟩
  cases i with
  | declaration => exact hend [] "<?xml version=\"1.0\" encoding=\"UTF-8\" ?>\n" (by decide)
  | testsuites => exact hend [] "<testsuites>\n" (by decide)
  | testsuite name time tests failures errors skippedTests => exact hend _ "\" >\n" (by decide)
  | testcase name time => exact hend _ "\" >\n" (by decide)
  | failure message =>
      cases message with
      | none => exact hend [] "      <failure message=\"Unknown error\" />\n" (by decide)
      | some m => exact hend _ "]]></failure>\n" (by decide)
  | skipped => exact hend [] "      <skipped/>\n" (by decide)
  | endTestcase => exact hend [] "    </testcase>\n" (by decide)
  | endTestsuite => exact hend [] "  </testsuite>\n" (by decide)
  | endTestsuites => exact hend [] "</testsuites>\n" (by decide)

/-- What follows a report without the declaration does not make one with it. -/
theorem undeclared_items {items : List XmlItem} (h : ∀ i ∈ items, Undeclared i.text) {after : CString}
    (hafter : Undeclared after) : Undeclared (items.flatMap XmlItem.text ++ after) := by
  induction items with
  | nil => exact hafter
  | cons i items ih =>
      obtain ⟨line, hline⟩ := i.text_line
      rw [List.flatMap_cons, List.append_assoc, hline]
      refine Undeclared.append_line ?_ (ih fun j hj => h j (List.mem_cons_of_mem _ hj))
      rw [← hline]
      exact h i List.mem_cons_self

/-! ### One group -/

/-- The path the report of a group goes to. -/
def target (env : CString) (r : GroupReport) : CString := (xmlPath env r.groupName).getD []

/-- What finishing a group does to the flags and the files. -/
inductive FinishStep (path body : CString) (st : XmlState) : XmlState → Prop
  | created {st' : XmlState} (absent : st.files path = none)
      (files : st'.files = Function.update st.files path
        (some ((if st.xmlPrinted then [] else xmlDeclaration) ++ body)))
      (append : st'.fileAppend = true) (printed : st'.xmlPrinted = st.xmlPrinted) :
      FinishStep path body st st'
  | appended {st' : XmlState} (content : CString) (present : st.files path = some content)
      (appending : st.fileAppend = true)
      (files : st'.files = Function.update st.files path (some (content ++ body)))
      (append : st'.fileAppend = true) (printed : st'.xmlPrinted = true) :
      FinishStep path body st st'
  | refused {st' : XmlState} (content : CString) (present : st.files path = some content)
      (appending : st.fileAppend = false) (files : st'.files = st.files)
      (append : st'.fileAppend = false) (printed : st'.xmlPrinted = true) :
      FinishStep path body st st'

theorem cmprintfGroupFinishXml_step (env : CString) (r : GroupReport) (st : XmlState) :
    ∃ items st', xmlReport r = some items ∧
      cmprintfGroupFinishXml (some env) true r st = some st' ∧
      FinishStep (target env r) (items.flatMap XmlItem.text) st st' := by
  obtain ⟨items, hitems⟩ := xmlReport_some r
  obtain ⟨path, hpath⟩ := xmlPath_some env r.groupName
  have htarget : target env r = path := by rw [target, hpath]; rfl
  have hrun : cmprintfGroupFinishXml (some env) true r st =
      some (printXml (openXml path true st).1 (openXml path true st).2.1 items
        (openXml path true st).2.2) := by
    simp only [cmprintfGroupFinishXml, hitems, hpath, Option.bind_eq_bind, Option.bind_some]
    rfl
  refine ⟨items, _, hitems, hrun, ?_⟩
  rw [htarget]
  cases hfile : st.files path with
  | none =>
      have hopen : openXml path true st = (.file path, true,
          { st with fileAppend := true, files := Function.update st.files path (some []) }) := by
        simp only [openXml, hfile, if_true]
      rw [hopen]
      refine .created hfile ?_ rfl ?_
      · cases hprinted : st.xmlPrinted with
        | true => simp [printXml, XmlState.print]
        | false => simp [printXml, XmlState.print, XmlItem.text_declaration]
      · simp [printXml, XmlState.print]
  | some content =>
      cases happend : st.fileAppend with
      | true =>
          have hopen : openXml path true st = (.file path, true, { st with xmlPrinted := true }) := by
            simp only [openXml, hfile, happend, if_true]
          rw [hopen]
          refine .appended content hfile happend ?_ ?_ ?_
          · simp [printXml, XmlState.print, hfile, happend]
          · simp [printXml, XmlState.print, happend]
          · simp [printXml, XmlState.print]
      | false =>
          have hopen : openXml path true st = (.stderr, false, st) := by
            simp [openXml, hfile, happend]
          rw [hopen]
          refine .refused content hfile happend rfl happend ?_
          simp [printXml, XmlState.print]

/-! ### The groups of a process -/

/-- The state before the first group. -/
def XmlState.initial (files : CString → Option CString) : XmlState where
  xmlPrinted := false
  fileAppend := false
  files
  stdout := []
  stderr := []

/-- The groups of a process finish one after another; `fopen` for writing and appending
succeeds. -/
def finishGroups (env : CString) (groups : List GroupReport) (st : XmlState) : Option XmlState :=
  groups.foldlM (fun st r => cmprintfGroupFinishXml (some env) true r st) st

/-- The file of a group is there when it finishes, after the groups `before`: from before the process
or written by one of them. -/
def FindsFile (env : CString) (files : CString → Option CString) (before : List GroupReport)
    (r : GroupReport) : Prop :=
  files (target env r) ≠ none ∨ ∃ q ∈ before, target env q = target env r

/-- What the flags and the files say about the groups that finished, from the files `files` on. -/
structure Finished (env : CString) (files : CString → Option CString) (groups : List GroupReport)
    (st : XmlState) : Prop where
  absent : ∀ path, st.files path = none ↔ files path = none ∧ ∀ q ∈ groups, target env q ≠ path
  append : st.fileAppend = true ↔ ∃ q ∈ groups, files (target env q) = none
  printed : st.xmlPrinted = true ↔
    ∃ before r after, groups = before ++ r :: after ∧ FindsFile env files before r
  grown : ∀ path content, files path = some content → ∃ more, st.files path = some (content ++ more)

variable {env : CString} {files : CString → Option CString} {groups : List GroupReport}
  {st st' : XmlState} {r : GroupReport} {body : CString}

theorem Finished.initial : Finished env files [] (.initial files) where
  absent path := by simp [XmlState.initial]
  append := by simp [XmlState.initial]
  printed := by simp [XmlState.initial]
  grown path content h := ⟨[], by rw [List.append_nil]; exact h⟩

/-- The files say whether the next group finds its own. -/
theorem Finished.findsFile (h : Finished env files groups st) :
    FindsFile env files groups r ↔ st.files (target env r) ≠ none := by
  rw [ne_eq, h.absent]
  unfold FindsFile
  push Not
  constructor
  · rintro (hfile | hq) hnone
    · exact absurd hnone hfile
    · exact hq
  · intro himp
    by_cases hnone : files (target env r) = none
    · exact .inr (himp hnone)
    · exact .inl hnone

theorem exists_mem_concat {P : GroupReport → Prop} :
    (∃ q ∈ groups ++ [r], P q) ↔ (∃ q ∈ groups, P q) ∨ P r := by
  constructor
  · rintro ⟨q, hq, hP⟩
    rcases List.mem_append.mp hq with hq | hq
    · exact .inl ⟨q, hq, hP⟩
    · cases List.mem_singleton.mp hq
      exact .inr hP
  · rintro (⟨q, hq, hP⟩ | hP)
    · exact ⟨q, List.mem_append_left _ hq, hP⟩
    · exact ⟨r, List.mem_append_right _ (List.mem_singleton.mpr rfl), hP⟩

/-- Whichever way the step goes, afterwards the file of the group is there and no other file came or
went. -/
theorem FinishStep.absent (h : FinishStep (target env r) body st st') (path : CString) :
    st'.files path = none ↔ st.files path = none ∧ target env r ≠ path := by
  cases h with
  | created absent hfiles =>
      rw [hfiles]
      by_cases hp : path = target env r
      · subst hp; simp
      · simp [Function.update_of_ne hp, Ne.symm hp]
  | appended content present appending hfiles =>
      rw [hfiles]
      by_cases hp : path = target env r
      · subst hp; simp
      · simp [Function.update_of_ne hp, Ne.symm hp]
  | refused content present appending hfiles =>
      rw [hfiles]
      constructor
      · intro hnone
        refine ⟨hnone, ?_⟩
        rintro rfl
        rw [present] at hnone
        cases hnone
      · exact And.left

theorem FinishStep.grown (h : FinishStep (target env r) body st st') {path content : CString}
    (hcontent : st.files path = some content) : ∃ more, st'.files path = some (content ++ more) := by
  cases h with
  | created absent hfiles =>
      have hp : path ≠ target env r := by
        rintro rfl
        rw [absent] at hcontent
        cases hcontent
      exact ⟨[], by rw [hfiles, Function.update_of_ne hp, hcontent, List.append_nil]⟩
  | appended content' present appending hfiles =>
      rw [hfiles]
      by_cases hp : path = target env r
      · subst hp
        rw [present] at hcontent
        cases hcontent
        exact ⟨body, by rw [Function.update_self]⟩
      · exact ⟨[], by rw [Function.update_of_ne hp, hcontent, List.append_nil]⟩
  | refused content' present appending hfiles =>
      exact ⟨[], by rw [hfiles, hcontent, List.append_nil]⟩

/-- The flag is set by the group that finds its file. -/
theorem FinishStep.printed (h : FinishStep (target env r) body st st') :
    st'.xmlPrinted = true ↔ st.xmlPrinted = true ∨ st.files (target env r) ≠ none := by
  cases h with
  | created absent hfiles happend hprinted => simp [hprinted, absent]
  | appended content present appending hfiles happend hprinted => simp [hprinted, present]
  | refused content present appending hfiles happend hprinted => simp [hprinted, present]

theorem FinishStep.append (h : FinishStep (target env r) body st st') :
    st'.fileAppend = true ↔ st.fileAppend = true ∨ st.files (target env r) = none := by
  cases h with
  | created absent hfiles happend hprinted => simp [happend, absent]
  | appended content present appending hfiles happend hprinted => simp [happend, appending]
  | refused content present appending hfiles happend hprinted => simp [happend, appending, present]

/-- One more group. -/
theorem Finished.step (h : Finished env files groups st)
    (hstep : FinishStep (target env r) body st st') : Finished env files (groups ++ [r]) st' where
  absent path := by
    rw [hstep.absent, h.absent]
    simp only [List.mem_append, List.mem_singleton]
    constructor
    · rintro ⟨⟨hfile, hq⟩, hr⟩
      refine ⟨hfile, ?_⟩
      rintro q (hmem | rfl)
      · exact hq q hmem
      · exact hr
    · rintro ⟨hfile, hq⟩
      exact ⟨⟨hfile, fun q hmem => hq q (.inl hmem)⟩, hq r (.inr rfl)⟩
  append := by
    rw [hstep.append, h.append, exists_mem_concat, h.absent]
    constructor
    · rintro (hq | ⟨hr, -⟩)
      · exact .inl hq
      · exact .inr hr
    · rintro (hq | hr)
      · exact .inl hq
      · by_cases hq : ∃ q ∈ groups, files (target env q) = none
        · exact .inl hq
        · refine .inr ⟨hr, fun q hmem heq => hq ⟨q, hmem, ?_⟩⟩
          rw [heq]
          exact hr
  printed := by rw [hstep.printed, h.printed, exists_concat, h.findsFile]
  grown path content hcontent := by
    obtain ⟨more, hmore⟩ := h.grown path content hcontent
    obtain ⟨more', hmore'⟩ := hstep.grown hmore
    exact ⟨more ++ more', by rw [hmore', List.append_assoc]⟩

variable (env files) in
/-- Induction over the groups of a process. -/
theorem finishGroups_induction {motive : List GroupReport → XmlState → Prop}
    (nil : motive [] (.initial files))
    (concat : ∀ groups r items st st', Finished env files groups st → motive groups st →
      xmlReport r = some items → FinishStep (target env r) (items.flatMap XmlItem.text) st st' →
      motive (groups ++ [r]) st') (groups : List GroupReport) :
    ∃ st, finishGroups env groups (.initial files) = some st ∧ Finished env files groups st ∧
      motive groups st := by
  induction groups using List.reverseRecOn with
  | nil => exact ⟨_, rfl, .initial, nil⟩
  | append_singleton groups r ih =>
      obtain ⟨st, hrun, hfinished, hmotive⟩ := ih
      obtain ⟨items, st', hitems, hrun', hstep⟩ := cmprintfGroupFinishXml_step env r st
      refine ⟨st', ?_, hfinished.step hstep,
        concat groups r items st st' hfinished hmotive hitems hstep⟩
      unfold finishGroups at hrun ⊢
      rw [List.foldlM_append, hrun, Option.bind_eq_bind, Option.bind_some, List.foldlM_cons, hrun']
      rfl

/-! ### Files from before the process -/

/-- Files that were there have their contents still. -/
def Kept (files : CString → Option CString) (st : XmlState) : Prop :=
  ∀ path content, files path = some content → st.files path = some content

/-- A step that writes only to a file that was not there. -/
theorem kept_of_eq_off {path : CString} (hpath : files path = none)
    (h : ∀ p, p ≠ path → st'.files p = st.files p) : Kept files st' ↔ Kept files st := by
  have heq (p content : CString) (hp : files p = some content) : st'.files p = st.files p := by
    refine h p ?_
    rintro rfl
    rw [hpath] at hp
    cases hp
  constructor
  · intro hkept p content hp
    rw [← heq p content hp]
    exact hkept p content hp
  · intro hkept p content hp
    rw [heq p content hp]
    exact hkept p content hp

/-- An appended file does not have its old contents. -/
theorem Finished.not_kept_of_appended (h : Finished env files groups st) (hbody : body ≠ [])
    {path old content : CString} (hold : files path = some old)
    (hpresent : st.files path = some content)
    (hfiles : st'.files = Function.update st.files path (some (content ++ body))) :
    ¬Kept files st' := by
  intro hkept
  obtain ⟨more, hmore⟩ := h.grown path old hold
  have hnew := hkept path old hold
  rw [hpresent] at hmore
  cases hmore
  rw [hfiles, Function.update_self, Option.some.injEq, List.append_assoc,
    List.append_right_eq_self, List.append_eq_nil_iff] at hnew
  exact hbody hnew.2

theorem Finished.kept_step (h : Finished env files groups st) (hbody : body ≠ [])
    (hstep : FinishStep (target env r) body st st') :
    Kept files st' ↔ Kept files st ∧
      ((∃ q ∈ groups, files (target env q) = none) → files (target env r) = none) := by
  cases hstep with
  | created absent hfiles =>
      have hnone := ((h.absent _).mp absent).1
      have hsame : Kept files st' ↔ Kept files st :=
        kept_of_eq_off hnone fun p hp => by rw [hfiles, Function.update_of_ne hp]
      rw [hsame]
      exact ⟨fun hkept => ⟨hkept, fun _ => hnone⟩, And.left⟩
  | appended content present appending hfiles =>
      -- `file_append` was set by a group that created its own file
      have hcreated := h.append.mp appending
      cases hfile : files (target env r) with
      | none =>
          have hsame : Kept files st' ↔ Kept files st :=
            kept_of_eq_off hfile fun p hp => by rw [hfiles, Function.update_of_ne hp]
          rw [hsame]
          exact ⟨fun hkept => ⟨hkept, fun _ => rfl⟩, And.left⟩
      | some old =>
          constructor
          · intro hkept
            exact absurd hkept (h.not_kept_of_appended hbody hfile present hfiles)
          · rintro ⟨-, himp⟩
            cases himp hcreated
  | refused content present appending hfiles =>
      have hnot : ¬∃ q ∈ groups, files (target env q) = none := by
        intro hq
        rw [h.append.mpr hq] at appending
        cases appending
      unfold Kept
      rw [hfiles]
      exact ⟨fun hkept => ⟨hkept, fun hq => absurd hq hnot⟩, And.left⟩

theorem body_ne_nil {items : List XmlItem} (h : xmlReport r = some items) :
    items.flatMap XmlItem.text ≠ [] := by
  obtain ⟨rest, rfl⟩ := xmlReport_head h
  rw [List.flatMap_cons]
  exact List.append_ne_nil_of_left_ne_nil (by decide) _

/-- **Which files are left alone.**  The files from before the process keep their contents exactly
when no group with such a file finishes after a group without. -/
theorem existing_files_kept_iff (env : CString) (files : CString → Option CString)
    (groups : List GroupReport) :
    (∃ st, finishGroups env groups (.initial files) = some st ∧ Kept files st) ↔
      ∀ before r after, groups = before ++ r :: after →
        (∃ q ∈ before, files (target env q) = none) → files (target env r) = none := by
  obtain ⟨st, hrun, -, hiff⟩ := finishGroups_induction env files
    (motive := fun groups st => Kept files st ↔ ∀ before r after, groups = before ++ r :: after →
      (∃ q ∈ before, files (target env q) = none) → files (target env r) = none)
    (by simp [Kept, XmlState.initial])
    (fun groups r items st st' hfinished hmotive hitems hstep => by
      rw [forall_concat, ← hmotive, hfinished.kept_step (body_ne_nil hitems) hstep])
    groups
  rw [← hiff]
  constructor
  · rintro ⟨st', hrun', hkept⟩
    cases hrun.symm.trans hrun'
    exact hkept
  · intro hkept
    exact ⟨st, hrun, hkept⟩

/-- A group without tests. -/
def emptyReport (groupName : String) : GroupReport where
  groupName := groupName.toList
  totalExecuted := 0
  totalFailed := 0
  totalErrors := 0
  totalSkipped := 0
  totalRuntime := "0.000".toList
  tests := []

/-- The value of `CMOCKA_XML_FILE` in the documentation. -/
def xmlFilePerGroup : CString := "cm_%g.xml".toList

/-- The file of group `b` is there from an earlier run of the tests. -/
def staleFiles : CString → Option CString :=
  fun path => if path = "cm_b.xml".toList then some "stale".toList else none

/-- The first group creates its file, and the second appends to the stale one. -/
theorem stale_file_is_appended :
    ¬∃ st, finishGroups xmlFilePerGroup [emptyReport "a", emptyReport "b"] (.initial staleFiles) =
      some st ∧ Kept staleFiles st := by
  rintro ⟨st, hrun, hkept⟩
  have hnew : (finishGroups xmlFilePerGroup [emptyReport "a", emptyReport "b"]
      (.initial staleFiles)).map
        (fun st => decide (st.files "cm_b.xml".toList = some "stale".toList)) =
      some false := by decide +kernel
  rw [hrun] at hnew
  simp only [Option.map_some, Option.some.injEq, decide_eq_false_iff_not] at hnew
  exact hnew (hkept _ _ rfl)

/-! ### Files the process creates -/

/-- The declaration line begins the file and occurs nowhere else in it. -/
def DeclaredOnce (content : CString) : Prop :=
  xmlDeclaration <+: content ∧ ∀ a b, content = a ++ xmlDeclaration ++ b → a = []

/-- The declaration, and then lines without it. -/
def Headed (content : CString) : Prop :=
  ∃ items : List XmlItem, content = xmlDeclaration ++ items.flatMap XmlItem.text ∧
    ∀ i ∈ items, Undeclared i.text

/-- A report right at the beginning. -/
def Headless (content : CString) : Prop := ∃ rest, content = XmlItem.testsuites.text ++ rest

theorem Headed.declaredOnce {content : CString} (h : Headed content) : DeclaredOnce content := by
  obtain ⟨items, rfl, hitems⟩ := h
  refine ⟨List.prefix_append _ _, ?_⟩
  intro a b heq
  cases a with
  | nil => rfl
  | cons c a =>
      exfalso
      rw [xmlDeclaration_cons, List.cons_append, List.cons_append, List.cons_append] at heq
      obtain ⟨-, heq⟩ := List.cons.inj heq
      have hsub : xmlDeclaration <:+: xmlDeclarationTail ++ items.flatMap XmlItem.text := by
        rw [heq, xmlDeclaration_cons]
        exact List.infix_append _ _ _
      rw [xmlDeclaration_cons] at hsub
      have hbody := infix_of_append_left (by decide) hsub
      rw [← xmlDeclaration_cons] at hbody
      have hundeclared := undeclared_items hitems (undeclared_of_no_mark (List.not_mem_nil))
      rw [List.append_nil] at hundeclared
      exact hundeclared hbody

theorem Headless.not_declared {content : CString} (h : Headless content) :
    ¬xmlDeclaration <+: content := by
  obtain ⟨rest, rfl⟩ := h
  rintro ⟨more, heq⟩
  -- the second character is a question mark in the one and a letter in the other
  have hsecond : (xmlDeclaration ++ more)[1]? = (XmlItem.testsuites.text ++ rest)[1]? := by rw [heq]
  rw [List.getElem?_append_left (by decide), List.getElem?_append_left (by decide)] at hsecond
  exact absurd hsecond (by decide)

/-- Files begin in one of the two ways and are appended to without the declaration. -/
theorem Headed.append {content : CString} {items : List XmlItem} (h : Headed content)
    (hitems : ∀ i ∈ items, Undeclared i.text) : Headed (content ++ items.flatMap XmlItem.text) := by
  obtain ⟨items', rfl, hitems'⟩ := h
  refine ⟨items' ++ items, by rw [List.flatMap_append, List.append_assoc], ?_⟩
  intro i hi
  rcases List.mem_append.mp hi with hi | hi
  · exact hitems' i hi
  · exact hitems i hi

theorem Headless.append {content : CString} (h : Headless content) (more : CString) :
    Headless (content ++ more) := by
  obtain ⟨rest, rfl⟩ := h
  exact ⟨rest ++ more, List.append_assoc _ _ _⟩

theorem Headed.not_headless {content : CString} (h : Headed content) : ¬Headless content := by
  intro hless
  exact hless.not_declared h.declaredOnce.1

/-- What holds of every file the process created. -/
def Created (files : CString → Option CString) (st : XmlState) (P : CString → Prop) : Prop :=
  ∀ path content, files path = none → st.files path = some content → P content

/-- One file of the process is written. -/
theorem created_update {path content : CString} (hpath : files path = none)
    (hfiles : st'.files = Function.update st.files path (some content)) {P : CString → Prop} :
    Created files st' P ↔
      (∀ p c, p ≠ path → files p = none → st.files p = some c → P c) ∧ P content := by
  constructor
  · intro h
    refine ⟨?_, h path content hpath (by rw [hfiles, Function.update_self])⟩
    intro p c hne hp hc
    exact h p c hp (by rw [hfiles, Function.update_of_ne hne, hc])
  · rintro ⟨hothers, hnew⟩ p c hp hc
    rw [hfiles] at hc
    by_cases hne : p = path
    · subst hne
      rw [Function.update_self] at hc
      cases hc
      exact hnew
    · rw [Function.update_of_ne hne] at hc
      exact hothers p c hne hp hc

/-- No file of the process is written. -/
theorem created_of_eq_off {P : CString → Prop}
    (h : ∀ p, files p = none → st'.files p = st.files p) :
    Created files st' P ↔ Created files st P := by
  constructor
  · intro hall p c hp hc
    exact hall p c hp (by rw [h p hp, hc])
  · intro hall p c hp hc
    exact hall p c hp (by rw [← h p hp, hc])

/-- What a file is created with: headed if the flag is not set, headless if it is. -/
theorem headed_created {items : List XmlItem} (hhead : ∃ rest, items = .testsuites :: rest)
    (hitems : ∀ i ∈ items, Undeclared i.text) (printed : Bool) :
    (printed = false →
      Headed ((if printed then [] else xmlDeclaration) ++ items.flatMap XmlItem.text)) ∧
    (printed = true →
      Headless ((if printed then [] else xmlDeclaration) ++ items.flatMap XmlItem.text)) := by
  obtain ⟨rest, rfl⟩ := hhead
  constructor
  · rintro rfl
    exact ⟨_, rfl, hitems⟩
  · rintro rfl
    exact ⟨rest.flatMap XmlItem.text, List.flatMap_cons⟩

/-- Each file of the process is headed or headless. -/
theorem Finished.begun_step (h : Finished env files groups st) {items : List XmlItem}
    (hhead : ∃ rest, items = .testsuites :: rest) (hitems : ∀ i ∈ items, Undeclared i.text)
    (hstep : FinishStep (target env r) (items.flatMap XmlItem.text) st st')
    (hbegun : Created files st fun c => Headed c ∨ Headless c) :
    Created files st' fun c => Headed c ∨ Headless c := by
  cases hstep with
  | created absent hfiles =>
      refine (created_update ((h.absent _).mp absent).1 hfiles).mpr
        ⟨fun p c _ => hbegun p c, ?_⟩
      cases hprinted : st.xmlPrinted with
      | false => exact .inl ((headed_created hhead hitems false).1 rfl)
      | true => exact .inr ((headed_created hhead hitems true).2 rfl)
  | appended content present appending hfiles =>
      cases hfile : files (target env r) with
      | none =>
          refine (created_update hfile hfiles).mpr ⟨fun p c _ => hbegun p c, ?_⟩
          rcases hbegun _ content hfile present with hheaded | hheadless
          · exact .inl (hheaded.append hitems)
          · exact .inr (hheadless.append _)
      | some old =>
          refine (created_of_eq_off fun p hp => ?_).mpr hbegun
          rw [hfiles, Function.update_of_ne]
          rintro rfl
          rw [hfile] at hp
          cases hp
  | refused content present appending hfiles =>
      exact (created_of_eq_off fun p _ => by rw [hfiles]).mpr hbegun

/-- All files of the process stay headed, unless one is created with the flag set. -/
theorem Finished.headed_step (h : Finished env files groups st) {items : List XmlItem}
    (hhead : ∃ rest, items = .testsuites :: rest) (hitems : ∀ i ∈ items, Undeclared i.text)
    (hstep : FinishStep (target env r) (items.flatMap XmlItem.text) st st')
    (hbegun : Created files st fun c => Headed c ∨ Headless c) :
    Created files st' Headed ↔ Created files st Headed ∧
      (¬FindsFile env files groups r → st.xmlPrinted ≠ true) := by
  rw [h.findsFile, not_ne_iff]
  cases hstep with
  | created absent hfiles =>
      -- a new file gets the declaration unless an earlier group printed it elsewhere
      rw [created_update ((h.absent _).mp absent).1 hfiles]
      constructor
      · rintro ⟨hothers, hnew⟩
        refine ⟨?_, ?_⟩
        · intro p c hp hc
          refine hothers p c ?_ hp hc
          rintro rfl
          rw [absent] at hc
          cases hc
        · intro _ hprinted
          exact hnew.not_headless ((headed_created hhead hitems st.xmlPrinted).2 hprinted)
      · rintro ⟨hall, hprinted⟩
        refine ⟨fun p c _ => hall p c, ?_⟩
        exact (headed_created hhead hitems st.xmlPrinted).1 (Bool.eq_false_iff.mpr (hprinted absent))
  | appended content present appending hfiles =>
      -- appending keeps what the file starts with
      have hfound : ¬st.files (target env r) = none := by rw [present]; exact Option.some_ne_none _
      have hsame : Created files st' Headed ↔ Created files st Headed := by
        cases hfile : files (target env r) with
        | none =>
            rw [created_update hfile hfiles]
            constructor
            · rintro ⟨hothers, hnew⟩ p c hp hc
              by_cases hne : p = target env r
              · subst hne
                cases present.symm.trans hc
                rcases hbegun _ _ hfile hc with hheaded | hheadless
                · exact hheaded
                · exact absurd (hheadless.append _) hnew.not_headless
              · exact hothers p c hne hp hc
            · intro hall
              exact ⟨fun p c _ => hall p c, (hall _ _ hfile present).append hitems⟩
        | some old =>
            refine created_of_eq_off fun p hp => ?_
            rw [hfiles, Function.update_of_ne]
            rintro rfl
            rw [hfile] at hp
            cases hp
      rw [hsame]
      exact ⟨fun hall => ⟨hall, fun hnone => absurd hnone hfound⟩, And.left⟩
  | refused content present appending hfiles =>
      have hfound : ¬st.files (target env r) = none := by rw [present]; exact Option.some_ne_none _
      have hsame : Created files st' Headed ↔ Created files st Headed :=
        created_of_eq_off fun p _ => by rw [hfiles]
      rw [hsame]
      exact ⟨fun hall => ⟨hall, fun hnone => absurd hnone hfound⟩, And.left⟩

theorem declaredOnce_iff_headed (hbegun : Created files st fun c => Headed c ∨ Headless c) :
    Created files st DeclaredOnce ↔ Created files st Headed := by
  constructor
  · intro hall p c hp hc
    rcases hbegun p c hp hc with hheaded | hheadless
    · exact hheaded
    · exact absurd (hall p c hp hc).1 hheadless.not_declared
  · intro hall p c hp hc
    exact (hall p c hp hc).declaredOnce

/-- **Which files are declared.**  The files the process creates all begin with the declaration, and
have it nowhere else, exactly when each is created while every earlier group has created its own. -/
theorem created_files_declared_iff (env : CString) (files : CString → Option CString)
    (groups : List GroupReport) (hplain : ∀ r ∈ groups, r.Plain) :
    (∃ st, finishGroups env groups (.initial files) = some st ∧ Created files st DeclaredOnce) ↔
      ∀ before r after, groups = before ++ r :: after → ¬FindsFile env files before r →
        ∀ b q a, before = b ++ q :: a → ¬FindsFile env files b q := by
  obtain ⟨st, hrun, -, hmotive⟩ := finishGroups_induction env files
    (motive := fun groups st => (∀ r ∈ groups, r.Plain) →
      (Created files st fun c => Headed c ∨ Headless c) ∧
      (Created files st Headed ↔
        ∀ before r after, groups = before ++ r :: after → ¬FindsFile env files before r →
          ∀ b q a, before = b ++ q :: a → ¬FindsFile env files b q))
    (by
      intro _
      refine ⟨fun p c hp hc => ?_, fun _ before r after heq => by simp at heq, fun _ p c hp hc => ?_⟩
      · cases hp.symm.trans hc
      · cases hp.symm.trans hc)
    (by
      intro groups r items st st' hfinished hmotive hitems hstep hplain
      obtain ⟨hbegun, hiff⟩ := hmotive fun q hq => hplain q (List.mem_append_left _ hq)
      have hhead := xmlReport_head hitems
      have hundeclared := xmlReport_undeclared (hplain r (by simp)) hitems
      refine ⟨hfinished.begun_step hhead hundeclared hstep hbegun, ?_⟩
      rw [hfinished.headed_step hhead hundeclared hstep hbegun, hiff, forall_concat,
        ne_eq, hfinished.printed]
      push Not
      rfl)
    groups
  obtain ⟨hbegun, hiff⟩ := hmotive hplain
  rw [← hiff, ← declaredOnce_iff_headed hbegun]
  constructor
  · rintro ⟨st', hrun', hall⟩
    cases hrun.symm.trans hrun'
    exact hall
  · intro hall
    exact ⟨st, hrun, hall⟩

theorem emptyReport_plain (name : String) (h : '?' ∉ name.toList) : (emptyReport name).Plain where
  groupName := undeclared_of_no_mark h
  name := by intro t ht; cases ht
  errorMessage := by intro t ht; cases ht
  totalRuntime := by
    change "0.000".toList ⊆ "0123456789.-infa".toList
    decide
  runtime := by intro t ht; cases ht

theorem file_per_group_declared :
    (∀ r ∈ [emptyReport "a", emptyReport "b"], r.Plain) ∧
      ∃ st, finishGroups xmlFilePerGroup [emptyReport "a", emptyReport "b"]
        (.initial fun _ => none) = some st ∧ Created (fun _ => none) st DeclaredOnce := by
  have hplain : ∀ r ∈ [emptyReport "a", emptyReport "b"], r.Plain := by
    intro r hr
    simp only [List.mem_cons, List.not_mem_nil, or_false] at hr
    rcases hr with rfl | rfl
    · exact emptyReport_plain "a" (by decide)
    · exact emptyReport_plain "b" (by decide)
  refine ⟨hplain, (created_files_declared_iff _ _ _ hplain).mpr ?_⟩
  intro before r after hgroups _ b q a hbefore
  match b with
  | [] => simp [FindsFile]
  | [_] =>
      rw [hbefore] at hgroups
      simp at hgroups
  | _ :: _ :: _ =>
      rw [hbefore] at hgroups
      simp at hgroups

/-- A group that runs twice leaves the next file without the declaration. -/
theorem repeated_group_undeclares_next :
    ¬∃ st, finishGroups xmlFilePerGroup [emptyReport "a", emptyReport "a", emptyReport "b"]
      (.initial fun _ => none) = some st ∧ Created (fun _ => none) st DeclaredOnce := by
  rintro ⟨st, hrun, hall⟩
  have hnew : (finishGroups xmlFilePerGroup [emptyReport "a", emptyReport "a", emptyReport "b"]
      (.initial fun _ => none)).map
        (fun st => (st.files "cm_b.xml".toList).map xmlDeclaration.isPrefixOf) =
      some (some false) := by decide +kernel
  rw [hrun] at hnew
  simp only [Option.map_some, Option.some.injEq] at hnew
  obtain ⟨content, hcontent, hpre⟩ := Option.map_eq_some_iff.mp hnew
  have hdeclared := (hall _ content rfl hcontent).1
  rw [List.isPrefixOf_iff_prefix.mpr hdeclared] at hpre
  cases hpre

end Cmocka
