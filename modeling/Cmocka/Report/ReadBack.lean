import Mathlib.Data.List.Infix
import Cmocka.Report.Attributes
import Cmocka.Report.XmlFile

/-!
# Report — reading the XML report back

A reader of the report: an attribute ends at the next double quote and has to be a value XML allows,
a CDATA section ends at the next `]]>`.  It gets back the lines that were printed exactly when no
message has `]]>` in it and every name was escaped as far as it has to be (`report_read_back_iff`):
messages go into their CDATA section as they are, and a name that is too long is not escaped to its
end.
-/

namespace Cmocka

open Replacing Escaping

variable {d m s rest : CString} {c : Char}

/-! ### The reader -/

/-- Reads a fixed text. -/
def readText (d s : CString) : Option CString :=
  if d.isPrefixOf s then some (s.drop d.length) else none

/-- Reads up to the first occurrence of a text, and over it. -/
def readUpTo (d s : CString) : Option (CString × CString) :=
  (strstr d s).map fun offset => (s.take offset, s.drop (offset + d.length))

/-- Reads the value of an attribute, and over the quote that ends it. -/
def readAttribute (s : CString) : Option (CString × CString) := do
  let (value, s) ← readUpTo "\"".toList s
  if isAttributeValue value then some (value, s) else none

/-- Reads what is between the tags of a test case. -/
def readResult (s : CString) : Option (List XmlItem × CString) :=
  match readText "      <failure><![CDATA[".toList s with
  | some s => do
      let (message, s) ← readUpTo "]]>".toList s
      let s ← readText "</failure>\n".toList s
      return ([.failure (some message)], s)
  | none =>
      match readText "      <failure message=\"Unknown error\" />\n".toList s with
      | some s => some ([.failure none], s)
      | none =>
          match readText "      <skipped/>\n".toList s with
          | some s => some ([.skipped], s)
          | none => some ([], s)

/-- Reads one test case. -/
def readTestcase (s : CString) : Option (List XmlItem × CString) := do
  let s ← readText "    <testcase name=\"".toList s
  let (name, s) ← readAttribute s
  let s ← readText " time=\"".toList s
  let (time, s) ← readAttribute s
  let s ← readText " >\n".toList s
  let (result, s) ← readResult s
  let s ← readText "    </testcase>\n".toList s
  return (.testcase name time :: result ++ [.endTestcase], s)

/-- Reads test cases as long as one begins; at most `bound`. -/
def readTestcases : (bound : Nat) → CString → Option (List (List XmlItem) × CString)
  | bound, s =>
      match readText "    <testcase".toList s with
      | none => some ([], s)
      | some _ =>
          match bound with
          | 0 => none
          | bound + 1 => do
              let (items, s) ← readTestcase s
              let (testcases, s) ← readTestcases bound s
              return (items :: testcases, s)

/-- Reads a report: the name of the group and the test cases. -/
def readReport (s : CString) : Option (CString × List (List XmlItem)) := do
  let s ← readText "<testsuites>\n  <testsuite name=\"".toList s
  let (groupName, s) ← readAttribute s
  let (_, s) ← readUpTo ">\n".toList s
  let (testcases, s) ← readTestcases s.length s
  if s = "  </testsuite>\n</testsuites>\n".toList then some (groupName, testcases) else none

/-! ### Its parts -/

/-- A text in two parts, before anything. -/
theorem append_of_eq {text first second : CString} (h : text = first ++ second) (s : CString) :
    text ++ s = first ++ (second ++ s) := by
  rw [h, List.append_assoc]

theorem readText_append (d s : CString) : readText d (d ++ s) = some s := by
  rw [readText, if_pos (List.isPrefixOf_iff_prefix.mpr (List.prefix_append d s)), List.drop_left]

theorem readUpTo_eq_some {a b : CString} (h : FirstOccurrence d a b s) :
    readUpTo d s = some (a, b) := by
  cases hfound : strstr d s with
  | none =>
      have hno := strstr_none hfound
      rw [h.eq] at hno
      exact absurd ⟨a, b, rfl⟩ hno
  | some offset =>
      obtain ⟨ha, hb⟩ := (strstr_first hfound).unique h
      rw [readUpTo, hfound, Option.map_some, ha, hb]

/-- What was written before the end mark is read, exactly when the mark is not in it. -/
theorem readUpTo_append_iff (hc : c ∉ d) (m rest s' : CString) :
    readUpTo (d ++ [c]) (m ++ (d ++ [c] ++ rest)) = some (m, s') ↔
      ¬d ++ [c] <:+: m ∧ s' = rest := by
  rw [← firstOccurrence_append_iff hc m rest, ← List.append_assoc]
  constructor
  · intro h
    obtain ⟨offset, hfound, heq⟩ := Option.map_eq_some_iff.mp h
    have hfirst := strstr_first hfound
    obtain ⟨hbefore, hafter⟩ := Prod.mk.inj heq
    rw [hbefore, hafter] at hfirst
    have hs : s' = rest := (List.append_cancel_left hfirst.eq).symm
    subst hs
    exact ⟨hfirst, rfl⟩
  · rintro ⟨hfirst, rfl⟩
    exact readUpTo_eq_some hfirst

theorem readUpTo_quote_iff (m rest s' : CString) :
    readUpTo "\"".toList (m ++ ("\"".toList ++ rest)) = some (m, s') ↔ '"' ∉ m ∧ s' = rest := by
  have h := readUpTo_append_iff (List.not_mem_nil (a := '"')) m rest s'
  rw [List.nil_append, List.singleton_infix_iff] at h
  exact h

/-- A value is read when it has no quote in it and is one XML allows. -/
theorem readAttribute_iff (m rest s' : CString) :
    readAttribute (m ++ ("\"".toList ++ rest)) = some (m, s') ↔
      ('"' ∉ m ∧ isAttributeValue m = true) ∧ s' = rest := by
  rw [readAttribute]
  constructor
  · intro h
    obtain ⟨⟨value, s₁⟩, hread, h⟩ := Option.bind_eq_some_iff.mp h
    dsimp only at h
    split at h
    next hvalue =>
      cases h
      obtain ⟨hquote, rfl⟩ := (readUpTo_quote_iff m rest _).mp hread
      exact ⟨⟨hquote, hvalue⟩, rfl⟩
    next hvalue => cases h
  · rintro ⟨⟨hquote, hvalue⟩, rfl⟩
    have hread := (readUpTo_quote_iff m s' _).mpr ⟨hquote, rfl⟩
    simp only [hread, hvalue, Option.bind_eq_bind, Option.bind_some, if_true]

/-- A text with neither quotes, `<` nor ampersands. -/
theorem isAttributeValue_of_plain (hlt : '<' ∉ s) (hamp : '&' ∉ s) : isAttributeValue s = true := by
  rw [isAttributeValue_iff]
  refine ⟨hlt, ?_⟩
  rintro u v rfl
  exact absurd (by simp) hamp

theorem readUpTo_cdata_iff (m rest s' : CString) :
    readUpTo "]]>".toList (m ++ ("]]>".toList ++ rest)) = some (m, s') ↔
      ¬"]]>".toList <:+: m ∧ s' = rest :=
  readUpTo_append_iff (show '>' ∉ "]]".toList by decide) m rest s'

/-! ### One test case -/

/-- What is printed between the tags of a test case. -/
def xmlResult (t : TestReport) : List XmlItem :=
  match t.status with
  | .error | .failed => [.failure t.errorMessage]
  | .skipped => [.skipped]
  | .passed | .notStarted => []

theorem xmlTestcase_eq (t : TestReport) :
    xmlTestcase t = (cmprepareXmlAttributeString xmlBufferSize t.name).map fun name =>
      .testcase name t.runtime :: xmlResult t ++ [.endTestcase] := by
  unfold xmlTestcase xmlResult
  cases cmprepareXmlAttributeString xmlBufferSize t.name <;> rfl

/-- The message of a test that failed does not end its section. -/
def MessageFits (t : TestReport) : Prop :=
  t.status = .failed ∨ t.status = .error → ∀ m, t.errorMessage = some m → ¬"]]>".toList <:+: m

theorem messageFits_iff (t : TestReport) :
    MessageFits t ↔ ∀ m, .failure (some m) ∈ xmlResult t → ¬"]]>".toList <:+: m := by
  unfold MessageFits xmlResult
  cases t.status with
  | error | failed => simp [eq_comm]
  | skipped | passed | notStarted => simp

theorem xmlResult_cases (t : TestReport) :
    (∃ m, xmlResult t = [.failure (some m)]) ∨ xmlResult t = [.failure none] ∨
      xmlResult t = [.skipped] ∨ xmlResult t = [] := by
  unfold xmlResult
  cases t.status with
  | error | failed =>
      cases t.errorMessage with
      | none => exact .inr (.inl rfl)
      | some m => exact .inl ⟨m, rfl⟩
  | skipped => exact .inr (.inr (.inl rfl))
  | passed | notStarted => exact .inr (.inr (.inr rfl))

/-- A message in its section, followed by anything. -/
theorem readResult_failure_iff (m rest s' : CString) :
    readResult ((XmlItem.failure (some m)).text ++ rest) = some ([.failure (some m)], s') ↔
      ¬"]]>".toList <:+: m ∧ s' = rest := by
  have htext : (XmlItem.failure (some m)).text ++ rest =
      "      <failure><![CDATA[".toList ++
        (m ++ ("]]>".toList ++ ("</failure>\n".toList ++ rest))) := by
    have hend : "]]></failure>\n".toList ++ rest =
        "]]>".toList ++ ("</failure>\n".toList ++ rest) := append_of_eq (by rfl) rest
    unfold XmlItem.text
    simp only [List.append_assoc]
    exact congrArg (fun t => "      <failure><![CDATA[".toList ++ (m ++ t)) hend
  rw [htext, readResult, readText_append]
  dsimp only
  constructor
  · intro h
    obtain ⟨⟨m', s₁⟩, hread, h⟩ := Option.bind_eq_some_iff.mp h
    obtain ⟨s₂, hclose, h⟩ := Option.bind_eq_some_iff.mp h
    cases h
    obtain ⟨hfits, rfl⟩ := (readUpTo_cdata_iff _ _ s₁).mp hread
    rw [readText_append] at hclose
    cases hclose
    exact ⟨hfits, rfl⟩
  · rintro ⟨hfits, rfl⟩
    have hread := (readUpTo_cdata_iff m ("</failure>\n".toList ++ s') _).mpr ⟨hfits, rfl⟩
    simp only [hread, readText_append, Option.bind_eq_bind, Option.bind_some, Option.pure_def]

/-- What is left after a reading is determined. -/
theorem reads_iff {x : Option (List XmlItem × CString)} {items : List XmlItem} {left s' : CString}
    (h : x = some (items, left)) : x = some (items, s') ↔ s' = left := by
  rw [h, Option.some_inj, Prod.mk.injEq, and_iff_right rfl]
  exact eq_comm

/-- What follows the result is the end tag. -/
theorem readResult_iff (t : TestReport) (rest s' : CString) :
    readResult ((xmlResult t).flatMap XmlItem.text ++ ("    </testcase>\n".toList ++ rest)) =
        some (xmlResult t, s') ↔
      MessageFits t ∧ s' = "    </testcase>\n".toList ++ rest := by
  rw [messageFits_iff]
  rcases xmlResult_cases t with ⟨m, h⟩ | h | h | h
  · rw [h, List.flatMap_cons, List.flatMap_nil, List.append_nil, readResult_failure_iff]
    simp
  · rw [h]
    simp only [List.mem_singleton, XmlItem.failure.injEq, reduceCtorEq, false_implies, implies_true,
      true_and]
    exact reads_iff rfl
  · rw [h]
    simp only [List.mem_singleton, reduceCtorEq, false_implies, implies_true, true_and]
    exact reads_iff rfl
  · rw [h]
    simp only [List.not_mem_nil, false_implies, implies_true, true_and]
    exact reads_iff rfl

/-- The text of a test case, in the parts the reader takes. -/
theorem testcase_text (name time : CString) (result : List XmlItem) (rest : CString) :
    (.testcase name time :: result ++ [.endTestcase] : List XmlItem).flatMap XmlItem.text ++ rest =
      "    <testcase name=\"".toList ++ (name ++ ("\"".toList ++ (" time=\"".toList ++
        (time ++ ("\"".toList ++ (" >\n".toList ++ (result.flatMap XmlItem.text ++
          ("    </testcase>\n".toList ++ rest)))))))) := by
  have hname (s : CString) : "\" time=\"".toList ++ s = "\"".toList ++ (" time=\"".toList ++ s) :=
    append_of_eq (by rfl) s
  have htime (s : CString) : "\" >\n".toList ++ s = "\"".toList ++ (" >\n".toList ++ s) :=
    append_of_eq (by rfl) s
  have hend : XmlItem.endTestcase.text = "    </testcase>\n".toList := rfl
  have hstart : (XmlItem.testcase name time).text = "    <testcase name=\"".toList ++ name ++
      "\" time=\"".toList ++ time ++ "\" >\n".toList := rfl
  rw [← hname, ← htime, List.cons_append, List.flatMap_cons, List.flatMap_append, List.flatMap_cons,
    List.flatMap_nil, hstart, hend, List.append_nil]
  simp only [List.append_assoc]

/-- **One test case is read back** exactly when its name is an attribute value and its message has
no end mark. -/
theorem readTestcase_iff {t : TestReport}
    (htime : '"' ∉ t.runtime ∧ isAttributeValue t.runtime = true) (name rest s' : CString) :
    readTestcase ((.testcase name t.runtime :: xmlResult t ++ [.endTestcase] :
        List XmlItem).flatMap XmlItem.text ++ rest) =
        some (.testcase name t.runtime :: xmlResult t ++ [.endTestcase], s') ↔
      (('"' ∉ name ∧ isAttributeValue name = true) ∧ MessageFits t) ∧ s' = rest := by
  rw [testcase_text, readTestcase, readText_append]
  simp only [Option.bind_eq_bind, Option.bind_some]
  have hreadTime (s : CString) := (readAttribute_iff t.runtime s _).mpr ⟨htime, rfl⟩
  constructor
  · intro h
    obtain ⟨⟨name', s₁⟩, hname, h⟩ := Option.bind_eq_some_iff.mp h
    obtain ⟨s₂, htext, h⟩ := Option.bind_eq_some_iff.mp h
    obtain ⟨⟨time', s₃⟩, htime', h⟩ := Option.bind_eq_some_iff.mp h
    obtain ⟨s₄, hclose, h⟩ := Option.bind_eq_some_iff.mp h
    obtain ⟨⟨result, s₅⟩, hresult, h⟩ := Option.bind_eq_some_iff.mp h
    obtain ⟨s₆, hend, h⟩ := Option.bind_eq_some_iff.mp h
    obtain ⟨hitems, rfl⟩ := Prod.mk.inj (Option.some.inj h)
    obtain ⟨htag, htail⟩ := List.cons.inj hitems
    have hall : result = xmlResult t := List.append_cancel_right htail
    obtain ⟨rfl, -⟩ := XmlItem.testcase.inj htag
    obtain ⟨hvalue, rfl⟩ := (readAttribute_iff _ _ _).mp hname
    rw [readText_append] at htext
    cases htext
    rw [hreadTime] at htime'
    cases htime'
    rw [readText_append] at hclose
    cases hclose
    rw [hall] at hresult
    obtain ⟨hfits, rfl⟩ := (readResult_iff t rest s₅).mp hresult
    rw [readText_append] at hend
    cases hend
    exact ⟨⟨hvalue, hfits⟩, rfl⟩
  · rintro ⟨⟨hvalue, hfits⟩, rfl⟩
    have hname (s : CString) := (readAttribute_iff name s _).mpr ⟨hvalue, rfl⟩
    have hresult := (readResult_iff t s' _).mpr ⟨hfits, rfl⟩
    simp only [hname, hreadTime, hresult, readText_append, Option.bind_some, Option.pure_def]

/-! ### The report -/

/-- What ends the report. -/
def closingTags : CString := "  </testsuite>\n</testsuites>\n".toList

/-- A name is escaped where it has to be, as far as it is printed. -/
def NameFits (name : CString) : Prop :=
  QuotesEscaped (name.take (xmlBufferSize - 1)) ∧
    LessThansEscaped (name.take (xmlBufferSize - 1)) ∧
    AmpersandsEscaped (name.take (xmlBufferSize - 1))

/-- A name whose attribute string is safe. -/
theorem nameFits_of_safe {name : CString} (h : AttributeFits (name.take (xmlBufferSize - 1))) :
    NameFits name := attributeFits_escaped h

/-- The text of the test cases. -/
def testcasesText (testcases : List (List XmlItem)) : CString :=
  testcases.flatten.flatMap XmlItem.text

theorem testcasesText_cons (items : List XmlItem) (testcases : List (List XmlItem)) :
    testcasesText (items :: testcases) = items.flatMap XmlItem.text ++ testcasesText testcases := by
  rw [testcasesText, List.flatten_cons, List.flatMap_append, ← testcasesText]

theorem readTestcases_stop (bound : Nat) (h : readText "    <testcase".toList s = none) :
    readTestcases bound s = some ([], s) := by
  rw [readTestcases.eq_def]
  simp only [h]

/-- **All test cases are read back** exactly when each is. -/
theorem readTestcases_iff {tests : List TestReport} {testcases : List (List XmlItem)}
    (htimes : ∀ t ∈ tests, '"' ∉ t.runtime ∧ isAttributeValue t.runtime = true)
    (h : tests.mapM xmlTestcase = some testcases)
    {bound : Nat} (hbound : tests.length ≤ bound) :
    readTestcases bound (testcasesText testcases ++ closingTags) = some (testcases, closingTags) ↔
      ∀ t ∈ tests, NameFits t.name ∧ MessageFits t := by
  induction tests generalizing testcases bound with
  | nil =>
      obtain rfl : [] = testcases := Option.some.inj h
      have hstop : readText "    <testcase".toList closingTags = none := by decide
      rw [testcasesText, List.flatten_nil, List.flatMap_nil, List.nil_append,
        readTestcases_stop bound hstop]
      simp
  | cons t tests ih =>
      rw [List.forall_mem_cons] at htimes
      rw [List.mapM_cons] at h
      obtain ⟨items, hitems, h⟩ := Option.bind_eq_some_iff.mp h
      obtain ⟨rest, hrest, h⟩ := Option.bind_eq_some_iff.mp h
      cases h
      rw [xmlTestcase_eq] at hitems
      obtain ⟨name, hname, rfl⟩ := Option.map_eq_some_iff.mp hitems
      obtain ⟨bound, rfl⟩ := Nat.exists_eq_add_one_of_ne_zero
        (show bound ≠ 0 by rw [List.length_cons] at hbound; omega)
      have hrestIff := ih htimes.2 hrest (Nat.le_of_succ_le_succ hbound)
      have hone := readTestcase_iff htimes.1 name (testcasesText rest ++ closingTags)
      rw [attribute_value_iff hname] at hone
      obtain ⟨s₀, hbegin⟩ : ∃ s₀, readText "    <testcase".toList
          ((.testcase name t.runtime :: xmlResult t ++ [.endTestcase] :
            List XmlItem).flatMap XmlItem.text ++ (testcasesText rest ++ closingTags)) = some s₀ := by
        have hsplit (s : CString) : "    <testcase name=\"".toList ++ s =
            "    <testcase".toList ++ (" name=\"".toList ++ s) := append_of_eq (by rfl) s
        rw [testcase_text, hsplit]
        exact ⟨_, readText_append _ _⟩
      rw [testcasesText_cons, List.append_assoc, List.forall_mem_cons, readTestcases, hbegin]
      dsimp only
      constructor
      · intro h
        obtain ⟨⟨items', s₁⟩, hread, h⟩ := Option.bind_eq_some_iff.mp h
        obtain ⟨⟨testcases', s₂⟩, hreadRest, h⟩ := Option.bind_eq_some_iff.mp h
        obtain ⟨hall, rfl⟩ := Prod.mk.inj (Option.some.inj h)
        obtain ⟨rfl, rfl⟩ := List.cons.inj hall
        obtain ⟨hfits, rfl⟩ := (hone s₁).mp hread
        exact ⟨hfits, hrestIff.mp hreadRest⟩
      · rintro ⟨hfits, hrestFits⟩
        have hread := (hone _).mpr ⟨hfits, rfl⟩
        have hreadRest := hrestIff.mpr hrestFits
        simp only [hread, hreadRest, Option.bind_eq_bind, Option.bind_some, Option.pure_def]

/-- Each test case has a text. -/
theorem length_le_testcasesText {tests : List TestReport} {testcases : List (List XmlItem)}
    (h : tests.mapM xmlTestcase = some testcases) :
    tests.length ≤ (testcasesText testcases).length := by
  induction tests generalizing testcases with
  | nil => exact Nat.zero_le _
  | cons t tests ih =>
      rw [List.mapM_cons] at h
      obtain ⟨items, hitems, h⟩ := Option.bind_eq_some_iff.mp h
      obtain ⟨rest, hrest, h⟩ := Option.bind_eq_some_iff.mp h
      cases h
      rw [xmlTestcase_eq] at hitems
      obtain ⟨name, -, rfl⟩ := Option.map_eq_some_iff.mp hitems
      have htext := congrArg List.length (testcase_text name t.runtime (xmlResult t) [])
      rw [List.append_nil, List.length_append] at htext
      have htag : 1 ≤ "    <testcase name=\"".toList.length := by decide
      have hrestLen := ih hrest
      rw [testcasesText_cons, List.length_append, List.length_cons]
      omega

theorem PrintedFloat.not_mem_of {text : CString} {c : Char} (h : PrintedFloat text)
    (hc : c ∉ "0123456789.-infa".toList) : c ∉ text := by
  intro hmem
  exact hc (h c hmem)

theorem PrintedFloat.attributeValue {text : CString} (h : PrintedFloat text) :
    '"' ∉ text ∧ isAttributeValue text = true :=
  ⟨h.not_mem_of (by decide),
    isAttributeValue_of_plain (h.not_mem_of (by decide)) (h.not_mem_of (by decide))⟩

/-- The attributes of the group after its name. -/
def groupAttributes (r : GroupReport) : CString :=
  " time=\"".toList ++ r.totalRuntime ++ "\" tests=\"".toList ++
    fmtZu (toUnsigned r.totalExecuted) ++ "\" failures=\"".toList ++
    fmtZu (toUnsigned r.totalFailed) ++ "\" errors=\"".toList ++
    fmtZu (toUnsigned r.totalErrors) ++ "\" skipped=\"".toList ++
    fmtZu (toUnsigned r.totalSkipped) ++ "\" ".toList

theorem not_mem_groupAttributes {r : GroupReport} (h : PrintedFloat r.totalRuntime) :
    '>' ∉ groupAttributes r := by
  unfold groupAttributes
  simp only [List.append_assoc, List.mem_append, not_or]
  exact ⟨by decide, h.not_mem_of (by decide), by decide, not_mem_fmtZu rfl _, by decide,
    not_mem_fmtZu rfl _, by decide, not_mem_fmtZu rfl _, by decide, not_mem_fmtZu rfl _, by decide⟩

/-- The text of the report, in the parts the reader takes. -/
theorem xmlReport_text {r : GroupReport} {name : CString} {testcases : List (List XmlItem)}
    (hname : cmprepareXmlAttributeString xmlBufferSize r.groupName = some name)
    (hcases : (r.tests.take r.totalExecuted).mapM xmlTestcase = some testcases) :
    ∃ items, xmlReport r = some items ∧ items.flatMap XmlItem.text =
      "<testsuites>\n  <testsuite name=\"".toList ++ (name ++ ("\"".toList ++ (groupAttributes r ++
        (">\n".toList ++ (testcasesText testcases ++ closingTags))))) := by
  have hitems : xmlReport r = some (.testsuites ::
      .testsuite name r.totalRuntime (toUnsigned r.totalExecuted) (toUnsigned r.totalFailed)
        (toUnsigned r.totalErrors) (toUnsigned r.totalSkipped) ::
      testcases.flatten ++ [.endTestsuite, .endTestsuites]) := by
    simp only [xmlReport, hname, hcases, Option.bind_eq_bind, Option.bind_some]
    rfl
  refine ⟨_, hitems, ?_⟩
  have hopen (s : CString) : "<testsuites>\n".toList ++ ("  <testsuite name=\"".toList ++ s) =
      "<testsuites>\n  <testsuite name=\"".toList ++ s := (append_of_eq (by rfl) s).symm
  have htime (s : CString) : "\" time=\"".toList ++ s = "\"".toList ++ (" time=\"".toList ++ s) :=
    append_of_eq (by rfl) s
  have hclose (s : CString) : "\" >\n".toList ++ s = "\" ".toList ++ (">\n".toList ++ s) :=
    append_of_eq (by rfl) s
  have hend : XmlItem.endTestsuite.text ++ XmlItem.endTestsuites.text = closingTags := by decide
  have hsuites : XmlItem.testsuites.text = "<testsuites>\n".toList := rfl
  rw [List.cons_append, List.cons_append, List.flatMap_cons, List.flatMap_cons, List.flatMap_append,
    List.flatMap_cons, List.flatMap_cons, List.flatMap_nil, List.append_nil, hend, hsuites,
    ← testcasesText]
  unfold XmlItem.text groupAttributes
  simp only [List.append_assoc]
  rw [hopen, htime, hclose]

/-- The report is read back: the names and messages that were put in come out, one test case for
each test. -/
def ReadsBack (r : GroupReport) : Prop :=
  ∃ items name testcases, xmlReport r = some items ∧
    cmprepareXmlAttributeString xmlBufferSize r.groupName = some name ∧
    (r.tests.take r.totalExecuted).mapM xmlTestcase = some testcases ∧
    readReport (items.flatMap XmlItem.text) = some (name, testcases)

/-- **The report is read back exactly when** no message of a failed test ends its section and the
names are escaped where they have to be. -/
theorem report_read_back_iff (r : GroupReport) (htotal : PrintedFloat r.totalRuntime)
    (htimes : ∀ t ∈ r.tests, PrintedFloat t.runtime) :
    ReadsBack r ↔ NameFits r.groupName ∧
      ∀ t ∈ r.tests.take r.totalExecuted, NameFits t.name ∧ MessageFits t := by
  obtain ⟨name, hname⟩ := cmprepareXmlAttributeString_some (show 0 < xmlBufferSize by decide)
    r.groupName
  obtain ⟨testcases, hcases⟩ := xmlTestcases_some (r.tests.take r.totalExecuted)
  obtain ⟨items, hitems, htext⟩ := xmlReport_text hname hcases
  have hvalues : ∀ t ∈ r.tests.take r.totalExecuted,
      '"' ∉ t.runtime ∧ isAttributeValue t.runtime = true := fun t ht =>
    (htimes t (List.mem_of_mem_take ht)).attributeValue
  have hbound : (r.tests.take r.totalExecuted).length ≤
      (testcasesText testcases ++ closingTags).length := by
    have hle := length_le_testcasesText hcases
    rw [List.length_append]
    omega
  have hread := readTestcases_iff hvalues hcases hbound
  have hattributes := (readUpTo_append_iff (show '\n' ∉ ['>'] by decide) (groupAttributes r)
    (testcasesText testcases ++ closingTags) _).mpr
    ⟨fun hmem => not_mem_groupAttributes htotal (hmem.subset (by decide)), rfl⟩
  -- the report, the name and the test cases are functions of `r`
  have hunique : ReadsBack r ↔ readReport (items.flatMap XmlItem.text) = some (name, testcases) := by
    constructor
    · rintro ⟨items', name', testcases', hitems', hname', hcases', h⟩
      rw [hitems] at hitems'
      rw [hname] at hname'
      rw [hcases] at hcases'
      cases hitems'
      cases hname'
      cases hcases'
      exact h
    · intro h
      exact ⟨items, name, testcases, hitems, hname, hcases, h⟩
  rw [hunique, NameFits, ← attribute_value_iff hname, ← hread, htext, readReport, readText_append]
  simp only [Option.bind_eq_bind, Option.bind_some]
  constructor
  · intro h
    obtain ⟨⟨name', s₁⟩, hreadName, h⟩ := Option.bind_eq_some_iff.mp h
    obtain ⟨⟨attributes, s₂⟩, hreadTag, h⟩ := Option.bind_eq_some_iff.mp h
    obtain ⟨⟨testcases', s₃⟩, hreadCases, h⟩ := Option.bind_eq_some_iff.mp h
    dsimp only at h
    split at h
    next hclosed =>
      cases h
      obtain ⟨hvalue, rfl⟩ := (readAttribute_iff _ _ _).mp hreadName
      have htag := hattributes.symm.trans hreadTag
      cases htag
      subst hclosed
      exact ⟨hvalue, hreadCases⟩
    next hclosed => cases h
  · rintro ⟨hvalue, hreadCases⟩
    have hreadName (s : CString) := (readAttribute_iff name s _).mpr ⟨hvalue, rfl⟩
    have hreadTag : readUpTo ">\n".toList (groupAttributes r ++ (">\n".toList ++
        (testcasesText testcases ++ closingTags))) = _ := hattributes
    simp only [hreadName, hreadTag, hreadCases, Option.bind_some]
    rfl

/-- A failed test with a plain message, after one that was skipped. -/
def failedReport (message : CString) : GroupReport where
  groupName := "group".toList
  totalExecuted := 2
  totalFailed := 1
  totalErrors := 0
  totalSkipped := 1
  totalRuntime := "0.000".toList
  tests := [⟨"first".toList, .failed, some message, "0.000".toList⟩,
    ⟨"second".toList, .skipped, none, "0.000".toList⟩]

theorem failedReport_times (message : CString) :
    PrintedFloat (failedReport message).totalRuntime ∧
      ∀ t ∈ (failedReport message).tests, PrintedFloat t.runtime := by
  have hzero : PrintedFloat "0.000".toList := by
    have hsub : "0.000".toList ⊆ "0123456789.-infa".toList := by decide
    exact hsub
  refine ⟨hzero, ?_⟩
  intro t ht
  rcases List.mem_cons.mp ht with rfl | ht
  · exact hzero
  · cases List.mem_singleton.mp ht
    exact hzero

/-- A name in which nothing has to be escaped. -/
theorem nameFits_of_plain {name : CString} (h : name.all isPlain = true) : NameFits name := by
  have hnone : ∀ c, isPlain c = false → c ∉ name.take (xmlBufferSize - 1) := by
    intro c hc hmem
    cases hc.symm.trans (List.all_eq_true.mp h c (List.mem_of_mem_take hmem))
  refine nameFits_of_safe ⟨?_, .inl ⟨hnone _ rfl, hnone _ rfl, hnone _ rfl, hnone _ rfl⟩⟩
  intro u v huv
  exact absurd (by rw [huv]; simp) (hnone '&' rfl)

theorem plain_message_read_back : ReadsBack (failedReport "1 != 2".toList) := by
  have htimes := failedReport_times "1 != 2".toList
  refine (report_read_back_iff _ htimes.1 htimes.2).mpr ⟨nameFits_of_plain (by decide), ?_⟩
  intro t ht
  rcases List.mem_cons.mp ht with rfl | ht
  · refine ⟨nameFits_of_plain (by decide), ?_⟩
    rintro - m ⟨rfl⟩
    decide
  · cases List.mem_singleton.mp ht
    refine ⟨nameFits_of_plain (by decide), ?_⟩
    rintro (h | h)
    · cases h
    · cases h

/-- An expression with `]]>` in it ends the section of the message. -/
theorem message_with_end_mark_lost : ¬ReadsBack (failedReport "a[b[0]]>1".toList) := by
  rintro ⟨items, name, testcases, hitems, -, -, hread⟩
  have hlost : (xmlReport (failedReport "a[b[0]]>1".toList)).bind
      (fun items => readReport (items.flatMap XmlItem.text)) = none := by decide +kernel
  rw [hitems, Option.bind_some, hread] at hlost
  cases hlost

end Cmocka
