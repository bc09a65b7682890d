import Cmocka.Model.State

/-!
# Model — the reports

The texts of the TAP and XML formats, and the XML file.  A report function gives the text it prints;
which stream it goes to is part of its description: `print_message` is `stdout`.  The XML report is
kept as the sequence of its `fprintf` calls (`XmlItem`) until it is written.  Run times are given as
the texts `%.3f` prints.

The file system is a map from paths to contents, in which every file can be read.  `fopen` for
writing takes its answer as an argument.
-/

namespace Cmocka

/-! ### Replacing in place -/

/-- `strstr`: the offset of the first occurrence. -/
def strstr (pattern : CString) : CString → Option Nat
  | [] => if pattern.isEmpty then some 0 else none
  | c :: rest =>
      if pattern.isPrefixOf (c :: rest) then some 0 else (strstr pattern rest).map (· + 1)

/-- The outcome of `c_strreplace`: the buffer, the result, and `*str_replaced`. -/
structure StrReplace where
  text : CString
  ok : Bool
  strReplaced : Bool
  deriving DecidableEq

/-- The loop of `c_strreplace`; `done` is the part of the buffer before `p`'s search, `rest` the
part still searched.  `none` is a loop that has not ended after `bound` replacements. -/
def cStrreplaceLoop (srcLen : Nat) (pattern repl : CString) :
    (bound : Nat) → (strReplaced : Bool) → (done rest : CString) → Option StrReplace
  | bound, strReplaced, done, rest =>
      match strstr pattern rest with
      | none => some ⟨done ++ rest, true, strReplaced⟩
      | some offset =>
          if srcLen ≤ (done ++ rest).length + max pattern.length repl.length + 1 then
            some ⟨done ++ rest, false, strReplaced⟩
          else
            match bound with
            | 0 => none
            | bound + 1 =>
                cStrreplaceLoop srcLen pattern repl bound true (done ++ rest.take offset ++ repl)
                  (rest.drop (offset + pattern.length))

/-- `c_strreplace` of non-`NULL` arguments on a buffer of size `srcLen`. -/
def cStrreplace (src : CString) (srcLen : Nat) (pattern repl : CString) : Option StrReplace :=
  if srcLen = 0 then some ⟨src, false, false⟩
  else cStrreplaceLoop srcLen pattern repl srcLen false [] src

/-- `snprintf(buf, n, "%s", s)`. -/
def snprintfS (n : Nat) (s : CString) : CString := s.take (n - 1)

/-- `%u` of a `size_t` cast to `unsigned`. -/
def toUnsigned (n : Nat) : Nat := n % 2 ^ 32

/-! ### TAP -/

/-- `cmprintf_group_start_tap`: the text and the new value of `version_printed`. -/
def cmprintfGroupStartTap (versionPrinted : Bool) (numTests : Nat) : CString × Bool :=
  ((if versionPrinted then [] else "TAP version 13\n".toList) ++ "1..".toList ++
    fmtZu (toUnsigned numTests) ++ "\n".toList, true)

/-- `cmprintf_group_finish_tap`. -/
def cmprintfGroupFinishTap (groupName : CString) (totalExecuted totalPassed totalSkipped : Nat) :
    CString :=
  let status := if totalPassed + totalSkipped = totalExecuted then "ok" else "not ok"
  "# ".toList ++ status.toList ++ " - ".toList ++ groupName ++ "\n".toList

/-- The loop of `cmprintf_tap` over the lines of a message; `q` is the line being read. -/
def tapLines : (q : CString) → (p : CString) → List CString
  | q, [] => if q.isEmpty then [] else [q]
  | q, c :: p => if c = '\n' then q :: tapLines [] p else tapLines (q ++ [c]) p

/-- `cmprintf_tap`. -/
def cmprintfTap (type : CmPrintfType) (testNumber : Nat) (testName : CString)
    (errorMessage : Option CString) : CString :=
  let number := fmtZu (toUnsigned testNumber)
  match type with
  | .testStart => []
  | .testSuccess => "ok ".toList ++ number ++ " - ".toList ++ testName ++ "\n".toList
  | .testFailure =>
      "not ok ".toList ++ number ++ " - ".toList ++ testName ++ "\n".toList ++
        match errorMessage with
        | none => []
        | some message =>
            (tapLines [] message).flatMap fun q => "# ".toList ++ q ++ "\n".toList
  | .testSkipped => "ok ".toList ++ number ++ " # SKIP ".toList ++ testName ++ "\n".toList
  | .testError =>
      "not ok ".toList ++ number ++ " - ".toList ++ testName ++ " ".toList ++ fmtS errorMessage ++
        "\n".toList

/-- What an event of the reports prints to `stdout` in the TAP format, and the new value of
`version_printed`. -/
def Event.tap (versionPrinted : Bool) : Event → CString × Bool
  | .groupStart _ totalTests => cmprintfGroupStartTap versionPrinted totalTests
  | .cmprintf type testNumber testName errorMessage =>
      (cmprintfTap type testNumber testName errorMessage, versionPrinted)
  | .groupFinish groupName executed passed _ _ skipped _ =>
      (cmprintfGroupFinishTap groupName executed passed skipped, versionPrinted)
  | _ => ([], versionPrinted)

/-- The text on `stdout` of a sequence of events, in the TAP format. -/
def tapOutput : (versionPrinted : Bool) → List Event → CString
  | _, [] => []
  | versionPrinted, e :: events =>
      (e.tap versionPrinted).1 ++ tapOutput (e.tap versionPrinted).2 events

/-! ### XML -/

/-- `cmprepare_xml_attribute_string`. -/
def cmprepareXmlAttributeString (bufLen : Nat) (src : CString) : Option CString := do
  let buf := snprintfS bufLen src
  let buf ← (cStrreplace buf bufLen "&".toList "&amp;".toList).map StrReplace.text
  let buf ← (cStrreplace buf bufLen "\"".toList "&quot;".toList).map StrReplace.text
  let buf ← (cStrreplace buf bufLen "'".toList "&apos;".toList).map StrReplace.text
  let buf ← (cStrreplace buf bufLen "<".toList "&lt;".toList).map StrReplace.text
  (cStrreplace buf bufLen ">".toList "&gt;".toList).map StrReplace.text

/-- The `fprintf` calls of `cmprintf_group_finish_xml`. -/
inductive XmlItem where
  | declaration
  | testsuites
  | testsuite (name time : CString) (tests failures errors skipped : Nat)
  | testcase (name time : CString)
  | failure (errorMessage : Option CString)
  | skipped
  | endTestcase
  | endTestsuite
  | endTestsuites
  deriving DecidableEq

/-- The XML declaration line. -/
def xmlDeclaration : CString := "<?xml version=\"1.0\" encoding=\"UTF-8\" ?>\n".toList

/-- The text of one `fprintf` call. -/
def XmlItem.text : XmlItem → CString
  | .declaration => xmlDeclaration
  | .testsuites => "<testsuites>\n".toList
  | .testsuite name time tests failures errors skippedTests =>
      "  <testsuite name=\"".toList ++ name ++ "\" time=\"".toList ++ time ++ "\" tests=\"".toList ++
        fmtZu tests ++ "\" failures=\"".toList ++ fmtZu failures ++ "\" errors=\"".toList ++
        fmtZu errors ++ "\" skipped=\"".toList ++ fmtZu skippedTests ++ "\" >\n".toList
  | .testcase name time =>
      "    <testcase name=\"".toList ++ name ++ "\" time=\"".toList ++ time ++ "\" >\n".toList
  | .failure (some message) =>
      "      <failure><![CDATA[".toList ++ message ++ "]]></failure>\n".toList
  | .failure none => "      <failure message=\"Unknown error\" />\n".toList
  | .skipped => "      <skipped/>\n".toList
  | .endTestcase => "    </testcase>\n".toList
  | .endTestsuite => "  </testsuite>\n".toList
  | .endTestsuites => "</testsuites>\n".toList

/-- What the XML report reads of a `struct CMUnitTestState`. -/
structure TestReport where
  name : CString
  status : CMUnitTestStatus
  errorMessage : Option CString
  runtime : CString

/-- The arguments of `cmprintf_group_finish_xml`; `tests` is the array. -/
structure GroupReport where
  groupName : CString
  totalExecuted : Nat
  totalFailed : Nat
  totalErrors : Nat
  totalSkipped : Nat
  totalRuntime : CString
  tests : List TestReport

/-- `sizeof` of the buffers of `cmprintf_group_finish_xml`. -/
def xmlBufferSize : Nat := 1024

/-- The body of the loop over the tests. -/
def xmlTestcase (t : TestReport) : Option (List XmlItem) := do
  let name ← cmprepareXmlAttributeString xmlBufferSize t.name
  let result := match t.status with
    | .error | .failed => [.failure t.errorMessage]
    | .skipped => [.skipped]
    | .passed | .notStarted => []
  return .testcase name t.runtime :: result ++ [.endTestcase]

/-- The report, without its declaration. -/
def xmlReport (r : GroupReport) : Option (List XmlItem) := do
  let name ← cmprepareXmlAttributeString xmlBufferSize r.groupName
  let testcases ← (r.tests.take r.totalExecuted).mapM xmlTestcase
  return .testsuites ::
    .testsuite name r.totalRuntime (toUnsigned r.totalExecuted) (toUnsigned r.totalFailed)
      (toUnsigned r.totalErrors) (toUnsigned r.totalSkipped) ::
    testcases.flatten ++ [.endTestsuite, .endTestsuites]

/-! ### The XML file -/

/-- Where `fp` points. -/
inductive Stream where
  | stdout
  | stderr
  | file (path : CString)
  deriving DecidableEq

/-- The statics `xml_printed` and `file_append`, the files, and what was written to the standard
streams. -/
structure XmlState where
  xmlPrinted : Bool
  fileAppend : Bool
  files : CString → Option CString
  stdout : CString
  stderr : CString

/-- `fprintf`. -/
def XmlState.print (st : XmlState) (fp : Stream) (text : CString) : XmlState :=
  match fp with
  | .stdout => { st with stdout := st.stdout ++ text }
  | .stderr => { st with stderr := st.stderr ++ text }
  | .file path =>
      { st with files := Function.update st.files path ((st.files path).map (· ++ text)) }

/-- The path of the XML file: `%g` stands for the name of the group, unless the path gets too
long. -/
def xmlPath (env groupName : CString) : Option CString := do
  let buf := snprintfS xmlBufferSize env
  let r ← cStrreplace buf xmlBufferSize "%g".toList groupName
  return if r.ok then r.text else snprintfS xmlBufferSize env

/-- The part of `cmprintf_group_finish_xml` that opens the file: `fp`, `file_opened` and the state
after it.  `opens` says whether `fopen` for writing or appending succeeds. -/
def openXml (path : CString) (opens : Bool) (st : XmlState) : Stream × Bool × XmlState :=
  match st.files path with
  | none =>
      if opens then
        (.file path, true,
          { st with fileAppend := true, files := Function.update st.files path (some []) })
      else (.stderr, false, st)
  | some _ =>
      if st.fileAppend then
        if opens then (.file path, true, { st with xmlPrinted := true }) else (.stderr, false, st)
      else (.stderr, false, st)

/-- The part of `cmprintf_group_finish_xml` that prints. -/
def printXml (fp : Stream) (fileOpened : Bool) (items : List XmlItem) (st : XmlState) : XmlState :=
  let declared := !st.xmlPrinted || (fileOpened && !st.fileAppend)
  let items := if declared then .declaration :: items else items
  { st.print fp (items.flatMap XmlItem.text) with
    xmlPrinted := st.xmlPrinted || (declared && !fileOpened) }

/-- `cmprintf_group_finish_xml`, with the value of `CMOCKA_XML_FILE`. -/
def cmprintfGroupFinishXml (env : Option CString) (opens : Bool) (r : GroupReport)
    (st : XmlState) : Option XmlState := do
  let items ← xmlReport r
  match env with
  | none => return printXml .stdout false items st
  | some env => do
      let path ← xmlPath env r.groupName
      let (fp, fileOpened, st) := openXml path opens st
      return printXml fp fileOpened items st

end Cmocka
