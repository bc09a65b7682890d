import Mathlib.Algebra.Group.Int.Defs
import Mathlib.Algebra.Group.Nat.Defs
import Mathlib.Data.List.Basic

/-!
# Model — the texts the library handles

C strings are lists of characters (one per byte, without the terminating NUL).  This module has
the source locations, the conversions of `printf` the messages use, the accumulation of
`cm_error_message` (`vcmocka_print_error`), the selection of output formats (`cm_get_output`) and
the matcher of the test filters (`c_strmatch`).

Allocations of message texts by `libc_calloc`, `libc_realloc` and `strdup` succeed.
-/

namespace Cmocka

/-- A NUL-terminated string, without its NUL. -/
abbrev CString := List Char

/-- A machine address; `0` is `NULL`. -/
abbrev Addr := Nat

/-! ### Source locations -/

/-- `SourceLocation`. -/
structure SourceLocation where
  file : Option CString
  line : Int
  deriving DecidableEq, Repr

/-- `initialize_source_location`. -/
def initializeSourceLocation : SourceLocation := ⟨none, 0⟩

/-- `set_source_location`. -/
def setSourceLocation (file : CString) (line : Int) : SourceLocation := ⟨some file, line⟩

/-- `source_location_is_set`. -/
def sourceLocationIsSet (location : SourceLocation) : Bool :=
  location.file.isSome && location.line != 0

/-! ### Conversions -/

/-- `%s`; a `NULL` argument prints as `(null)`. -/
def fmtS (s : Option CString) : CString := s.getD "(null)".toList

/-- `%u` of an `int`: the value modulo `2^32`. -/
def fmtU (n : Int) : CString := Nat.toDigits 10 (n % 2 ^ 32).toNat

/-- `%zu` and `%lu`. -/
def fmtZu (n : Nat) : CString := Nat.toDigits 10 n

/-- `%p`; `NULL` prints as `(nil)`. -/
def fmtP (p : Addr) : CString :=
  if p = 0 then "(nil)".toList else "0x".toList ++ Nat.toDigits 16 p

/-- `SOURCE_LOCATION_FORMAT`, `"%s:%u"`. -/
def fmtLocation (location : SourceLocation) : CString :=
  fmtS location.file ++ ":".toList ++ fmtU location.line

/-- The same at an explicit `file, line` pair. -/
def fmtFileLine (file : CString) (line : Int) : CString := file ++ ":".toList ++ fmtU line

/-! ### The error message -/

/-- `sizeof(buffer)` in `vcmocka_print_error`. -/
def printErrorBufferSize : Nat := 256

/-- `vcmocka_print_error` on the formatted text: append to `cm_error_message`, creating it if it
is `NULL`.  A text that does not fit the stack buffer is formatted again, straight into the
message, with `vsnprintf(.., len, ..)`, which stores `len - 1` characters. -/
def vcmockaPrintError (cmErrorMessage : Option CString) (text : CString) : Option CString :=
  if text.length < printErrorBufferSize then
    some (cmErrorMessage.getD [] ++ text)
  else
    some (cmErrorMessage.getD [] ++ text.take (text.length - 1))

/-! ### Output formats -/

/-- `enum cm_message_output`. -/
def cmOutputStandard : BitVec 32 := 1
def cmOutputSubunit : BitVec 32 := 2
def cmOutputTap : BitVec 32 := 4
def cmOutputXml : BitVec 32 := 8

/-- `output & flag` as a condition. -/
def hasOutput (output flag : BitVec 32) : Bool := output &&& flag != 0

/-- `strcasecmp(a, b) == 0`. -/
def strcaseEq (a b : CString) : Bool := a.map Char.toLower == b.map Char.toLower

/-- The tokens `strtok_r(.., ",", ..)` returns: the non-empty pieces between commas. -/
def strtok (s : CString) : List CString := (s.splitOn ',').filter (fun t => !t.isEmpty)

/-- The format one token of `CMOCKA_MESSAGE_OUTPUT` names, `0` if none. -/
def outputOfToken (token : CString) : BitVec 32 :=
  if strcaseEq token "STANDARD".toList then cmOutputStandard
  else if strcaseEq token "STDOUT".toList then cmOutputStandard
  else if strcaseEq token "SUBUNIT".toList then cmOutputSubunit
  else if strcaseEq token "TAP".toList then cmOutputTap
  else if strcaseEq token "XML".toList then cmOutputXml
  else 0

/-- The loop of `cm_get_output`: `new_output` after the whole token list. -/
def parseOutput (env : CString) : BitVec 32 :=
  (strtok env).foldl (fun newOutput token => newOutput ||| outputOfToken token) 0

/-- `cm_get_output`, with the value of `CMOCKA_MESSAGE_OUTPUT`, the static `env_checked` and
`global_msg_output`; the result is the returned format and the new values of the last two. -/
def cmGetOutput (env : Option CString) (envChecked : Bool) (globalMsgOutput : BitVec 32) :
    BitVec 32 × Bool × BitVec 32 :=
  if envChecked then (globalMsgOutput, envChecked, globalMsgOutput)
  else
    match env with
    | none => (globalMsgOutput, envChecked, globalMsgOutput)
    | some env =>
        if env.length = 0 ∨ env.length > 32 then (globalMsgOutput, envChecked, globalMsgOutput)
        else
          let newOutput := parseOutput env
          let output := if newOutput ≠ 0 then newOutput else globalMsgOutput
          (output, true, output)

/-! ### The filter matcher -/

/-- The body of `c_strmatch` for non-`NULL` arguments.  The loop over the characters of the
pattern is the recursion; after a `*` the remaining pattern is tried at every position of `str`
that is not its end. -/
def cStrmatchLoop : (pattern : CString) → (str : CString) → Bool
  | [], str => str.isEmpty
  | c :: pattern, str =>
      if c = '*' then
        if pattern.isEmpty then true
        else str.tails.any (fun s => !s.isEmpty && cStrmatchLoop pattern s)
      else
        match str with
        | [] => false
        | s :: str => if c ≠ '?' ∧ s ≠ c then false else cStrmatchLoop pattern str

/-- `c_strmatch`. -/
def cStrmatch (str pattern : Option CString) : Bool :=
  match str, pattern with
  | some str, some pattern => cStrmatchLoop pattern str
  | _, _ => false

end Cmocka
