import Cmocka.Model.Report
import Cmocka.Support.Patch

/-!
# Model — strings in buffers

The same `c_strreplace` and `vcmocka_print_error` once more, on the bytes they work on.  A buffer is
the list of its characters, with a NUL somewhere; every read and every write is checked against its
end, and `none` is an access outside.  What a fresh piece of memory holds is a parameter (`junk`).
-/

namespace Cmocka

open Patch

/-- The terminating character. -/
def nul : Char := Char.ofNat 0

namespace Buffer

/-- The string a pointer into a buffer points to; `none` is a read past the end. -/
def stringAt (buf : List Char) (i : Nat) : Option CString :=
  if nul ∈ buf.drop i then some ((buf.drop i).takeWhile (· ≠ nul)) else none

/-- `memcpy` from elsewhere into the buffer. -/
def memcpy (buf : List Char) (dst : Nat) (src : List Char) : Option (List Char) := store buf dst src

/-- `memmove` inside the buffer. -/
def memmove (buf : List Char) (dst src n : Nat) : Option (List Char) :=
  if src + n ≤ buf.length then store buf dst (window buf src n) else none

/-- `vsnprintf` of a formatted text: at most `n - 1` characters, and the NUL. -/
def vsnprintf (buf : List Char) (dst n : Nat) (text : CString) : Option (List Char) :=
  if n = 0 then some buf else store buf dst (text.take (n - 1) ++ [nul])

/-! ### `c_strreplace` -/

/-- The outcome of `c_strreplace`: the buffer, the result, whether `*str_replaced` was set and
whether `errno` was set to `EINVAL`. -/
structure Replaced where
  buf : List Char
  ok : Bool
  strReplaced : Bool
  einval : Bool
  deriving DecidableEq

/-- One replacement: `memmove` the rest of the string, unless the lengths are the same, and `memcpy`
the replacement.  `l` is the length of the string. -/
def replaceAt (buf : List Char) (offset l : Nat) (pattern repl : CString) : Option (List Char) :=
  if repl.length ≠ pattern.length then do
    let buf ← memmove buf (offset + repl.length) (offset + pattern.length)
      (l - offset - pattern.length + 1)
    memcpy buf offset repl
  else memcpy buf offset repl

/-- The `do` loop of `c_strreplace`; `offset` is `p - src`.  `none` is also a loop that has not ended
after `bound` rounds. -/
def cStrreplaceLoop (srcLen : Nat) (pattern repl : CString) :
    (bound : Nat) → (buf : List Char) → (strReplaced : Bool) → (offset : Nat) → Option Replaced
  | 0, _, _, _ => none
  | bound + 1, buf, strReplaced, offset => do
      let l := (← stringAt buf 0).length
      if srcLen ≤ l + max pattern.length repl.length + 1 then
        return ⟨buf, false, strReplaced, false⟩
      else do
        let buf ← replaceAt buf offset l pattern repl
        let rest ← stringAt buf (offset + repl.length)
        match strstr pattern rest with
        | none => return ⟨buf, true, true, false⟩
        | some next => cStrreplaceLoop srcLen pattern repl bound buf true (offset + repl.length + next)

/-- `c_strreplace` on a buffer; a string that is `none` is `NULL`. -/
def cStrreplace (src : List Char) (srcLen : Nat) (pattern repl : Option CString) :
    Option Replaced :=
  match pattern, repl with
  | some pattern, some repl =>
      if srcLen = 0 then some ⟨src, false, false, true⟩
      else do
        match strstr pattern (← stringAt src 0) with
        | none => return ⟨src, true, false, false⟩
        | some offset => cStrreplaceLoop srcLen pattern repl srcLen src false offset
  | _, _ => some ⟨src, false, false, true⟩

/-! ### `vcmocka_print_error` -/

/-- `libc_realloc`: what was there is kept, the rest is new. -/
def realloc (junk : Nat → Char) (buf : List Char) (size : Nat) : List Char :=
  buf.take size ++ (List.range (size - buf.length)).map junk

/-- The end of `vcmocka_print_error`: from the stack buffer if the text fits it, else formatted
again. -/
def copyText (buffer message : List Char) (msgLen : Nat) (text : CString) : Option (List Char) :=
  if text.length < printErrorBufferSize then
    memcpy message msgLen (window buffer 0 (text.length + 1))
  else vsnprintf message msgLen text.length text

/-- `vcmocka_print_error` on the formatted text, whose length is `len`. -/
def vcmockaPrintError (junk : Nat → Char) (cmErrorMessage : Option (List Char)) (text : CString) :
    Option (List Char) := do
  let buffer ← vsnprintf ((List.range printErrorBufferSize).map junk) 0 printErrorBufferSize text
  let len := text.length
  match cmErrorMessage with
  | none => copyText buffer (List.replicate (len + 1) nul) 0 text
  | some message => do
      let msgLen := (← stringAt message 0).length
      copyText buffer (realloc junk message (msgLen + len + 1)) msgLen text

/-- The calls since `cm_error_message` was `NULL`. -/
def printErrors (junk : Nat → Char) :
    (cmErrorMessage : Option (List Char)) → List CString → Option (Option (List Char))
  | cmErrorMessage, [] => some cmErrorMessage
  | cmErrorMessage, text :: texts => do
      let message ← vcmockaPrintError junk cmErrorMessage text
      printErrors junk (some message) texts

end Buffer

end Cmocka
