import Cmocka.Model.Alloc

/-!
# Model — the memory dump

`print_data_diff` compares two buffers block by block, sixteen bytes at a time.  What it prints is
kept as the sequence of its records and skip marks (`DiffItem`); `DiffItem.text` is the text of each,
as the calls of `cmocka_print_error` give it.  A buffer is the list of its bytes, so that `buf_len`
is its length; a pointer is the part of the buffer from it on, `none` for `NULL`.
-/

namespace Cmocka

/-- One line of the dump: a record, or the mark of a gap. -/
inductive DiffItem where
  | record (mark : CString) (idx : Nat) (bytes : List (BitVec 8))
  | skipMark
  deriving DecidableEq

/-! ### The text of a line -/

/-- `%0*x`: at least `width` hexadecimal digits. -/
def fmtHex (width n : Nat) : CString :=
  let digits := Nat.toDigits 16 n
  List.replicate (width - digits.length) '0' ++ digits

/-- `isprint` in the C locale. -/
def isprint (byte : BitVec 8) : Bool := 0x20 ≤ byte.toNat && byte.toNat ≤ 0x7e

/-- `cmocka_print_ascii` of one byte. -/
def cmockaPrintAscii (byte : BitVec 8) : CString :=
  [if isprint byte then Char.ofNat byte.toNat else '.']

/-- The hexadecimal column `i` of `print_data_block16`. -/
def hexColumn (bytes : List (BitVec 8)) (i : Nat) : CString :=
  (if i = 8 then "  ".toList else []) ++
    match bytes[i]? with
    | some byte => " ".toList ++ fmtHex 2 byte.toNat
    | none => "   ".toList

/-- The character column `i` of `print_data_block16`. -/
def asciiColumn (bytes : List (BitVec 8)) (i : Nat) : CString :=
  (if i = 8 then " ".toList else []) ++ (bytes[i]?.toList.flatMap cmockaPrintAscii)

/-- What one line prints. -/
def DiffItem.text : DiffItem → CString
  | .skipMark => "SKIPPING ZERO BUFFER BYTES\n".toList
  | .record mark idx bytes =>
      mark ++ "[".toList ++ fmtHex 8 idx ++ "]".toList ++
        (List.range 16).flatMap (hexColumn bytes) ++ "   ".toList ++
        if bytes.length = 0 then "EMPTY   BLOCK\n".toList
        else (List.range bytes.length).flatMap (asciiColumn bytes) ++ "\n".toList

/-! ### The comparison -/

/-- `memcmp(a, b, n) == 0`. -/
def memcmpEqual (a b : List (BitVec 8)) (n : Nat) : Bool := a.take n == b.take n

/-- `all_zero`. -/
def allZero (buf : Option (List (BitVec 8))) (len : Nat) : Bool :=
  match buf with
  | none => true
  | some buf => len == 0 || (buf.head? == some 0 && memcmpEqual buf (buf.drop 1) (len - 1))

/-- `print_data_block16`; `none` is its assertion that fails. -/
def printDataBlock16 (mark : CString) (idx : Nat) (buf : Option (List (BitVec 8))) (len : Nat) :
    Option DiffItem :=
  if len ≤ 16 then some (.record mark idx ((buf.getD []).take len)) else none

/-- `this_len1` and `this_len2`. -/
def thisLen (buf : List (BitVec 8)) (i : Nat) : Nat :=
  if i < buf.length then min (buf.length - i) 16 else 0

/-- `this_buf1` and `this_buf2`. -/
def thisBuf (buf : List (BitVec 8)) (i : Nat) : Option (List (BitVec 8)) :=
  if i < buf.length then some (buf.drop i) else none

/-- The body of the loop of `print_data_diff`: what it prints, and `skipped`. -/
def printDataDiffBlock (buf1 buf2 : List (BitVec 8)) (omitZeroBytes : Bool) (i : Nat)
    (skipped : Bool) : Option (List DiffItem × Bool) :=
  let remainingLen := max buf1.length buf2.length - i
  let thisLen1 := thisLen buf1 i
  let thisLen2 := thisLen buf2 i
  let thisBuf1 := thisBuf buf1 i
  let thisBuf2 := thisBuf buf2 i
  if omitZeroBytes && 0 < i && 16 < remainingLen && thisLen1 == 16 && allZero thisBuf1 16 &&
      thisLen2 == 16 && allZero thisBuf2 16 then
    some (if skipped then [] else [.skipMark], true)
  else if thisLen1 == thisLen2 && memcmpEqual (thisBuf1.getD []) (thisBuf2.getD []) thisLen1 then do
    let item ← printDataBlock16 "  ".toList i thisBuf1 thisLen1
    return ([item], false)
  else do
    let minus ← printDataBlock16 "- ".toList i thisBuf1 thisLen1
    let plus ← printDataBlock16 "+ ".toList i thisBuf2 thisLen2
    return ([minus, plus], false)

/-- The loop of `print_data_diff`, with the `size_t` `i`.  `none` is also a loop that has not ended
after `bound` blocks. -/
def printDataDiffLoop (p : Platform) (buf1 buf2 : List (BitVec 8)) (omitZeroBytes : Bool) :
    (bound i : Nat) → (skipped : Bool) → Option (List DiffItem)
  | bound, i, skipped =>
      if i < max buf1.length buf2.length then
        match bound with
        | 0 => none
        | bound + 1 => do
            let (items, skipped) ← printDataDiffBlock buf1 buf2 omitZeroBytes i skipped
            let rest ← printDataDiffLoop p buf1 buf2 omitZeroBytes bound ((i + 16) % p.sizeLimit)
              skipped
            return items ++ rest
      else some []

/-- `print_data_diff`. -/
def printDataDiff (p : Platform) (buf1 buf2 : List (BitVec 8)) (omitZeroBytes : Bool) :
    Option (List DiffItem) :=
  printDataDiffLoop p buf1 buf2 omitZeroBytes (max buf1.length buf2.length) 0 false

end Cmocka
