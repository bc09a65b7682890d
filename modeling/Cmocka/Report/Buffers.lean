import Cmocka.Model.Buffer
import Cmocka.Report.Replace

/-!
# Report — strings in buffers

The two functions of the reports that edit a buffer in place, on the bytes.  A buffer that holds a
string is `text ++ nul :: rest`; each function is followed through its moves in that form.

`c_strreplace` on a buffer does what it does on the string (`Buffer.cStrreplaceLoop_refines`): there
is always room for the text that is moved, because the test before it asks for more.
`vcmocka_print_error` stays inside the message it has allocated, but a text that does not fit its
stack buffer loses its last character: the length given to the second `vsnprintf` has no room for the
NUL (`printed_errors_kept_iff`).
-/

namespace Cmocka

open Patch

namespace Buffer

/-! ### The string in a buffer -/

theorem takeWhile_nul {s rest : List Char} (hs : nul ∉ s) :
    (s ++ nul :: rest).takeWhile (· ≠ nul) = s := by
  induction s with
  | nil => simp
  | cons c s ih =>
      rw [List.mem_cons, not_or] at hs
      have hc : c ≠ nul := fun h => hs.1 h.symm
      rw [List.cons_append, List.takeWhile_cons, if_pos (by simpa using hc), ih hs.2]

theorem stringAt_parts {before s rest : List Char} {i : Nat} (hi : i = before.length)
    (hs : nul ∉ s) : stringAt (before ++ (s ++ nul :: rest)) i = some s := by
  subst hi
  rw [stringAt, List.drop_left, if_pos (by simp), takeWhile_nul hs]

theorem stringAt_zero {s rest : List Char} (hs : nul ∉ s) :
    stringAt (s ++ nul :: rest) 0 = some s := by
  rw [← List.nil_append (s ++ nul :: rest)]
  exact stringAt_parts rfl hs

/-- A buffer that holds a string. -/
theorem stringAt_some {buf s : List Char} (h : stringAt buf 0 = some s) :
    nul ∉ s ∧ ∃ rest, buf = s ++ nul :: rest := by
  unfold stringAt at h
  split at h
  next hmem =>
    rw [List.drop_zero] at hmem h
    obtain ⟨s', rest, rfl, hs'⟩ := List.eq_append_cons_of_mem hmem
    cases h
    rw [takeWhile_nul hs']
    exact ⟨hs', rest, rfl⟩
  next hmem => cases h

/-! ### Replacing in a buffer -/

/-- The text after the occurrence is moved, with its NUL, and the replacement goes where it was. -/
theorem replaceAt_parts (a d b rest : List Char) (repl : CString)
    (hroom : (a ++ d ++ b).length + max d.length repl.length + 1 <
      (a ++ d ++ (b ++ nul :: rest)).length) :
    ∃ rest', replaceAt (a ++ d ++ (b ++ nul :: rest)) a.length (a ++ d ++ b).length d repl =
        some (a ++ repl ++ (b ++ nul :: rest')) ∧
      (a ++ repl ++ (b ++ nul :: rest')).length = (a ++ d ++ (b ++ nul :: rest)).length := by
  simp only [List.length_append, List.length_cons] at hroom
  have htail : (a ++ d ++ b).length - a.length - d.length + 1 = (b ++ [nul]).length := by
    simp only [List.length_append, List.length_singleton]
    omega
  have hbuf : a ++ d ++ (b ++ nul :: rest) = a ++ d ++ (b ++ [nul]) ++ rest := by simp
  unfold replaceAt
  split
  next hne =>
    -- the window read is the tail; what it is written over lies in `d`, `b` and the free part
    have hread : window (a ++ d ++ (b ++ nul :: rest)) (a.length + d.length)
        (b ++ [nul]).length = b ++ [nul] := by
      rw [hbuf]
      exact window_parts (List.length_append ..).symm rfl
    obtain ⟨gap, after, hsplit, hgap⟩ : ∃ gap after, d ++ (b ++ nul :: rest) = gap ++ after ∧
        gap.length = repl.length := by
      refine ⟨_, _, (List.take_append_drop repl.length _).symm, ?_⟩
      rw [List.length_take]
      simp only [List.length_append, List.length_cons]
      omega
    have hlen := congrArg List.length hsplit
    simp only [List.length_append, List.length_cons] at hlen
    have hmove : memmove (a ++ d ++ (b ++ nul :: rest)) (a.length + repl.length)
        (a.length + d.length) ((a ++ d ++ b).length - a.length - d.length + 1) =
        some (a ++ gap ++ (b ++ [nul]) ++ after.drop (b ++ [nul]).length) := by
      rw [memmove, htail, if_pos, hread, List.append_assoc a d, hsplit, ← List.append_assoc]
      · refine store_append ?_ ?_
        · rw [List.length_append, hgap]
        · simp only [List.length_append, List.length_singleton]
          omega
      · simp only [List.length_append, List.length_cons, List.length_nil]
        omega
    refine ⟨after.drop (b ++ [nul]).length, ?_, ?_⟩
    · rw [hmove, Option.bind_eq_bind, Option.bind_some, memcpy, List.append_assoc (a ++ gap),
        store_parts rfl hgap]
      simp
    · simp only [List.length_append, List.length_cons, List.length_drop, List.length_nil]
      omega
  next heq =>
    have hlen : d.length = repl.length := (not_not.mp heq).symm
    refine ⟨rest, ?_, ?_⟩
    · rw [memcpy, store_parts rfl hlen]
    · simp only [List.length_append, List.length_cons]
      omega

/-- **The loop on the buffer is the loop on the string.** -/
theorem cStrreplaceLoop_refines {pattern repl : CString} (hpattern : pattern ≠ [])
    (hrepl : nul ∉ repl) {srcLen bound offset : Nat} {strReplaced : Bool}
    {before s rest : List Char} (hbound : s.length ≤ bound)
    (hlen : (before ++ (s ++ nul :: rest)).length = srcLen) (hnul : nul ∉ before ++ s)
    (hfound : strstr pattern s = some offset) {r : StrReplace}
    (h : Cmocka.cStrreplaceLoop srcLen pattern repl bound strReplaced before s = some r) :
    nul ∉ r.text ∧ ∃ rest', (r.text ++ nul :: rest').length = srcLen ∧
      cStrreplaceLoop srcLen pattern repl bound (before ++ (s ++ nul :: rest)) strReplaced
        (before.length + offset) = some ⟨r.text ++ nul :: rest', r.ok, r.strReplaced, false⟩ := by
  induction bound generalizing strReplaced before s rest offset with
  | zero =>
      obtain rfl := List.length_eq_zero_iff.mp (Nat.le_zero.mp hbound)
      cases pattern with
      | nil => exact absurd rfl hpattern
      | cons p ps => cases hfound
  | succ bound ih =>
      have hstring : stringAt (before ++ (s ++ nul :: rest)) 0 = some (before ++ s) := by
        rw [← List.append_assoc]
        exact stringAt_zero hnul
      rw [Cmocka.cStrreplaceLoop, hfound] at h
      rw [cStrreplaceLoop, hstring, Option.bind_eq_bind, Option.bind_some]
      simp only at h
      split at h
      next hfull =>
        cases h
        refine ⟨hnul, rest, ?_, ?_⟩
        · rw [List.append_assoc, hlen]
        · rw [if_pos hfull, List.append_assoc]
          rfl
      next hroom =>
        rw [if_neg hroom]
        have hs := strstr_some hfound
        obtain ⟨u, v, hu, hv⟩ : ∃ u v, s.take offset = u ∧ s.drop (offset + pattern.length) = v :=
          ⟨_, _, rfl, rfl⟩
        rw [hu, hv] at h hs
        have hoff : offset = u.length := by
          rw [← hu, List.length_take]
          have hle := strstr_length hfound
          omega
        subst hs
        have hparts : before ++ (u ++ pattern ++ v ++ nul :: rest) =
            before ++ u ++ pattern ++ (v ++ nul :: rest) := by simp
        have hdone : before ++ (u ++ pattern ++ v) = before ++ u ++ pattern ++ v := by simp
        have hat : before.length + offset = (before ++ u).length := by
          rw [List.length_append, hoff]
        rw [hparts] at hlen ⊢
        rw [hdone] at hroom hnul ⊢
        obtain ⟨rest', hedit, hlen'⟩ := replaceAt_parts (before ++ u) pattern v rest repl
          (by omega)
        simp only [List.mem_append, not_or] at hnul
        obtain ⟨⟨⟨hbefore, hu'⟩, -⟩, hv'⟩ := hnul
        have hnul' : nul ∉ before ++ u ++ repl ++ v := by
          simp only [List.mem_append, not_or]
          exact ⟨⟨⟨hbefore, hu'⟩, hrepl⟩, hv'⟩
        have hend : (before ++ u ++ repl).length = before.length + offset + repl.length := by
          rw [hat, List.length_append]
        have hnext : stringAt (before ++ u ++ repl ++ (v ++ nul :: rest'))
            (before.length + offset + repl.length) = some v := by
          refine stringAt_parts ?_ hv'
          rw [hend]
        rw [← hat] at hedit
        simp only [hedit, hnext, Option.bind_some]
        -- what is searched next is `v`, behind the replacement
        cases hsearch : strstr pattern v with
        | none =>
            rw [Cmocka.cStrreplaceLoop, hsearch] at h
            cases h
            refine ⟨hnul', rest', ?_, ?_⟩
            · rw [List.append_assoc _ v, hlen', hlen]
            · rw [List.append_assoc _ v]
              rfl
        | some next =>
            have hpos : 0 < pattern.length := List.length_pos_iff.mpr hpattern
            simp only [List.length_append] at hbound
            have hrun := ih (by omega) (hlen'.trans hlen) hnul' hsearch h
            rw [hend] at hrun
            exact hrun

/-- `c_strreplace` on a buffer that holds `src`. -/
theorem cStrreplace_refines {buf : List Char} {src pattern repl : CString}
    (hsrc : stringAt buf 0 = some src) (hpattern : pattern ≠ []) (hrepl : nul ∉ repl) :
    ∃ r rest, Cmocka.cStrreplace src buf.length pattern repl = some r ∧ nul ∉ r.text ∧
      (r.text ++ nul :: rest).length = buf.length ∧
      cStrreplace buf buf.length (some pattern) (some repl) =
        some ⟨r.text ++ nul :: rest, r.ok, r.strReplaced, false⟩ := by
  obtain ⟨hnul, rest, hbuf⟩ := stringAt_some hsrc
  have hlen : src.length < buf.length := by
    rw [hbuf, List.length_append, List.length_cons]
    omega
  obtain ⟨r, hr, -⟩ := cStrreplace_fits repl hpattern hlen
  have hloop := hr
  rw [Cmocka.cStrreplace, if_neg (by omega)] at hloop
  rw [cStrreplace, if_neg (by omega), hsrc, Option.bind_eq_bind, Option.bind_some]
  cases hsearch : strstr pattern src with
  | none =>
      rw [Cmocka.cStrreplaceLoop, hsearch] at hloop
      cases hloop
      refine ⟨_, rest, hr, hnul, by rw [List.nil_append, hbuf], ?_⟩
      rw [List.nil_append, ← hbuf]
      rfl
  | some offset =>
      obtain ⟨hnul', rest', hlen', hrun⟩ :=
        cStrreplaceLoop_refines hpattern hrepl (by omega) (congrArg List.length hbuf.symm) hnul
          hsearch hloop
      rw [List.nil_append, ← hbuf, List.length_nil, Nat.zero_add] at hrun
      exact ⟨r, rest', hr, hnul', hlen', hrun⟩

end Buffer

open Replacing in
/-- **Replacing in place.**  The string that is left has the first `i` occurrences replaced, where
`i` is all of them if there is room for the last replacement at its time; every write was inside the
buffer. -/
theorem strreplace_in_place (buf : List Char) (src pattern repl : CString)
    (hsrc : Buffer.stringAt buf 0 = some src) (hpattern : pattern ≠ []) (hrepl : nul ∉ repl) :
    ∃ r i, Buffer.cStrreplace buf buf.length (some pattern) (some repl) = some r ∧
      r.buf.length = buf.length ∧ i ≤ count pattern src ∧
      Buffer.stringAt r.buf 0 = some (replaceFirst pattern repl i src) ∧
      (r.ok = true ↔ i = count pattern src) ∧
      (r.strReplaced = true ↔ 0 < i) ∧
      (i = count pattern src ↔ count pattern src = 0 ∨
        buf.length > src.length + (count pattern src - 1) * (repl.length - pattern.length) +
          max pattern.length repl.length + 1) := by
  obtain ⟨hnul, rest, hbuf⟩ := Buffer.stringAt_some hsrc
  have hlen : src.length < buf.length := by
    rw [hbuf, List.length_append, List.length_cons]
    omega
  obtain ⟨i, hi, hstring, htests⟩ := cStrreplace_spec repl hpattern hlen
  obtain ⟨r, rest', hr, hnul', hlen', hrun⟩ := Buffer.cStrreplace_refines hsrc hpattern hrepl
  rw [hstring] at hr
  cases hr
  refine ⟨_, i, hrun, hlen', hi, Buffer.stringAt_zero hnul', decide_eq_true_iff,
    decide_eq_true_iff, ?_⟩
  have hlast := htests (count pattern src) (Nat.le_refl _)
  unfold RoomFor at hlast
  rw [← hlast]
  exact ⟨fun h => Nat.le_of_eq h.symm, fun h => Nat.le_antisymm hi h⟩

/-- A replacement that grows, with room for one of two. -/
theorem strreplace_second_not_fitting :
    ∃ r i, Buffer.cStrreplace ("a%gb%g".toList ++ nul :: List.replicate 6 'x') 13
        (some "%g".toList) (some "group".toList) = some r ∧
      r.ok = false ∧ Buffer.stringAt r.buf 0 =
        some (Replacing.replaceFirst "%g".toList "group".toList i "a%gb%g".toList) := by
  obtain ⟨r, i, hrun, -, -, hleft, hok, -, hall⟩ :=
    strreplace_in_place ("a%gb%g".toList ++ nul :: List.replicate 6 'x') "a%gb%g".toList
      "%g".toList "group".toList (by decide) (by decide) (by decide)
  refine ⟨r, i, hrun, ?_, hleft⟩
  rw [← Bool.not_eq_true, hok, hall]
  decide

/-! ### The error message -/

namespace Buffer

/-- What is kept of a text. -/
def kept (text : CString) : CString :=
  if text.length < printErrorBufferSize then text else text.take (text.length - 1)

/-- On strings, a call appends just that. -/
theorem vcmockaPrintError_eq_kept (cmErrorMessage : Option CString) (text : CString) :
    Cmocka.vcmockaPrintError cmErrorMessage text = some (cmErrorMessage.getD [] ++ kept text) := by
  unfold Cmocka.vcmockaPrintError kept
  split
  · rfl
  · rfl

theorem not_mem_kept {text : CString} (h : nul ∉ text) : nul ∉ kept text := by
  unfold kept
  split
  · exact h
  · intro hmem
    exact h (List.mem_of_mem_take hmem)

/-- The stack buffer holds the text, if it is long enough. -/
theorem vsnprintf_stack (junk : Nat → Char) (text : CString) :
    ∃ rest, vsnprintf ((List.range printErrorBufferSize).map junk) 0 printErrorBufferSize text =
      some (text.take (printErrorBufferSize - 1) ++ [nul] ++ rest) := by
  have hsize : 0 < printErrorBufferSize := by decide
  have hroom : (text.take (printErrorBufferSize - 1) ++ [nul]).length ≤
      ((List.range printErrorBufferSize).map junk).length := by
    rw [List.length_append, List.length_take, List.length_singleton, List.length_map,
      List.length_range]
    omega
  have hstore := store_append (show 0 = ([] : List Char).length from rfl) hroom
  exact ⟨_, by rw [vsnprintf, if_neg (Nat.pos_iff_ne_zero.mp hsize)]; exact hstore⟩

/-- The copy goes behind what the message has, and is inside the message. -/
theorem copyText_parts {buffer rest space : List Char} {text : CString} (old : CString)
    (hbuffer : buffer = text.take (printErrorBufferSize - 1) ++ [nul] ++ rest)
    (hspace : space.length = text.length + 1) :
    ∃ rest', copyText buffer (old ++ space) old.length text =
      some (old ++ (kept text ++ nul :: rest')) := by
  unfold copyText kept
  split
  next hshort =>
    have htext : text.take (printErrorBufferSize - 1) = text :=
      List.take_of_length_le (Nat.le_sub_one_of_lt hshort)
    have hread : window buffer 0 (text.length + 1) = text ++ [nul] := by
      rw [hbuffer, htext, ← List.nil_append (text ++ [nul])]
      refine window_parts rfl ?_
      rw [List.length_append, List.length_singleton]
    have hroom : (text ++ [nul]).length ≤ space.length := by
      rw [hspace, List.length_append]
      exact Nat.le_refl _
    refine ⟨space.drop (text ++ [nul]).length, ?_⟩
    rw [hread, memcpy, store_append rfl hroom]
    simp only [List.append_assoc, List.singleton_append]
  next hlong =>
    -- `len` characters are written, the last of them the NUL
    have hpos : text.length ≠ 0 := by
      intro hzero
      rw [hzero] at hlong
      exact hlong (by decide)
    have hroom : (text.take (text.length - 1) ++ [nul]).length ≤ space.length := by
      rw [hspace, List.length_append, List.length_take, List.length_singleton]
      omega
    refine ⟨space.drop (text.take (text.length - 1) ++ [nul]).length, ?_⟩
    rw [vsnprintf, if_neg hpos, store_append rfl hroom]
    simp only [List.append_assoc, List.singleton_append]

/-- `libc_realloc` keeps the string of the message. -/
theorem realloc_parts (junk : Nat → Char) (old rest : List Char) (n : Nat) :
    ∃ space, space.length = n ∧ realloc junk (old ++ rest) (old.length + n) = old ++ space := by
  refine ⟨rest.take n ++ (List.range (old.length + n - (old ++ rest).length)).map junk, ?_, ?_⟩
  · simp only [List.length_append, List.length_take, List.length_map, List.length_range]
    omega
  · rw [realloc, List.take_length_add_append, List.append_assoc]

/-- **One call.** -/
theorem vcmockaPrintError_append (junk : Nat → Char) {old : CString} (hold : nul ∉ old)
    (rest : List Char) (text : CString) :
    ∃ rest', vcmockaPrintError junk (some (old ++ nul :: rest)) text =
      some (old ++ kept text ++ nul :: rest') := by
  obtain ⟨after, hstack⟩ := vsnprintf_stack junk text
  obtain ⟨space, hspace, hrealloc⟩ := realloc_parts junk old (nul :: rest) (text.length + 1)
  obtain ⟨rest', hcopy⟩ := copyText_parts old (show _ = _ ++ [nul] ++ after from rfl) hspace
  refine ⟨rest', ?_⟩
  rw [vcmockaPrintError, hstack, Option.bind_eq_bind, Option.bind_some]
  simp only [stringAt_zero hold, Option.bind_some, Nat.add_assoc, hrealloc]
  rw [hcopy, List.append_assoc]

theorem vcmockaPrintError_create (junk : Nat → Char) (text : CString) :
    ∃ rest', vcmockaPrintError junk none text = some (kept text ++ nul :: rest') := by
  obtain ⟨after, hstack⟩ := vsnprintf_stack junk text
  obtain ⟨rest', hcopy⟩ := copyText_parts [] rfl
    (show (List.replicate (text.length + 1) nul).length = text.length + 1 from List.length_replicate)
  refine ⟨rest', ?_⟩
  rw [vcmockaPrintError, hstack, Option.bind_eq_bind, Option.bind_some]
  exact hcopy

/-- The calls that follow the first. -/
theorem printErrors_append (junk : Nat → Char) {old : CString} (hold : nul ∉ old)
    (rest : List Char) {texts : List CString} (htexts : ∀ t ∈ texts, nul ∉ t) :
    ∃ rest', printErrors junk (some (old ++ nul :: rest)) texts =
      some (some (old ++ (texts.map kept).flatten ++ nul :: rest')) := by
  induction texts generalizing old rest with
  | nil => exact ⟨rest, by rw [printErrors, List.map_nil, List.flatten_nil, List.append_nil]⟩
  | cons t texts ih =>
      rw [List.forall_mem_cons] at htexts
      obtain ⟨rest₁, hcall⟩ := vcmockaPrintError_append junk hold rest t
      have hnext : nul ∉ old ++ kept t := by
        rw [List.mem_append, not_or]
        exact ⟨hold, not_mem_kept htexts.1⟩
      obtain ⟨rest₂, hcalls⟩ := ih hnext rest₁ htexts.2
      refine ⟨rest₂, ?_⟩
      rw [printErrors, hcall, Option.bind_eq_bind, Option.bind_some, hcalls, List.map_cons,
        List.flatten_cons, List.append_assoc old]

/-- The string of `cm_error_message`; `NULL` is the empty message. -/
def MessageIs (message : Option (List Char)) (text : CString) : Prop :=
  match message with
  | none => text = []
  | some buf => stringAt buf 0 = some text

/-- **Every call stays inside the message**, which is then what is kept of the texts. -/
theorem printErrors_kept (junk : Nat → Char) {texts : List CString}
    (htexts : ∀ t ∈ texts, nul ∉ t) :
    ∃ message, printErrors junk none texts = some message ∧
      ∀ text, MessageIs message text ↔ text = (texts.map kept).flatten := by
  cases texts with
  | nil => exact ⟨none, rfl, fun text => Iff.rfl⟩
  | cons t texts =>
      rw [List.forall_mem_cons] at htexts
      obtain ⟨rest₁, hcall⟩ := vcmockaPrintError_create junk t
      obtain ⟨rest₂, hcalls⟩ := printErrors_append junk (not_mem_kept htexts.1) rest₁ htexts.2
      refine ⟨_, by rw [printErrors, hcall, Option.bind_eq_bind, Option.bind_some, hcalls], ?_⟩
      intro text
      have hnul : nul ∉ kept t ++ (texts.map kept).flatten := by
        intro hmem
        rcases List.mem_append.mp hmem with hmem | hmem
        · exact not_mem_kept htexts.1 hmem
        · obtain ⟨_, hl, hmem⟩ := List.mem_flatten.mp hmem
          obtain ⟨t', ht', rfl⟩ := List.mem_map.mp hl
          exact not_mem_kept (htexts.2 t' ht') hmem
      rw [MessageIs, stringAt_zero hnul, List.map_cons, List.flatten_cons, Option.some.injEq]
      exact eq_comm

theorem length_kept_le (text : CString) : (kept text).length ≤ text.length := by
  unfold kept
  split
  · exact Nat.le_refl _
  · rw [List.length_take]
    omega

theorem length_kept_lt {text : CString} (h : ¬text.length < printErrorBufferSize) :
    (kept text).length < text.length := by
  have hsize : 0 < printErrorBufferSize := by decide
  rw [kept, if_neg h, List.length_take]
  omega

/-- All is kept only if nothing is cut: each text has its own length. -/
theorem kept_flatten_iff (texts : List CString) :
    texts.flatten = (texts.map kept).flatten ↔ ∀ t ∈ texts, t.length < printErrorBufferSize := by
  constructor
  · intro h
    have hle (texts : List CString) : (texts.map kept).flatten.length ≤ texts.flatten.length := by
      induction texts with
      | nil => exact Nat.le_refl _
      | cons t texts ih =>
          simp only [List.map_cons, List.flatten_cons, List.length_append]
          exact Nat.add_le_add (length_kept_le t) ih
    have hlen := congrArg List.length h
    clear h
    induction texts with
    | nil =>
        intro t ht
        cases ht
    | cons t texts ih =>
        simp only [List.map_cons, List.flatten_cons, List.length_append] at hlen
        have h₁ := length_kept_le t
        have h₂ := hle texts
        rw [List.forall_mem_cons]
        refine ⟨?_, ih (by omega)⟩
        by_contra hlong
        have h₃ := length_kept_lt hlong
        omega
  · intro h
    have hmap : texts.map kept = texts := by
      conv_rhs => rw [← List.map_id texts]
      exact List.map_congr_left fun t ht => if_pos (h t ht)
    rw [hmap]

end Buffer

/-- **Error messages are kept exactly when every text fits the stack buffer.**  The calls write only
inside the message. -/
theorem printed_errors_kept_iff (junk : Nat → Char) (texts : List CString)
    (htexts : ∀ t ∈ texts, nul ∉ t) :
    (∃ message, Buffer.printErrors junk none texts = some message ∧
      Buffer.MessageIs message texts.flatten) ↔
      ∀ t ∈ texts, t.length < printErrorBufferSize := by
  obtain ⟨message, hrun, hmessage⟩ := Buffer.printErrors_kept junk htexts
  rw [← Buffer.kept_flatten_iff, ← hmessage]
  constructor
  · rintro ⟨message', hrun', h⟩
    rw [hrun] at hrun'
    cases hrun'
    exact h
  · intro h
    exact ⟨message, hrun, h⟩

/-- Two short texts are kept. -/
theorem short_errors_kept :
    ∃ message, Buffer.printErrors (fun _ => '?') none ["1 != 2\n".toList, "error".toList] =
      some message ∧ Buffer.MessageIs message "1 != 2\nerror".toList :=
  (printed_errors_kept_iff (fun _ => '?') ["1 != 2\n".toList, "error".toList] (by decide)).mpr
    (by decide)

/-- A text of 256 characters loses its last one. -/
theorem long_error_cut :
    ¬∃ message, Buffer.printErrors (fun _ => '?') none [List.replicate 256 'a'] = some message ∧
      Buffer.MessageIs message (List.replicate 256 'a') := by
  rintro ⟨message, hrun, h⟩
  have hnul : ∀ t ∈ [List.replicate 256 'a'], nul ∉ t := by
    intro t ht
    rw [List.mem_singleton.mp ht, List.mem_replicate]
    exact fun h => absurd h.2 (by decide)
  obtain ⟨message', hrun', hkept⟩ := Buffer.printErrors_kept (fun _ => '?') hnul
  rw [hrun] at hrun'
  cases hrun'
  have hfits := (Buffer.kept_flatten_iff [List.replicate 256 'a']).mp
    (List.flatten_singleton.trans ((hkept _).mp h))
  have hshort := hfits _ List.mem_cons_self
  rw [List.length_replicate] at hshort
  exact Nat.lt_irrefl 256 hshort

end Cmocka
