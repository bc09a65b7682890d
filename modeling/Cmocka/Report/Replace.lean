import Cmocka.Model.Report
import Cmocka.Support.Occurrence
import Cmocka.Support.Replacing

/-!
# Report — replacing in a buffer

`c_strreplace` on a buffer that holds a string shorter than its size: it ends for every non-empty
pattern, and the string it leaves still fits (`cStrreplace_fits`).  The attribute strings of the XML
report are five such replacements, so they always exist.

What it leaves is the string with the first so many occurrences replaced: as many as there is room
for, one after the other (`cStrreplace_spec`).
-/

namespace Cmocka

theorem not_mem_fmtZu {c : Char} (h : c.isDigit = false) (n : Nat) : c ∉ fmtZu n := by
  intro hmem
  rw [Nat.isDigit_of_mem_toDigits (by decide) (by decide) hmem] at h
  cases h

/-- What `strstr` finds is an occurrence. -/
theorem strstr_some {pattern s : CString} {offset : Nat} (h : strstr pattern s = some offset) :
    s = s.take offset ++ pattern ++ s.drop (offset + pattern.length) := by
  induction s generalizing offset with
  | nil =>
      cases pattern with
      | nil =>
          cases h
          rfl
      | cons p ps => cases h
  | cons c rest ih =>
      rw [strstr] at h
      split at h
      next hp =>
        cases h
        obtain ⟨t, ht⟩ := List.isPrefixOf_iff_prefix.mp hp
        simp [← ht]
      next hp =>
        obtain ⟨n, hn, rfl⟩ := Option.map_eq_some_iff.mp h
        have := ih hn
        rw [show n + 1 + pattern.length = n + pattern.length + 1 by omega]
        simpa using this

theorem strstr_length {pattern s : CString} {offset : Nat} (h : strstr pattern s = some offset) :
    offset + pattern.length ≤ s.length := by
  induction s generalizing offset with
  | nil =>
      cases pattern with
      | nil =>
          cases h
          exact Nat.le_refl _
      | cons p ps => cases h
  | cons c rest ih =>
      rw [strstr] at h
      split at h
      next hp =>
        cases h
        have := (List.isPrefixOf_iff_prefix.mp hp).length_le
        omega
      next hp =>
        obtain ⟨n, hn, rfl⟩ := Option.map_eq_some_iff.mp h
        have := ih hn
        rw [List.length_cons]
        omega

/-- A search that finds nothing. -/
theorem strstr_none {pattern s : CString} (h : strstr pattern s = none) : ¬pattern <:+: s := by
  induction s with
  | nil =>
      rw [List.infix_nil]
      rintro rfl
      cases h
  | cons c rest ih =>
      rw [strstr] at h
      split at h
      next hp => cases h
      next hp =>
        rw [List.infix_cons_iff, not_or]
        exact ⟨fun hpre => hp (List.isPrefixOf_iff_prefix.mpr hpre),
          ih (Option.map_eq_none_iff.mp h)⟩

/-- `strstr` finds the first occurrence. -/
theorem strstr_first {pattern s : CString} {offset : Nat} (h : strstr pattern s = some offset) :
    Replacing.FirstOccurrence pattern (s.take offset) (s.drop (offset + pattern.length)) s := by
  induction s generalizing offset with
  | nil =>
      cases pattern with
      | nil =>
          cases h
          exact .here []
      | cons p ps => cases h
  | cons c rest ih =>
      rw [strstr] at h
      split at h
      next hp =>
        cases h
        obtain ⟨t, ht⟩ := List.isPrefixOf_iff_prefix.mp hp
        rw [← ht, List.take_zero, Nat.zero_add, List.drop_left]
        exact .here t
      next hp =>
        obtain ⟨n, hn, rfl⟩ := Option.map_eq_some_iff.mp h
        rw [List.take_succ_cons, show n + 1 + pattern.length = n + pattern.length + 1 by omega,
          List.drop_succ_cons]
        exact .there c (fun hpre => hp (List.isPrefixOf_iff_prefix.mpr hpre)) (ih hn)

/-- **The loop ends**, and what it leaves fits. -/
theorem cStrreplaceLoop_fits {srcLen : Nat} {pattern : CString} (repl : CString)
    (hpattern : pattern ≠ []) (bound : Nat) (strReplaced : Bool) (done rest : CString)
    (hbound : rest.length ≤ bound) (hlen : (done ++ rest).length < srcLen) :
    ∃ r, cStrreplaceLoop srcLen pattern repl bound strReplaced done rest = some r ∧
      r.text.length < srcLen := by
  induction bound generalizing strReplaced done rest with
  | zero =>
      obtain rfl := List.length_eq_zero_iff.mp (Nat.le_zero.mp hbound)
      have hnone : strstr pattern [] = none := by
        cases pattern with
        | nil => exact absurd rfl hpattern
        | cons p ps => rfl
      exact ⟨_, by rw [cStrreplaceLoop, hnone], hlen⟩
  | succ bound ih =>
      rw [cStrreplaceLoop]
      split
      next hs => exact ⟨_, rfl, hlen⟩
      next offset hs =>
        split
        next hfull => exact ⟨_, rfl, hlen⟩
        next hfull =>
          have hoff := strstr_length hs
          have hpos : 0 < pattern.length := List.length_pos_iff.mpr hpattern
          refine ih true _ _ ?_ ?_
          · rw [List.length_drop]
            omega
          · simp only [List.length_append, List.length_take, List.length_drop] at hfull hlen ⊢
            omega

theorem cStrreplace_fits {src : CString} {srcLen : Nat} {pattern : CString} (repl : CString)
    (hpattern : pattern ≠ []) (hlen : src.length < srcLen) :
    ∃ r, cStrreplace src srcLen pattern repl = some r ∧ r.text.length < srcLen := by
  rw [cStrreplace, if_neg (by omega)]
  exact cStrreplaceLoop_fits repl hpattern srcLen false [] src (by omega) hlen

/-! ### How many occurrences are replaced -/

/-- The test for the `j`-th replacement, in a string that had `l` characters at first. -/
def RoomFor (srcLen l : Nat) (pattern repl : CString) (j : Nat) : Prop :=
  l + (j - 1) * (repl.length - pattern.length) + max pattern.length repl.length + 1 < srcLen

/-- The test for a later replacement is the test for an earlier one in the longer string. -/
theorem roomFor_succ {srcLen l j : Nat} {pattern repl : CString}
    (hroom : l + max pattern.length repl.length + 1 < srcLen) (hl : pattern.length ≤ l) :
    j = 0 ∨ RoomFor srcLen (l - pattern.length + repl.length) pattern repl j ↔
      RoomFor srcLen l pattern repl (j + 1) := by
  unfold RoomFor
  cases j with
  | zero => simp [hroom]
  | succ j =>
      simp only [Nat.add_sub_cancel, Nat.succ_ne_zero, false_or, Nat.succ_mul]
      rcases Nat.le_total pattern.length repl.length with hgrow | hshrink
      · omega
      · rw [Nat.sub_eq_zero_of_le hshrink, Nat.mul_zero]
        omega

/-- **What the loop leaves**: the first `i` occurrences of `rest` are replaced, and `i` counts the
tests that are passed. -/
theorem cStrreplaceLoop_spec {srcLen : Nat} {pattern : CString} (repl : CString)
    (hpattern : pattern ≠ []) (bound : Nat) (strReplaced : Bool) (done rest : CString)
    (hbound : rest.length ≤ bound) :
    ∃ i ≤ Replacing.count pattern rest,
      cStrreplaceLoop srcLen pattern repl bound strReplaced done rest =
        some ⟨done ++ Replacing.replaceFirst pattern repl i rest,
          decide (i = Replacing.count pattern rest), strReplaced || decide (0 < i)⟩ ∧
      ∀ j ≤ Replacing.count pattern rest,
        j ≤ i ↔ j = 0 ∨ RoomFor srcLen (done ++ rest).length pattern repl j := by
  induction bound generalizing strReplaced done rest with
  | zero =>
      obtain rfl := List.length_eq_zero_iff.mp (Nat.le_zero.mp hbound)
      have hnone : strstr pattern [] = none := by
        cases pattern with
        | nil => exact absurd rfl hpattern
        | cons p ps => rfl
      refine ⟨0, Nat.zero_le _, ?_, ?_⟩
      · rw [cStrreplaceLoop, hnone]
        simp [Replacing.replaceFirst, Replacing.replaceFrom, Replacing.count, Replacing.countFrom]
      · rintro j hj
        simp [Nat.le_zero.mp hj]
  | succ bound ih =>
      rw [cStrreplaceLoop]
      split
      next hs =>
        have hcount := Replacing.count_eq_zero (strstr_none hs)
        refine ⟨0, Nat.zero_le _, ?_, ?_⟩
        · rw [Replacing.replaceFirst_zero, hcount]
          simp
        · intro j hj
          rw [hcount] at hj
          simp [Nat.le_zero.mp hj]
      next offset hs =>
        have hfirst := strstr_first hs
        have hcount := hfirst.count_eq hpattern
        have hrest := congrArg List.length hfirst.eq
        have hoff := strstr_length hs
        have hpos : 0 < pattern.length := List.length_pos_iff.mpr hpattern
        simp only [List.length_append] at hrest
        split
        next hfull =>
          refine ⟨0, Nat.zero_le _, ?_, ?_⟩
          · rw [Replacing.replaceFirst_zero, hcount]
            simp
          · intro j hj
            -- the first test fails, and the later ones ask for more room
            have hno : ¬RoomFor srcLen (done ++ rest).length pattern repl j := by
              unfold RoomFor
              omega
            rw [Nat.le_zero, or_iff_left hno]
        next hroom =>
          obtain ⟨i, hi, hloop, htests⟩ := ih true (done ++ rest.take offset ++ repl)
            (rest.drop (offset + pattern.length)) (by rw [List.length_drop]; omega)
          have hlen : (done ++ rest.take offset ++ repl ++
              rest.drop (offset + pattern.length)).length =
              (done ++ rest).length - pattern.length + repl.length := by
            simp only [List.length_append]
            omega
          refine ⟨i + 1, by omega, ?_, ?_⟩
          · rw [hfirst.replaceFirst_eq hpattern, hcount]
            refine hloop.trans ?_
            simp [List.append_assoc]
          · rintro (_ | j) hj
            · simp
            · rw [Nat.add_le_add_iff_right, htests j (by omega), hlen, roomFor_succ (by omega)
                (by rw [List.length_append]; omega)]
              simp

theorem cStrreplace_spec {src : CString} {srcLen : Nat} {pattern : CString} (repl : CString)
    (hpattern : pattern ≠ []) (hlen : src.length < srcLen) :
    ∃ i ≤ Replacing.count pattern src,
      cStrreplace src srcLen pattern repl =
        some ⟨Replacing.replaceFirst pattern repl i src, decide (i = Replacing.count pattern src),
          decide (0 < i)⟩ ∧
      ∀ j ≤ Replacing.count pattern src,
        j ≤ i ↔ j = 0 ∨ RoomFor srcLen src.length pattern repl j := by
  rw [cStrreplace, if_neg (by omega)]
  exact cStrreplaceLoop_spec repl hpattern srcLen false [] src (by omega)

theorem snprintfS_length {n : Nat} (hn : 0 < n) (s : CString) : (snprintfS n s).length < n := by
  rw [snprintfS, List.length_take]
  omega

/-- One pass of the escaping. -/
theorem cStrreplace_text {src : CString} {srcLen : Nat} (pattern repl : CString)
    (hpattern : pattern ≠ []) (hlen : src.length < srcLen) :
    ∃ text, (cStrreplace src srcLen pattern repl).map StrReplace.text = some text ∧
      text.length < srcLen := by
  obtain ⟨r, hr, hfits⟩ := cStrreplace_fits repl hpattern hlen
  exact ⟨r.text, by rw [hr]; rfl, hfits⟩

theorem cmprepareXmlAttributeString_some {bufLen : Nat} (hn : 0 < bufLen) (src : CString) :
    ∃ text, cmprepareXmlAttributeString bufLen src = some text := by
  obtain ⟨t₁, h₁, hl₁⟩ := cStrreplace_text "&".toList "&amp;".toList (by decide)
    (snprintfS_length hn src)
  obtain ⟨t₂, h₂, hl₂⟩ := cStrreplace_text "\"".toList "&quot;".toList (by decide) hl₁
  obtain ⟨t₃, h₃, hl₃⟩ := cStrreplace_text "'".toList "&apos;".toList (by decide) hl₂
  obtain ⟨t₄, h₄, hl₄⟩ := cStrreplace_text "<".toList "&lt;".toList (by decide) hl₃
  obtain ⟨t₅, h₅, -⟩ := cStrreplace_text ">".toList "&gt;".toList (by decide) hl₄
  exact ⟨t₅, by simp only [cmprepareXmlAttributeString, h₁, h₂, h₃, h₄, h₅, Option.bind_eq_bind,
    Option.bind_some]⟩

theorem xmlPath_some (env groupName : CString) : ∃ path, xmlPath env groupName = some path := by
  obtain ⟨r, hr, -⟩ := cStrreplace_fits groupName (show "%g".toList ≠ [] by decide)
    (snprintfS_length (show 0 < xmlBufferSize by decide) env)
  exact ⟨_, by simp only [xmlPath, hr, Option.bind_eq_bind, Option.bind_some]; rfl⟩

theorem xmlTestcases_some (tests : List TestReport) :
    ∃ testcases, tests.mapM xmlTestcase = some testcases := by
  induction tests with
  | nil => exact ⟨[], rfl⟩
  | cons t tests ih =>
      obtain ⟨rest, hrest⟩ := ih
      obtain ⟨name, hname⟩ :=
        cmprepareXmlAttributeString_some (show 0 < xmlBufferSize by decide) t.name
      exact ⟨_, by
        simp only [List.mapM_cons, xmlTestcase, hname, hrest, Option.bind_eq_bind, Option.bind_some,
          Option.pure_def]
        rfl⟩

/-- The report is always printed. -/
theorem xmlReport_some (r : GroupReport) : ∃ items, xmlReport r = some items := by
  obtain ⟨name, hname⟩ := cmprepareXmlAttributeString_some (show 0 < xmlBufferSize by decide)
    r.groupName
  obtain ⟨testcases, hcases⟩ := xmlTestcases_some (r.tests.take r.totalExecuted)
  exact ⟨_, by simp only [xmlReport, hname, hcases, Option.bind_eq_bind, Option.bind_some]; rfl⟩

/-! ### What the escaping does not bring in -/

section NoOccurrence

open Occurrence

variable {d : CString} (hamp : '&' ∉ d) (hsemi : ';' ∉ d)

include hamp hsemi

/-- Replacing by a text between `&` and `;` makes no new occurrence of a text without them, unless
it is a part of the replacement. -/
theorem cStrreplaceLoop_infix {srcLen : Nat} {pattern entity : CString} (hentity : ¬d <:+: entity)
    {bound : Nat} {strReplaced : Bool} {done rest : CString} {r : StrReplace}
    (h : cStrreplaceLoop srcLen pattern ('&' :: entity ++ [';']) bound strReplaced done rest = some r)
    (hd : d <:+: r.text) : d <:+: done ++ rest := by
  induction bound generalizing strReplaced done rest with
  | zero =>
      unfold cStrreplaceLoop at h
      split at h
      · cases h
        exact hd
      · split at h
        · cases h
          exact hd
        · cases h
  | succ bound ih =>
      unfold cStrreplaceLoop at h
      split at h
      · cases h
        exact hd
      · rename_i offset hoffset
        split at h
        · cases h
          exact hd
        · have hmid := ih h
          have hparts : done ++ rest.take offset ++ ('&' :: entity ++ [';']) ++
              rest.drop (offset + pattern.length) =
              (done ++ rest.take offset) ++
                '&' :: (entity ++ ';' :: rest.drop (offset + pattern.length)) := by simp
          rw [hparts] at hmid
          -- an occurrence lies before the inserted `&`, between it and `;`, or behind
          rcases infix_append_cons hamp hmid with hbefore | hafter
          · exact hbefore.trans
              ((List.prefix_append_right_inj _).mpr (List.take_prefix _ _)).isInfix
          · rcases infix_append_cons hsemi hafter with h₁ | h₂
            · exact absurd h₁ hentity
            · exact h₂.trans ((List.drop_suffix _ _).isInfix.trans (List.suffix_append _ _).isInfix)

theorem cStrreplace_infix {srcLen : Nat} (pattern entity : CString) {src text : CString}
    (hentity : ¬d <:+: entity)
    (h : (cStrreplace src srcLen pattern ('&' :: entity ++ [';'])).map StrReplace.text = some text)
    (hd : d <:+: text) : d <:+: src := by
  obtain ⟨r, hr, rfl⟩ := Option.map_eq_some_iff.mp h
  unfold cStrreplace at hr
  split at hr
  · cases hr
    exact hd
  · simpa using cStrreplaceLoop_infix hamp hsemi hentity hr hd

/-- An escaped name has only the longer texts without `&` and `;` that the name has. -/
theorem infix_of_cmprepareXmlAttributeString {bufLen : Nat} {src text : CString}
    (hlong : 4 < d.length) (h : cmprepareXmlAttributeString bufLen src = some text)
    (hd : d <:+: text) : d <:+: src := by
  have hentity {entity : CString} (hlen : entity.length ≤ 4) : ¬d <:+: entity := by
    intro hsub
    have hle := hsub.length_le
    omega
  unfold cmprepareXmlAttributeString at h
  simp only [Option.bind_eq_bind] at h
  obtain ⟨t₁, h₁, h⟩ := Option.bind_eq_some_iff.mp h
  obtain ⟨t₂, h₂, h⟩ := Option.bind_eq_some_iff.mp h
  obtain ⟨t₃, h₃, h⟩ := Option.bind_eq_some_iff.mp h
  obtain ⟨t₄, h₄, h₅⟩ := Option.bind_eq_some_iff.mp h
  have hd₄ : d <:+: t₄ :=
    cStrreplace_infix hamp hsemi _ "gt".toList (hentity (by decide)) h₅ hd
  have hd₃ : d <:+: t₃ :=
    cStrreplace_infix hamp hsemi _ "lt".toList (hentity (by decide)) h₄ hd₄
  have hd₂ : d <:+: t₂ :=
    cStrreplace_infix hamp hsemi _ "apos".toList (hentity (by decide)) h₃ hd₃
  have hd₁ : d <:+: t₁ :=
    cStrreplace_infix hamp hsemi _ "quot".toList (hentity (by decide)) h₂ hd₂
  have hd₀ : d <:+: snprintfS bufLen src :=
    cStrreplace_infix hamp hsemi _ "amp".toList (hentity (by decide)) h₁ hd₁
  exact hd₀.trans (List.take_prefix _ _).isInfix

end NoOccurrence

end Cmocka
