import Mathlib.Algebra.GroupWithZero.Nat
import Cmocka.Report.Replace
import Cmocka.Support.Escaping

/-!
# Report — XML attribute strings

`cmprepare_xml_attribute_string` runs five passes over one buffer.  As long as each pass has room for
all its replacements, the five are one escape, which can be read back (`attribute_escaped`).  The
results of the passes are not looked at: a pass that runs out of room leaves its character as it was.
-/

namespace Cmocka

open Replacing Escaping Occurrence

variable {bufLen : Nat} {buf text : CString}

/-! ### The passes -/

/-- The characters that are replaced, and the references they are replaced by, in their order. -/
def xmlReferences : List (Char × CString) :=
  [('&', "&amp;".toList), ('"', "&quot;".toList), ('\'', "&apos;".toList), ('<', "&lt;".toList),
    ('>', "&gt;".toList)]

/-- Some passes of `cmprepare_xml_attribute_string`: the string they leave, and the results of their
calls. -/
def escapePasses (bufLen : Nat) : (passes : List (Char × CString)) → (buf : CString) →
    Option (CString × List Bool)
  | [], buf => some (buf, [])
  | e :: passes, buf => do
      let r ← cStrreplace buf bufLen [e.1] e.2
      let (text, oks) ← escapePasses bufLen passes r.text
      return (text, r.ok :: oks)

theorem cmprepareXmlAttributeString_eq (bufLen : Nat) (src : CString) :
    cmprepareXmlAttributeString bufLen src =
      (escapePasses bufLen xmlReferences (snprintfS bufLen src)).map Prod.fst := by
  unfold cmprepareXmlAttributeString
  simp only [xmlReferences, escapePasses, Option.bind_eq_bind, Option.map_eq_bind,
    Option.bind_assoc, Option.bind_some, Option.pure_def, Function.comp_def]
  rfl

/-- **One pass.**  The string falls in two: in the first part all is replaced, the second is left.
The first part has as many characters to replace as there is room for. -/
theorem pass_spec (e : Char × CString) (he : 1 < e.2.length) (hlen : buf.length < bufLen) :
    ∃ u v flag, buf = u ++ v ∧
      cStrreplace buf bufLen [e.1] e.2 =
        some ⟨substitute e.1 e.2 u ++ v, decide (u.count e.1 = buf.count e.1), flag⟩ ∧
      u.count e.1 = min (buf.count e.1) ((bufLen - 3 - buf.length) / (e.2.length - 1)) := by
  obtain ⟨i, hi, hrun, htests⟩ := cStrreplace_spec e.2 (List.cons_ne_nil e.1 []) hlen
  rw [count_singleton] at hi hrun htests
  obtain ⟨u, v, hsplit, rfl, hreplace⟩ := replaceFirst_singleton e.1 e.2 hi
  refine ⟨u, v, _, hsplit, by rw [hrun, hreplace], ?_⟩
  have hgrowth : 0 < e.2.length - 1 := by omega
  have hroom (j : Nat) (hj : j ≤ buf.count e.1) :
      j ≤ u.count e.1 ↔ j ≤ (bufLen - 3 - buf.length) / (e.2.length - 1) := by
    rw [htests j hj, Nat.le_div_iff_mul_le hgrowth]
    unfold RoomFor
    cases j with
    | zero => simp
    | succ j =>
        have hmax : max [e.1].length e.2.length = (e.2.length - 1) + 1 := by
          rw [List.length_singleton]
          omega
        rw [hmax, List.length_singleton, Nat.add_sub_cancel, Nat.succ_mul]
        omega
  have h₁ := hroom (u.count e.1) hi
  have h₂ := hroom (min (buf.count e.1) ((bufLen - 3 - buf.length) / (e.2.length - 1)))
    (Nat.min_le_left _ _)
  omega

/-- A pass with room for all its replacements. -/
theorem pass_ok {r : StrReplace} {e : Char × CString} (he : 1 < e.2.length)
    (hlen : buf.length < bufLen) (h : cStrreplace buf bufLen [e.1] e.2 = some r)
    (hok : r.ok = true) : r.text = substitute e.1 e.2 buf := by
  obtain ⟨u, v, flag, rfl, hrun, -⟩ := pass_spec e he hlen
  rw [hrun] at h
  cases h
  have hcount : u.count e.1 = (u ++ v).count e.1 := of_decide_eq_true hok
  rw [List.count_append] at hcount
  have hv : e.1 ∉ v := List.count_eq_zero.mp (by omega)
  rw [substitute_append, substitute_eq_self hv]

/-- The passes after the first go on from the string it leaves. -/
theorem pass_step {e : Char × CString} {passes : List (Char × CString)} {oks : List Bool}
    (he : 1 < e.2.length) (hlen : buf.length < bufLen)
    (h : escapePasses bufLen (e :: passes) buf = some (text, oks)) :
    ∃ u v oks', buf = u ++ v ∧
      u.count e.1 = min (buf.count e.1) ((bufLen - 3 - buf.length) / (e.2.length - 1)) ∧
      (substitute e.1 e.2 u ++ v).length < bufLen ∧
      escapePasses bufLen passes (substitute e.1 e.2 u ++ v) = some (text, oks') := by
  obtain ⟨r, hr, h⟩ := Option.bind_eq_some_iff.mp h
  obtain ⟨⟨text', oks'⟩, hrest, h⟩ := Option.bind_eq_some_iff.mp h
  cases h
  obtain ⟨r', hr', hfits⟩ := cStrreplace_fits e.2 (List.cons_ne_nil e.1 []) hlen
  obtain ⟨u, v, flag, hsplit, hrun, hcount⟩ := pass_spec e he hlen
  rw [hr] at hr' hrun
  cases hr'
  cases hrun
  exact ⟨u, v, oks', hsplit, hcount, hfits, hrest⟩

/-- Passes that all have room are substitutions, one after the other. -/
theorem escapePasses_ok {passes : List (Char × CString)} {oks : List Bool}
    (hpasses : ∀ e ∈ passes, 1 < e.2.length) (hlen : buf.length < bufLen)
    (h : escapePasses bufLen passes buf = some (text, oks)) (hok : ∀ ok ∈ oks, ok = true) :
    text = passes.foldl (fun s e => substitute e.1 e.2 s) buf := by
  induction passes generalizing buf oks with
  | nil =>
      cases h
      rfl
  | cons e passes ih =>
      rw [List.forall_mem_cons] at hpasses
      obtain ⟨r, hr, h⟩ := Option.bind_eq_some_iff.mp h
      obtain ⟨⟨text', oks'⟩, hrest, h⟩ := Option.bind_eq_some_iff.mp h
      cases h
      rw [List.forall_mem_cons] at hok
      obtain ⟨r', hr', hfits⟩ := cStrreplace_fits e.2 (List.cons_ne_nil e.1 []) hlen
      rw [hr] at hr'
      cases hr'
      rw [List.foldl_cons, ← pass_ok hpasses.1 hlen hr hok.1]
      exact ih hpasses.2 hfits hrest hok.2

/-- The references grow, and no character is replaced in a reference of an earlier pass. -/
theorem xmlReferences_pairwise :
    (∀ e ∈ xmlReferences, 1 < e.2.length) ∧ xmlReferences.Pairwise fun e e' => e'.1 ∉ e.2 := by
  decide

/-- All references begin with `&`, which is escaped itself, and none begins another. -/
theorem xmlReferences_readable : Readable xmlReferences '&' where
  marked := by decide
  hasMark := by decide
  apart := by decide

/-- **The five passes are one escape, and reading undoes it**, if all five calls succeed. -/
theorem attribute_escaped (bufLen : Nat) (hbuf : 1 ≤ bufLen) (src text : CString) (oks : List Bool)
    (hpasses : escapePasses bufLen xmlReferences (snprintfS bufLen src) = some (text, oks))
    (hok : ∀ ok ∈ oks, ok = true) :
    cmprepareXmlAttributeString bufLen src = some text ∧
      text = encode xmlReferences (src.take (bufLen - 1)) ∧
      decode xmlReferences text = src.take (bufLen - 1) := by
  have htext : text = encode xmlReferences (src.take (bufLen - 1)) := by
    rw [encode_eq_foldl xmlReferences_pairwise.2]
    exact escapePasses_ok xmlReferences_pairwise.1 (snprintfS_length hbuf src) hpasses hok
  refine ⟨?_, htext, ?_⟩
  · rw [cmprepareXmlAttributeString_eq, hpasses]
    rfl
  · rw [htext, decode_encode xmlReferences_readable]

/-- A name with a reference in it, in a buffer of 40 bytes. -/
theorem reference_in_name_escaped :
    cmprepareXmlAttributeString 40 "a &lt; \"b\" < c".toList =
        some "a &amp;lt; &quot;b&quot; &lt; c".toList ∧
      decode xmlReferences "a &amp;lt; &quot;b&quot; &lt; c".toList = "a &lt; \"b\" < c".toList := by
  have h := attribute_escaped 40 (by decide) "a &lt; \"b\" < c".toList
    "a &amp;lt; &quot;b&quot; &lt; c".toList [true, true, true, true, true] (by decide) (by decide)
  exact ⟨h.1, h.2.2⟩

/-! ### Which characters are left -/

/-- What the passes add to a string, if they all have room. -/
def growth (passes : List (Char × CString)) (buf : CString) : Nat :=
  (passes.map fun e => (e.2.length - 1) * buf.count e.1).sum

/-- A character that is not replaced, and is in no reference, is left alone. -/
theorem count_pass_of_ne {u v : CString} {c : Char} (e : Char × CString) (hc : c ≠ e.1)
    (hr : c ∉ e.2) : (substitute e.1 e.2 u ++ v).count c = (u ++ v).count c := by
  rw [List.count_append, List.count_append, count_substitute_of_ne hc hr]

theorem count_escapePasses {passes : List (Char × CString)} {c : Char} {oks : List Bool}
    (hpasses : ∀ e ∈ passes, 1 < e.2.length) (hc : ∀ e ∈ passes, c ≠ e.1 ∧ c ∉ e.2)
    (hlen : buf.length < bufLen) (h : escapePasses bufLen passes buf = some (text, oks)) :
    text.count c = buf.count c := by
  induction passes generalizing buf oks with
  | nil =>
      cases h
      rfl
  | cons e passes ih =>
      rw [List.forall_mem_cons] at hpasses hc
      obtain ⟨u, v, oks', rfl, -, hfits, hrest⟩ := pass_step hpasses.1 hlen h
      rw [ih hpasses.2 hc.2 hfits hrest, count_pass_of_ne e hc.1.1 hc.1.2]

/-- Passes that do not get in each other's way: no character is replaced twice or is in a
reference. -/
structure Separate (passes : List (Char × CString)) : Prop where
  long : ∀ e ∈ passes, 1 < e.2.length
  keys : passes.Pairwise fun e e' => e.1 ≠ e'.1
  plain : ∀ e ∈ passes, ∀ e' ∈ passes, e.1 ∉ e'.2

theorem Separate.tail {e : Char × CString} {passes : List (Char × CString)}
    (h : Separate (e :: passes)) : Separate passes where
  long e' he' := h.long e' (List.mem_cons_of_mem _ he')
  keys := (List.pairwise_cons.mp h.keys).2
  plain e' he' e'' he'' :=
    h.plain e' (List.mem_cons_of_mem _ he') e'' (List.mem_cons_of_mem _ he'')

theorem growth_congr {passes : List (Char × CString)} {buf' : CString}
    (h : ∀ e ∈ passes, buf'.count e.1 = buf.count e.1) : growth passes buf' = growth passes buf := by
  rw [growth, growth]
  congr 1
  refine List.map_congr_left ?_
  intro e he
  rw [h e he]

theorem growth_eq_zero {passes : List (Char × CString)} (h : ∀ e ∈ passes, e.1 ∉ buf) :
    growth passes buf = 0 := by
  induction passes with
  | nil => rfl
  | cons e passes ih =>
      rw [List.forall_mem_cons] at h
      have hrest := ih h.2
      rw [growth] at hrest
      rw [growth, List.map_cons, List.sum_cons, hrest, List.count_eq_zero.mpr h.1]
      rfl

/-- One pass clears its character exactly when it has room. -/
theorem pass_clear_iff {e : Char × CString} (he : 1 < e.2.length) {u v : CString}
    (hcount : u.count e.1 = min ((u ++ v).count e.1)
      ((bufLen - 3 - (u ++ v).length) / (e.2.length - 1))) :
    v.count e.1 = 0 ↔ (u ++ v).count e.1 = 0 ∨
      (u ++ v).length + (e.2.length - 1) * (u ++ v).count e.1 + 3 ≤ bufLen := by
  have hgrowth : 0 < e.2.length - 1 := by omega
  have hsum : (u ++ v).count e.1 = u.count e.1 + v.count e.1 := List.count_append
  have hroom : (u ++ v).count e.1 ≤ (bufLen - 3 - (u ++ v).length) / (e.2.length - 1) ↔
      (u ++ v).count e.1 = 0 ∨
        (u ++ v).length + (e.2.length - 1) * (u ++ v).count e.1 + 3 ≤ bufLen := by
    rw [Nat.le_div_iff_mul_le hgrowth, Nat.mul_comm]
    rcases Nat.eq_zero_or_pos ((u ++ v).count e.1) with hzero | hpos
    · rw [hzero]
      simp
    · have hmul := Nat.mul_pos hgrowth hpos
      omega
  rw [← hroom]
  omega

/-- **All characters are gone exactly when all passes have room**, and then the passes are one
escape. -/
theorem escapePasses_clear_iff {passes : List (Char × CString)} {oks : List Bool}
    (hsep : Separate passes) (hlen : buf.length < bufLen)
    (h : escapePasses bufLen passes buf = some (text, oks)) :
    ((∀ e ∈ passes, e.1 ∉ text) ↔
      (∀ e ∈ passes, e.1 ∉ buf) ∨ buf.length + growth passes buf + 3 ≤ bufLen) ∧
    ((∀ e ∈ passes, e.1 ∉ text) → text = encode passes buf) := by
  induction passes generalizing buf oks with
  | nil =>
      cases h
      exact ⟨by simp, fun _ => (encode_eq_self (by simp)).symm⟩
  | cons e passes ih =>
      have he := hsep.long e List.mem_cons_self
      have hkeys := (List.pairwise_cons.mp hsep.keys).1
      have hlater : ∀ e' ∈ passes, e'.1 ∉ e.2 := fun e' he' =>
        hsep.plain e' (List.mem_cons_of_mem _ he') e List.mem_cons_self
      obtain ⟨u, v, oks', rfl, hcount, hfits, hrest⟩ := pass_step he hlen h
      -- the later passes leave what is left of this character
      have hleft : text.count e.1 = v.count e.1 := by
        rw [count_escapePasses hsep.tail.long _ hfits hrest, List.count_append,
          count_substitute_self (hsep.plain e List.mem_cons_self e List.mem_cons_self), Nat.zero_add]
        intro e' he'
        exact ⟨hkeys e' he', hsep.plain e List.mem_cons_self e' (List.mem_cons_of_mem _ he')⟩
      have hcounts : ∀ e' ∈ passes,
          (substitute e.1 e.2 u ++ v).count e'.1 = (u ++ v).count e'.1 := fun e' he' =>
        count_pass_of_ne e (hkeys e' he').symm (hlater e' he')
      obtain ⟨ihclear, ihtext⟩ := ih hsep.tail hfits hrest
      have hnone : (∀ e' ∈ passes, e'.1 ∉ substitute e.1 e.2 u ++ v) ↔
          ∀ e' ∈ passes, e'.1 ∉ u ++ v := by
        refine forall₂_congr ?_
        intro e' he'
        rw [← List.count_eq_zero, ← List.count_eq_zero, hcounts e' he']
      have hwhole : v.count e.1 = 0 → substitute e.1 e.2 u ++ v = substitute e.1 e.2 (u ++ v) := by
        intro hv
        rw [substitute_append, substitute_eq_self (List.count_eq_zero.mp hv)]
      have hpass := pass_clear_iff he hcount
      rw [growth_congr hcounts, hnone] at ihclear
      constructor
      · rw [List.forall_mem_cons, List.forall_mem_cons, ← List.count_eq_zero, hleft,
          ← List.count_eq_zero (a := e.1), growth, List.map_cons, List.sum_cons, ← growth]
        by_cases hv : v.count e.1 = 0
        · have hlength := congrArg List.length (hwhole hv)
          rw [length_substitute _ (List.length_pos_iff.mp (by omega))] at hlength
          rw [hlength] at ihclear
          rw [ihclear, iff_true_intro hv, true_and]
          have hroom := hpass.mp hv
          by_cases hrest : ∀ e' ∈ passes, e'.1 ∉ u ++ v
          · have hzero := growth_eq_zero hrest
            rw [hzero, Nat.add_zero]
            refine iff_of_true (.inl hrest) ?_
            exact hroom.imp (fun hnone => ⟨hnone, hrest⟩) id
          · simp only [hrest, and_false, false_or, Nat.add_assoc]
        · have hroom := mt hpass.mpr hv
          rw [not_or] at hroom
          refine iff_of_false (fun h => hv h.1) ?_
          rintro (h | h)
          · exact hroom.1 h.1
          · exact hroom.2 (by omega)
      · intro hclear
        rw [List.forall_mem_cons, ← List.count_eq_zero, hleft] at hclear
        rw [encode_cons hlater, ← hwhole hclear.1]
        exact ihtext hclear.2

/-! ### Ampersands -/

/-- Every ampersand begins a reference. -/
def AmpersandsRead (text : CString) : Prop :=
  ∀ u v, text = u ++ '&' :: v → ∃ e ∈ xmlReferences, e.2 <+: '&' :: v

/-- Every ampersand is followed by what `begins` says. -/
def Ampersands (begins : CString → Prop) (text : CString) : Prop :=
  ∀ u v, text = u ++ '&' :: v → begins v

/-- A character that is neither replaced nor begins a reference. -/
def isPlain (c : Char) : Bool := !(['&', '"', '\'', '<', '>'].contains c)

/-- `begins` knows the references that replace characters, and looks at plain characters only. -/
structure KnowsReferences (begins : CString → Prop) : Prop where
  own : ∀ e ∈ xmlReferences, ∀ s, begins (e.2.tail ++ s)
  congr : ∀ s t, s.takeWhile isPlain = t.takeWhile isPlain → begins s → begins t

/-- A reference is one ampersand and the rest of it. -/
theorem xmlReferences_cons :
    ∀ e ∈ xmlReferences, e.2 = '&' :: e.2.tail ∧ '&' ∉ e.2.tail ∧
      ∀ c ∈ e.2.tail, isPlain c = true := by
  have hall : ∀ e ∈ xmlReferences, e.2 = '&' :: e.2.tail ∧ '&' ∉ e.2.tail ∧
      e.2.tail.all isPlain = true := by
    decide
  exact fun e he => (hall e he).imp_right fun h => h.imp_right List.all_eq_true.mp

/-- The passes after the first. -/
def laterReferences : List (Char × CString) := xmlReferences.tail

theorem laterReferences_separate : Separate laterReferences where
  long := by decide
  keys := by decide
  plain := by decide

/-- The later passes replace other characters than ampersands. -/
theorem laterReferences_keys : ∀ e ∈ laterReferences, e.1 ≠ '&' ∧ isPlain e.1 = false := by
  decide

section Ampersands

variable {begins : CString → Prop}

theorem ampersands_cons (c : Char) (s : CString) :
    Ampersands begins (c :: s) ↔ (c = '&' → begins s) ∧ Ampersands begins s := by
  constructor
  · intro h
    refine ⟨?_, ?_⟩
    · rintro rfl
      exact h [] s rfl
    · intro u v huv
      exact h (c :: u) v (by rw [huv]; rfl)
  · rintro ⟨hhead, htail⟩ u v huv
    cases u with
    | nil =>
        obtain ⟨rfl, rfl⟩ := List.cons.inj huv
        exact hhead rfl
    | cons c' u =>
        obtain ⟨rfl, rfl⟩ := List.cons.inj huv
        exact htail u v rfl

theorem ampersands_cons_of_ne {c : Char} (hc : c ≠ '&') (s : CString) :
    Ampersands begins (c :: s) ↔ Ampersands begins s := by
  rw [ampersands_cons]
  exact and_iff_right fun h => absurd h hc

theorem ampersands_append {d : CString} (hd : '&' ∉ d) (s : CString) :
    Ampersands begins (d ++ s) ↔ Ampersands begins s := by
  induction d with
  | nil => rfl
  | cons c d ih =>
      rw [List.mem_cons, not_or] at hd
      rw [List.cons_append, ampersands_cons_of_ne (Ne.symm hd.1), ih hd.2]

variable (hbegins : KnowsReferences begins)
include hbegins

theorem ampersands_reference {e : Char × CString} (he : e ∈ xmlReferences) (s : CString) :
    Ampersands begins (e.2 ++ s) ↔ Ampersands begins s := by
  obtain ⟨hcons, htail, -⟩ := xmlReferences_cons e he
  have happ : e.2 ++ s = '&' :: (e.2.tail ++ s) := by
    conv_lhs => rw [hcons]
    rfl
  rw [happ, ampersands_cons, ampersands_append htail]
  exact and_iff_right fun _ => hbegins.own e he s

/-- The first pass leaves the ampersands it has no room for. -/
theorem ampersands_first_pass (u v : CString) :
    Ampersands begins (substitute '&' "&amp;".toList u ++ v) ↔ Ampersands begins v := by
  induction u with
  | nil => rfl
  | cons c u ih =>
      by_cases hc : c = '&'
      · subst hc
        rw [substitute_cons_self, List.append_assoc,
          ampersands_reference hbegins (e := ('&', "&amp;".toList)) List.mem_cons_self, ih]
      · rw [substitute_cons_of_ne hc, List.cons_append, ampersands_cons_of_ne hc, ih]

/-- A later pass does not change what an ampersand begins. -/
theorem ampersands_pass {e : Char × CString} (he : e ∈ laterReferences) (u v : CString) :
    Ampersands begins (substitute e.1 e.2 u ++ v) ↔ Ampersands begins (u ++ v) := by
  obtain ⟨hkey, hplain⟩ := laterReferences_keys e he
  have hmem : e ∈ xmlReferences := List.mem_of_mem_tail he
  have hcons := (xmlReferences_cons e hmem).1
  induction u with
  | nil => rfl
  | cons c u ih =>
      by_cases hc : c = e.1
      · subst hc
        rw [substitute_cons_self, List.append_assoc, ampersands_reference hbegins hmem,
          List.cons_append, ampersands_cons_of_ne hkey]
        exact ih
      · have hsame : (substitute e.1 e.2 u ++ v).takeWhile isPlain =
            (u ++ v).takeWhile isPlain := by
          rw [hcons]
          exact takeWhile_substitute hplain rfl _ u v
        rw [substitute_cons_of_ne hc, List.cons_append, List.cons_append, ampersands_cons,
          ampersands_cons]
        refine and_congr (imp_congr_right fun _ => ?_) ih
        exact ⟨hbegins.congr _ _ hsame, hbegins.congr _ _ hsame.symm⟩

theorem ampersands_escapePasses {passes : List (Char × CString)} {oks : List Bool}
    (hpasses : ∀ e ∈ passes, e ∈ laterReferences) (hlen : buf.length < bufLen)
    (h : escapePasses bufLen passes buf = some (text, oks)) :
    Ampersands begins text ↔ Ampersands begins buf := by
  induction passes generalizing buf oks with
  | nil =>
      cases h
      rfl
  | cons e passes ih =>
      rw [List.forall_mem_cons] at hpasses
      obtain ⟨u, v, oks', rfl, -, hfits, hrest⟩ :=
        pass_step (laterReferences_separate.long e hpasses.1) hlen h
      rw [ih hpasses.2 hfits hrest, ampersands_pass hbegins hpasses.1]

end Ampersands

theorem ampersandsRead_iff (text : CString) :
    AmpersandsRead text ↔
      Ampersands (fun v => ∃ e ∈ xmlReferences, e.2 <+: '&' :: v) text := Iff.rfl

theorem knowsReferences_read :
    KnowsReferences fun v => ∃ e ∈ xmlReferences, e.2 <+: '&' :: v where
  own := by
    intro e he s
    refine ⟨e, he, s, ?_⟩
    conv_lhs => rw [(xmlReferences_cons e he).1]
    rfl
  congr := by
    rintro s t hsame ⟨e, he, hpre⟩
    obtain ⟨hcons, -, hplain⟩ := xmlReferences_cons e he
    rw [hcons, List.cons_prefix_cons, ← isPrefix_takeWhile_iff hplain, hsame,
      isPrefix_takeWhile_iff hplain] at hpre
    refine ⟨e, he, ?_⟩
    rw [hcons, List.cons_prefix_cons]
    exact hpre

/-! ### Safe attribute strings -/

/-- A string that can stand between quotes in XML. -/
def SafeAttribute (text : CString) : Prop :=
  '"' ∉ text ∧ '\'' ∉ text ∧ '<' ∉ text ∧ '>' ∉ text ∧ AmpersandsRead text

/-- The number of ampersands of `s` there is room to escape. -/
def escapedAmpersands (s : CString) : Nat :=
  min (s.count '&') ((xmlBufferSize - 3 - s.length) / 4)

/-- The references the ampersands after those begin are in `s` already, and there is room for all
other replacements. -/
def AttributeFits (s : CString) : Prop :=
  (∀ u v, s = u ++ '&' :: v → escapedAmpersands s ≤ u.count '&' →
    ∃ e ∈ xmlReferences, e.2 <+: '&' :: v) ∧
  (('"' ∉ s ∧ '\'' ∉ s ∧ '<' ∉ s ∧ '>' ∉ s) ∨
    s.length + 4 * escapedAmpersands s + 5 * s.count '"' + 5 * s.count '\'' + 3 * s.count '<' +
      3 * s.count '>' + 3 ≤ xmlBufferSize)

/-- The ampersands that are not escaped are those after the first `u.count '&'`. -/
theorem ampersands_rest_iff (begins : CString → Prop) (u v : CString) :
    Ampersands begins v ↔
      ∀ x y, u ++ v = x ++ '&' :: y → u.count '&' ≤ x.count '&' → begins y := by
  constructor
  · intro h x y hxy hcount
    rcases List.append_eq_append_iff.mp hxy with ⟨w, rfl, rfl⟩ | ⟨w, rfl, hw⟩
    · exact h w y rfl
    · cases w with
      | nil => exact h [] y hw.symm
      | cons c w =>
          -- the ampersand would be one of `u`
          obtain ⟨rfl, -⟩ := List.cons.inj hw
          rw [List.count_append, List.count_cons_self] at hcount
          omega
  · intro h x y hxy
    refine h (u ++ x) y (by rw [hxy, List.append_assoc]) ?_
    rw [List.count_append]
    omega

theorem forall_laterReferences (p : Char → Prop) :
    (∀ e ∈ laterReferences, p e.1) ↔ p '"' ∧ p '\'' ∧ p '<' ∧ p '>' := by
  simp [laterReferences, xmlReferences]

theorem growth_laterReferences (s : CString) :
    growth laterReferences s =
      5 * s.count '"' + (5 * s.count '\'' + (3 * s.count '<' + 3 * s.count '>')) := rfl

/-- The string after the first pass. -/
theorem first_pass {s text : CString} {oks : List Bool} (hlen : s.length < xmlBufferSize)
    (h : escapePasses xmlBufferSize xmlReferences s = some (text, oks)) :
    ∃ u v oks', s = u ++ v ∧ u.count '&' = escapedAmpersands s ∧
      (substitute '&' "&amp;".toList u ++ v).length < xmlBufferSize ∧
      escapePasses xmlBufferSize laterReferences (substitute '&' "&amp;".toList u ++ v) =
        some (text, oks') := by
  exact pass_step (e := ('&', "&amp;".toList)) (by decide) hlen h

/-- The ampersands after the first pass, and with it after all, are those it had no room for. -/
theorem ampersands_after {begins : CString → Prop} (hbegins : KnowsReferences begins)
    {u v : CString} {oks : List Bool}
    (hfits : (substitute '&' "&amp;".toList u ++ v).length < xmlBufferSize)
    (hlater : escapePasses xmlBufferSize laterReferences (substitute '&' "&amp;".toList u ++ v) =
      some (text, oks)) : Ampersands begins text ↔
      ∀ x y, u ++ v = x ++ '&' :: y → u.count '&' ≤ x.count '&' → begins y := by
  rw [ampersands_escapePasses hbegins (fun _ he => he) hfits hlater,
    ampersands_first_pass hbegins, ampersands_rest_iff begins u v]

theorem first_pass_length {s u v : CString} (hsplit : s = u ++ v)
    (hcount : u.count '&' = escapedAmpersands s) :
    (substitute '&' "&amp;".toList u ++ v).length = s.length + 4 * escapedAmpersands s := by
  rw [List.length_append, length_substitute '&' (by decide), ← hcount, hsplit, List.length_append]
  simp only [show "&amp;".toList.length - 1 = 4 from rfl]
  omega

/-- **Attribute strings are safe exactly when there is room for what has to be escaped.** -/
theorem attribute_safe_iff (src : CString) :
    (∃ text, cmprepareXmlAttributeString xmlBufferSize src = some text ∧ SafeAttribute text) ↔
      AttributeFits (src.take (xmlBufferSize - 1)) := by
  obtain ⟨text, htext⟩ := cmprepareXmlAttributeString_some (show 0 < xmlBufferSize by decide) src
  have hexists : (∃ text, cmprepareXmlAttributeString xmlBufferSize src = some text ∧
      SafeAttribute text) ↔ SafeAttribute text := by
    constructor
    · rintro ⟨text', htext', hsafe⟩
      rw [htext] at htext'
      cases htext'
      exact hsafe
    · intro hsafe
      exact ⟨text, htext, hsafe⟩
  rw [hexists]
  rw [cmprepareXmlAttributeString_eq] at htext
  obtain ⟨⟨text', oks⟩, hpasses, rfl⟩ := Option.map_eq_some_iff.mp htext
  have hlen : (src.take (xmlBufferSize - 1)).length < xmlBufferSize :=
    snprintfS_length (by decide) src
  obtain ⟨u, v, oks', hsplit, hcount, hfits, hlater⟩ := first_pass hlen hpasses
  generalize hs : src.take (xmlBufferSize - 1) = s at hsplit hcount
  have hcounts : ∀ e ∈ laterReferences,
      (substitute '&' "&amp;".toList u ++ v).count e.1 = s.count e.1 := by
    intro e he
    rw [hsplit]
    refine count_pass_of_ne ('&', "&amp;".toList) ?_ ?_
    · revert e
      decide
    · revert e
      decide
  have hnone : (∀ e ∈ laterReferences, e.1 ∉ substitute '&' "&amp;".toList u ++ v) ↔
      ∀ e ∈ laterReferences, e.1 ∉ s := by
    refine forall₂_congr ?_
    intro e he
    rw [← List.count_eq_zero, ← List.count_eq_zero, hcounts e he]
  have hlength := first_pass_length hsplit hcount
  have hclear := (escapePasses_clear_iff laterReferences_separate hfits hlater).1
  rw [hnone, growth_congr hcounts, hlength, growth_laterReferences] at hclear
  rw [forall_laterReferences (· ∉ text'), forall_laterReferences (· ∉ s)] at hclear
  have hread := ampersands_after knowsReferences_read hfits hlater
  rw [← hsplit, hcount] at hread
  rw [SafeAttribute, AttributeFits, ampersandsRead_iff, hread]
  constructor
  · rintro ⟨hquot, hapos, hlt, hgt, hamp⟩
    refine ⟨hamp, (hclear.mp ⟨hquot, hapos, hlt, hgt⟩).imp_right ?_⟩
    omega
  · rintro ⟨hamp, hroom⟩
    have hgone := hclear.mpr (hroom.imp_right (by omega))
    exact ⟨hgone.1, hgone.2.1, hgone.2.2.1, hgone.2.2.2, hamp⟩

/-- A long name keeps its last character, a raw `<`. -/
theorem long_name_unsafe :
    ¬∃ text, cmprepareXmlAttributeString xmlBufferSize (List.replicate 1022 'a' ++ ['<']) =
      some text ∧ SafeAttribute text := by
  rintro ⟨text, htext, -, -, hlt, -⟩
  have hkept : (cmprepareXmlAttributeString xmlBufferSize
      (List.replicate 1022 'a' ++ ['<'])).all (fun text => text.contains '<') = true := by
    decide +kernel
  rw [htext] at hkept
  exact hlt (by simpa using hkept)

end Cmocka
