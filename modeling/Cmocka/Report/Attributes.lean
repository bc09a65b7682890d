import Cmocka.Report.Escape

/-!
# Report — names as attribute values

What stands between the quotes of an attribute in XML: any text without `<` in which each `&` begins
a reference, to one of the five predefined entities or to a character by its number
(`isAttributeValue`).  Apostrophes and `>` may stay as they are.  A name that was put through
`cmprepare_xml_attribute_string` is one, and has no double quote in it, exactly when there was room
to escape its double quotes and its `<`, and the ampersands there was no room for begin references
already (`attribute_value_iff`).
-/

namespace Cmocka

open Replacing Escaping Occurrence

variable {bufLen : Nat} {text : CString}

/-! ### References -/

/-- A character by its number that XML allows. -/
def isXmlChar (n : Nat) : Bool :=
  n == 0x9 || n == 0xA || n == 0xD || (0x20 ≤ n && n ≤ 0xD7FF) || (0xE000 ≤ n && n ≤ 0xFFFD) ||
    (0x10000 ≤ n && n ≤ 0x10FFFF)

def isHexDigit (c : Char) : Bool :=
  c.isDigit || ('a' ≤ c && c ≤ 'f') || ('A' ≤ c && c ≤ 'F')

def digitValue (c : Char) : Nat :=
  if c.isDigit then c.toNat - '0'.toNat
  else if 'a' ≤ c then c.toNat - 'a'.toNat + 10
  else c.toNat - 'A'.toNat + 10

/-- The number some digits write. -/
def numeral (base : Nat) (digits : CString) : Nat :=
  digits.foldl (fun n c => base * n + digitValue c) 0

/-- What stands between `&` and `;` in a reference. -/
def isReference : CString → Bool
  | '#' :: 'x' :: digits =>
      !digits.isEmpty && digits.all isHexDigit && isXmlChar (numeral 16 digits)
  | '#' :: digits => !digits.isEmpty && digits.all Char.isDigit && isXmlChar (numeral 10 digits)
  | name =>
      ["amp".toList, "quot".toList, "apos".toList, "lt".toList, "gt".toList].contains name

/-- What follows an ampersand makes it a reference. -/
def beginsReference (s : CString) : Bool := s.contains ';' && isReference (s.takeWhile (· != ';'))

/-- The text may stand between the quotes of an attribute. -/
def isAttributeValue : CString → Bool
  | [] => true
  | c :: s => c != '<' && (c != '&' || beginsReference s) && isAttributeValue s

/-- A reference has no character in it that is replaced, and no semicolon. -/
theorem isReference_plain {r : CString} (h : isReference r = true) :
    ∀ c ∈ r, isPlain c = true ∧ c ≠ ';' := by
  have hdigit : ∀ c, isHexDigit c = true → isPlain c = true ∧ c ≠ ';' := by
    intro c hc
    refine ⟨?_, ?_⟩
    · by_contra hplain
      simp only [isPlain, Bool.not_eq_true, Bool.not_eq_false', List.contains_iff_mem,
        List.mem_cons, List.not_mem_nil, or_false] at hplain
      rcases hplain with rfl | rfl | rfl | rfl | rfl <;> cases hc
    · rintro rfl
      cases hc
  unfold isReference at h
  split at h
  next digits =>
    simp only [Bool.and_eq_true, List.all_eq_true] at h
    intro c hc
    rcases List.mem_cons.mp hc with rfl | hc
    · decide
    rcases List.mem_cons.mp hc with rfl | hc
    · decide
    · exact hdigit c (h.1.2 c hc)
  next digits _ =>
    simp only [Bool.and_eq_true, List.all_eq_true] at h
    intro c hc
    rcases List.mem_cons.mp hc with rfl | hc
    · decide
    · exact hdigit c (by rw [isHexDigit, h.1.2 c hc]; rfl)
  next name _ _ =>
    simp only [List.contains_iff_mem, List.mem_cons, List.not_mem_nil, or_false] at h
    have hall : r.all (fun c => isPlain c && c != ';') = true := by
      rcases h with rfl | rfl | rfl | rfl | rfl <;> decide
    intro c hc
    have hchar := List.all_eq_true.mp hall c hc
    rw [Bool.and_eq_true, bne_iff_ne] at hchar
    exact hchar

/-- Up to the first semicolon, and with it. -/
theorem takeWhile_semicolon {s : CString} (h : ';' ∈ s) :
    s.takeWhile (· != ';') ++ [';'] <+: s := by
  induction s with
  | nil => cases h
  | cons c s ih =>
      by_cases hc : c = ';'
      · subst hc
        exact List.prefix_append [';'] s
      · have hmem : ';' ∈ s := (List.mem_cons.mp h).resolve_left fun he => hc he.symm
        rw [List.takeWhile_cons_of_pos (by simpa using hc), List.cons_append,
          List.cons_prefix_cons]
        exact ⟨rfl, ih hmem⟩

theorem beginsReference_iff (s : CString) :
    beginsReference s = true ↔ ∃ r, isReference r = true ∧ r ++ [';'] <+: s := by
  rw [beginsReference, Bool.and_eq_true, List.contains_iff_mem]
  constructor
  · rintro ⟨hmem, href⟩
    exact ⟨_, href, takeWhile_semicolon hmem⟩
  · rintro ⟨r, href, rest, rfl⟩
    have hno : ∀ c ∈ r, (c != ';') = true := fun c hc => by
      simpa using (isReference_plain href c hc).2
    refine ⟨by simp, ?_⟩
    rw [List.append_assoc, List.takeWhile_append_of_pos hno]
    simpa using href

/-- The references that replace characters are references, and no reference has a character in it
that is replaced. -/
theorem knowsReferences_begins : KnowsReferences fun s => beginsReference s = true where
  own := by
    intro e he s
    rw [beginsReference_iff]
    have hname : ∀ e ∈ xmlReferences,
        isReference e.2.tail.dropLast = true ∧ e.2.tail.dropLast ++ [';'] = e.2.tail := by decide
    obtain ⟨href, heq⟩ := hname e he
    refine ⟨_, href, ?_⟩
    rw [heq]
    exact List.prefix_append _ s
  congr := by
    intro s t hsame hs
    rw [beginsReference_iff] at hs ⊢
    obtain ⟨r, href, hpre⟩ := hs
    have hplain : ∀ c ∈ r ++ [';'], isPlain c = true := by
      intro c hc
      rcases List.mem_append.mp hc with hc | hc
      · exact (isReference_plain href c hc).1
      · rw [List.mem_singleton.mp hc]
        rfl
    rw [← isPrefix_takeWhile_iff hplain, hsame, isPrefix_takeWhile_iff hplain] at hpre
    exact ⟨r, href, hpre⟩

theorem isAttributeValue_iff (text : CString) :
    isAttributeValue text = true ↔
      '<' ∉ text ∧ Ampersands (fun s => beginsReference s = true) text := by
  induction text with
  | nil =>
      refine iff_of_true rfl ⟨List.not_mem_nil, ?_⟩
      intro u v huv
      simp at huv
  | cons c text ih =>
      rw [isAttributeValue, Bool.and_eq_true, Bool.and_eq_true, ih, ampersands_cons, List.mem_cons,
        not_or]
      simp only [bne_iff_ne, Bool.or_eq_true, ne_eq, eq_comm (a := '<'), ← imp_iff_not_or]
      tauto

/-! ### What is escaped in a name -/

/-- There is room to escape all double quotes. -/
def QuotesEscaped (s : CString) : Prop :=
  '"' ∉ s ∨ s.length + 4 * escapedAmpersands s + 5 * s.count '"' + 3 ≤ xmlBufferSize

/-- The number of apostrophes there is room to escape after the double quotes. -/
def escapedApostrophes (s : CString) : Nat :=
  min (s.count '\'')
    ((xmlBufferSize - 3 - (s.length + 4 * escapedAmpersands s + 5 * s.count '"')) / 5)

/-- There is room to escape all `<`. -/
def LessThansEscaped (s : CString) : Prop :=
  '<' ∉ s ∨ s.length + 4 * escapedAmpersands s + 5 * s.count '"' + 5 * escapedApostrophes s +
    3 * s.count '<' + 3 ≤ xmlBufferSize

/-- The ampersands there is no room to escape begin references. -/
def AmpersandsEscaped (s : CString) : Prop :=
  ∀ u v, s = u ++ '&' :: v → escapedAmpersands s ≤ u.count '&' → beginsReference v = true

/-- What is left of a character whose pass this is. -/
theorem count_after_pass {e : Char × CString} {passes : List (Char × CString)} {u v : CString}
    {oks : List Bool} (he : e.1 ∉ e.2) (hlong : ∀ e' ∈ passes, 1 < e'.2.length)
    (hlater : ∀ e' ∈ passes, e.1 ≠ e'.1 ∧ e.1 ∉ e'.2)
    (hfits : (substitute e.1 e.2 u ++ v).length < bufLen)
    (h : escapePasses bufLen passes (substitute e.1 e.2 u ++ v) = some (text, oks)) :
    text.count e.1 = v.count e.1 := by
  rw [count_escapePasses hlong hlater hfits h, List.count_append, count_substitute_self he,
    Nat.zero_add]

theorem length_pass {e : Char × CString} (he : 1 < e.2.length) (u v : CString) :
    (substitute e.1 e.2 u ++ v).length = (u ++ v).length + (e.2.length - 1) * u.count e.1 := by
  rw [List.length_append, length_substitute _ (List.length_pos_iff.mp (by omega)),
    List.length_append]
  omega

/-- **A name is an attribute value without double quotes exactly when** there is room for what has
to be escaped in it. -/
theorem attribute_value_iff {src : CString}
    (htext : cmprepareXmlAttributeString xmlBufferSize src = some text) :
    ('"' ∉ text ∧ isAttributeValue text = true) ↔
      QuotesEscaped (src.take (xmlBufferSize - 1)) ∧
      LessThansEscaped (src.take (xmlBufferSize - 1)) ∧
      AmpersandsEscaped (src.take (xmlBufferSize - 1)) := by
  rw [cmprepareXmlAttributeString_eq] at htext
  obtain ⟨⟨text', oks⟩, hpasses, rfl⟩ := Option.map_eq_some_iff.mp htext
  have hlen : (src.take (xmlBufferSize - 1)).length < xmlBufferSize :=
    snprintfS_length (by decide) src
  obtain ⟨u, v, oks₁, hsplit, hcount, hfits₁, hlater⟩ := first_pass hlen hpasses
  generalize src.take (xmlBufferSize - 1) = s at hsplit hcount
  have hamp := ampersands_after knowsReferences_begins hfits₁ hlater
  rw [← hsplit, hcount] at hamp
  -- the passes for the double quote, the apostrophe and `<`
  obtain ⟨u₂, v₂, oks₂, h₂, hcount₂, hfits₂, hlater₂⟩ :=
    pass_step (e := ('"', "&quot;".toList)) (by decide) hfits₁ hlater
  obtain ⟨u₃, v₃, oks₃, h₃, hcount₃, hfits₃, hlater₃⟩ :=
    pass_step (e := ('\'', "&apos;".toList)) (by decide) hfits₂ hlater₂
  obtain ⟨u₄, v₄, oks₄, h₄, hcount₄, hfits₄, hlater₄⟩ :=
    pass_step (e := ('<', "&lt;".toList)) (by decide) hfits₃ hlater₃
  have hquote : text'.count '"' = v₂.count '"' :=
    count_after_pass (e := ('"', "&quot;".toList)) (by decide) (by decide) (by decide) hfits₂ hlater₂
  have hless : text'.count '<' = v₄.count '<' :=
    count_after_pass (e := ('<', "&lt;".toList)) (by decide) (by decide) (by decide) hfits₄ hlater₄
  -- the counts in the string are those in the name, until the pass of the character
  have hquotes : (u₂ ++ v₂).count '"' = s.count '"' := by
    rw [← h₂, hsplit]
    exact count_pass_of_ne ('&', "&amp;".toList) (by decide) (by decide)
  have hapostrophes : (u₃ ++ v₃).count '\'' = s.count '\'' := by
    rw [← h₃, count_pass_of_ne ('"', "&quot;".toList) (by decide) (by decide), ← h₂, hsplit]
    exact count_pass_of_ne ('&', "&amp;".toList) (by decide) (by decide)
  have hlessThans : (u₄ ++ v₄).count '<' = s.count '<' := by
    rw [← h₄, count_pass_of_ne ('\'', "&apos;".toList) (by decide) (by decide), ← h₃,
      count_pass_of_ne ('"', "&quot;".toList) (by decide) (by decide), ← h₂, hsplit]
    exact count_pass_of_ne ('&', "&amp;".toList) (by decide) (by decide)
  have hlength₁ := first_pass_length hsplit hcount
  have hlength₂ := length_pass (e := ('"', "&quot;".toList)) (by decide) u₂ v₂
  have hlength₃ := length_pass (e := ('\'', "&apos;".toList)) (by decide) u₃ v₃
  rw [h₂] at hlength₁ hcount₂
  rw [h₃] at hlength₂ hcount₃
  rw [h₄] at hlength₃ hcount₄
  have hclear₂ := pass_clear_iff (e := ('"', "&quot;".toList)) (by decide) hcount₂
  rw [hquotes, hlength₁] at hclear₂
  have hclear₄ := pass_clear_iff (e := ('<', "&lt;".toList)) (by decide) hcount₄
  have hroom : v₂.count '"' = 0 → (v₄.count '<' = 0 ↔ LessThansEscaped s) := by
    intro hzero
    have hall : u₂.count '"' = s.count '"' := by
      rw [← hquotes, List.count_append, hzero, Nat.add_zero]
    rw [hlength₁, hall] at hlength₂
    rw [hapostrophes, hlength₂] at hcount₃
    rw [hlength₂, hcount₃] at hlength₃
    rw [hclear₄, hlessThans, hlength₃, LessThansEscaped, escapedApostrophes, List.count_eq_zero]
    rfl
  rw [isAttributeValue_iff, ← List.count_eq_zero, ← List.count_eq_zero (a := '<'), hquote, hless,
    hamp, QuotesEscaped, ← List.count_eq_zero (a := '"')]
  constructor
  · rintro ⟨hzero, hgone, hread⟩
    exact ⟨hclear₂.mp hzero, (hroom hzero).mp hgone, hread⟩
  · rintro ⟨hescaped, hless, hread⟩
    have hzero := hclear₂.mpr hescaped
    exact ⟨hzero, (hroom hzero).mpr hless, hread⟩

/-- What is safe as an attribute string is an attribute value. -/
theorem attributeFits_escaped {s : CString} (h : AttributeFits s) :
    QuotesEscaped s ∧ LessThansEscaped s ∧ AmpersandsEscaped s := by
  obtain ⟨hamp, hroom⟩ := h
  have hread : AmpersandsEscaped s := by
    intro u v huv hcount
    obtain ⟨e, he, hpre⟩ := hamp u v huv hcount
    rw [(xmlReferences_cons e he).1, List.cons_prefix_cons] at hpre
    obtain ⟨rest, rfl⟩ := hpre.2
    exact knowsReferences_begins.own e he rest
  rcases hroom with ⟨hquot, -, hlt, -⟩ | hroom
  · exact ⟨.inl hquot, .inl hlt, hread⟩
  · have hapos : escapedApostrophes s ≤ s.count '\'' := Nat.min_le_left _ _
    exact ⟨.inr (by omega), .inr (by omega), hread⟩

end Cmocka
