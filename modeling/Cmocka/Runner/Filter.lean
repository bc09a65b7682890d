import Cmocka.Model.Text
import Cmocka.Support.Glob

/-!
# Runner — the test filters

`c_strmatch` against the glob language its documentation describes.  After a `*` that is not the
last character the rest of the pattern is tried at every position but the end of the string.  That
is all of them unless the rest can match the empty string, which only a run of stars does: a pattern
that ends in two stars or more asks for one more character (`cStrmatchLoop_iff`).  The matcher is
right exactly where this makes no difference (`strmatch_exact_iff`).
-/

namespace Cmocka

open Glob

/-! ### Two meanings of a pattern -/

/-- The documented meaning of a character of a pattern. -/
def globItem (c : Char) : Item Char :=
  if c = '*' then .many else if c = '?' then .any else .lit c

/-- The documented meaning of a pattern. -/
def globOf (pattern : CString) : List (Item Char) := pattern.map globItem

/-- A run of stars. -/
def isStars (pattern : CString) : Bool := pattern.all (· = '*')

/-- The pattern without the stars at its end. -/
def stem : CString → CString
  | [] => []
  | c :: pattern => if isStars (c :: pattern) then [] else c :: stem pattern

/-- The meaning `c_strmatch` gives a pattern. -/
def matchedGlob : CString → List (Item Char)
  | [] => []
  | c :: pattern =>
      if pattern ≠ [] ∧ isStars (c :: pattern) then [.any, .many]
      else globItem c :: matchedGlob pattern

theorem isStars_cons {c : Char} {pattern : CString} :
    isStars (c :: pattern) = true ↔ c = '*' ∧ isStars pattern = true := by
  simp [isStars]

theorem isStars_iff {pattern : CString} :
    isStars pattern = true ↔ ∃ n, pattern = List.replicate n '*' := by
  rw [isStars, List.all_eq_true]
  constructor
  · intro h
    exact ⟨pattern.length, List.eq_replicate_iff.mpr ⟨rfl, fun c hc => by simpa using h c hc⟩⟩
  · rintro ⟨n, rfl⟩ c hc
    simpa using List.eq_of_mem_replicate hc

/-- The two meanings differ for a pattern that ends in two stars. -/
theorem matchedGlob_eq (pattern : CString) :
    ∃ n, globOf pattern = globOf (stem pattern) ++ List.replicate n .many ∧
      (['*', '*'] <:+ pattern → n ≠ 0 ∧
        matchedGlob pattern = globOf (stem pattern) ++ [.any, .many]) ∧
      (¬['*', '*'] <:+ pattern → matchedGlob pattern = globOf pattern) := by
  induction pattern with
  | nil => exact ⟨0, rfl, by simp, fun _ => rfl⟩
  | cons c pattern ih =>
      obtain ⟨n, hn, hstars, hplain⟩ := ih
      cases hs : isStars (c :: pattern) with
      | true =>
          obtain ⟨m, hm⟩ := isStars_iff.mp hs
          have hstem : stem (c :: pattern) = [] := by rw [stem, if_pos hs]
          have hm' : m = pattern.length + 1 := by simpa using (congrArg List.length hm).symm
          refine ⟨m, ?_, fun hsuf => ⟨by omega, ?_⟩, fun hsuf => ?_⟩
          · rw [hstem, hm, globOf, List.map_replicate]
            rfl
          · have hlen := hsuf.length_le
            have hne : pattern ≠ [] := by
              rintro rfl
              simp at hlen
            rw [hstem, matchedGlob, if_pos ⟨hne, hs⟩]
            rfl
          · have hnil : pattern = [] := by
              by_contra hne
              obtain ⟨k, hk⟩ : ∃ k, m = k + 2 :=
                ⟨pattern.length - 1, by have := List.length_pos_iff.mpr hne; omega⟩
              refine hsuf ⟨List.replicate k '*', ?_⟩
              rw [hm, hk, List.replicate_add]
              rfl
            subst hnil
            rfl
      | false =>
          -- a letter in front of other items changes neither the end nor the stem behind it
          have hsuf : ['*', '*'] <:+ c :: pattern ↔ ['*', '*'] <:+ pattern := by
            rw [List.suffix_cons_iff]
            refine or_iff_right fun heq => ?_
            rw [← heq] at hs
            cases hs
          have hmatched : matchedGlob (c :: pattern) = globItem c :: matchedGlob pattern := by
            rw [matchedGlob, if_neg (by simp [hs])]
          have hstem : stem (c :: pattern) = c :: stem pattern := by rw [stem, if_neg (by simp [hs])]
          refine ⟨n, ?_, fun h => ?_, fun h => ?_⟩
          · rw [hstem]
            exact congrArg (globItem c :: ·) hn
          · obtain ⟨hn₀, hm⟩ := hstars (hsuf.mp h)
            exact ⟨hn₀, by rw [hmatched, hm, hstem]; rfl⟩
          · rw [hmatched, hplain (mt hsuf.mpr h)]
            rfl

/-! ### The matcher -/

/-- Anything but a run of stars needs a character. -/
theorem nil_not_mem_matchedGlob {pattern : CString} (h : isStars pattern = false) :
    [] ∉ lang (matchedGlob pattern) := by
  induction pattern with
  | nil => cases h
  | cons c pattern ih =>
      rw [matchedGlob, if_neg (by simp [h])]
      by_cases hc : c = '*'
      · have hp : isStars pattern = false := by
          rw [← Bool.not_eq_true] at h ⊢
          exact fun hp => h (isStars_cons.mpr ⟨hc, hp⟩)
        rw [hc, globItem, if_pos rfl, mem_lang_many]
        rintro ⟨v, hv, hmem⟩
        rw [List.suffix_nil.mp hv] at hmem
        exact ih hp hmem
      · rw [globItem, if_neg hc]
        split
        · exact nil_mem_lang_any
        · exact nil_mem_lang_lit

/-- A run of stars matches every string but perhaps the empty one. -/
theorem mem_matchedGlob_stars {pattern : CString} (h : isStars pattern = true)
    (hne : pattern ≠ []) {str : CString} (hstr : str ≠ []) : str ∈ lang (matchedGlob pattern) := by
  cases pattern with
  | nil => exact absurd rfl hne
  | cons c pattern =>
      cases str with
      | nil => exact absurd rfl hstr
      | cons a str =>
          rw [matchedGlob]
          split
          · exact cons_mem_lang_any.mpr (mem_lang_replicate_many 0 str)
          next hp =>
            obtain rfl : pattern = [] := by
              by_contra hne'
              exact hp ⟨hne', h⟩
            rw [(isStars_cons.mp h).1]
            exact mem_lang_replicate_many 0 (a :: str)

theorem any_tails {p : CString → Bool} {str : CString} :
    str.tails.any p = true ↔ ∃ v, v <:+ str ∧ p v = true := by
  simp [List.any_eq_true, List.mem_tails]

/-- **The matcher** decides the meaning it gives patterns. -/
theorem cStrmatchLoop_iff (pattern str : CString) :
    cStrmatchLoop pattern str = true ↔ str ∈ lang (matchedGlob pattern) := by
  induction pattern generalizing str with
  | nil => simp [cStrmatchLoop, matchedGlob]
  | cons c pattern ih =>
      rw [cStrmatchLoop.eq_def]
      simp only
      by_cases hc : c = '*'
      · rw [if_pos hc]
        subst hc
        cases pattern with
        | nil =>
            exact iff_of_true rfl (mem_lang_replicate_many 0 str)
        | cons d pattern =>
            rw [if_neg (by simp), any_tails]
            simp only [Bool.and_eq_true, ih]
            cases hs : isStars (d :: pattern) with
            | true =>
                have hall : isStars ('*' :: d :: pattern) = true := isStars_cons.mpr ⟨rfl, hs⟩
                have hm : matchedGlob ('*' :: d :: pattern) = [.any, .many] :=
                  if_pos ⟨by simp, hall⟩
                rw [hm]
                constructor
                · rintro ⟨v, hv, hne, -⟩
                  cases str with
                  | nil =>
                      rw [List.suffix_nil.mp hv] at hne
                      cases hne
                  | cons a str => exact cons_mem_lang_any.mpr (mem_lang_replicate_many 0 str)
                · intro hstr
                  cases str with
                  | nil => exact absurd hstr nil_mem_lang_any
                  | cons a str =>
                      exact ⟨a :: str, List.suffix_refl _, rfl,
                        mem_matchedGlob_stars hs (by simp) (by simp)⟩
            | false =>
                have hnot : isStars ('*' :: d :: pattern) = false := by
                  rw [← Bool.not_eq_true, isStars_cons, hs]
                  simp
                have hm : matchedGlob ('*' :: d :: pattern) = .many :: matchedGlob (d :: pattern) :=
                  if_neg (by simp [hnot])
                rw [hm, mem_lang_many]
                refine exists_congr fun v => and_congr_right fun _ => ?_
                -- the excluded position is no match anyway
                refine ⟨And.right, fun hv => ⟨?_, hv⟩⟩
                cases v with
                | nil => exact absurd hv (nil_not_mem_matchedGlob hs)
                | cons a v => rfl
      · have hnot : isStars (c :: pattern) = false := by
          rw [← Bool.not_eq_true, isStars_cons]
          simp [hc]
        rw [if_neg hc, matchedGlob, if_neg (by simp [hnot]), globItem, if_neg hc]
        cases str with
        | nil => by_cases hq : c = '?' <;> simp [hq]
        | cons s str =>
            by_cases hq : c = '?'
            · simp [hq, ih]
            · simp [hq, ih]

/-- The loop agrees with the glob language where the stars at the end of the pattern ask for
nothing. -/
theorem cStrmatchLoop_exact_iff (str pattern : CString) :
    (cStrmatchLoop pattern str = true ↔ str ∈ lang (globOf pattern)) ↔
      (['*', '*'] <:+ pattern → str ∈ lang (globOf (stem pattern)) →
        ∃ u, u <+: str ∧ u ≠ str ∧ u ∈ lang (globOf (stem pattern))) := by
  rw [cStrmatchLoop_iff]
  obtain ⟨n, hn, hstars, hplain⟩ := matchedGlob_eq pattern
  by_cases hsuf : ['*', '*'] <:+ pattern
  · obtain ⟨hn₀, hmatched⟩ := hstars hsuf
    obtain ⟨m, rfl⟩ := Nat.exists_eq_succ_of_ne_zero hn₀
    rw [hmatched, hn, mem_lang_append_any_many, mem_lang_append_replicate]
    constructor
    · intro hiff _ hmem
      exact hiff.mpr ⟨str, List.prefix_refl str, hmem⟩
    · intro himp
      constructor
      · rintro ⟨u, hu, -, hmem⟩
        exact ⟨u, hu, hmem⟩
      · rintro ⟨u, hu, hmem⟩
        by_cases heq : u = str
        · subst heq
          exact himp hsuf hmem
        · exact ⟨u, hu, heq, hmem⟩
  · rw [hplain hsuf]
    simp [hsuf]

/-- **The filter matcher** implements the glob language exactly for the strings and patterns where
the stars at the end of the pattern ask for nothing: the pattern does not end in two stars, or the
string does not match the pattern without its last stars, or a proper prefix of it does.  A `NULL`
string or pattern matches nothing, as it should. -/
theorem strmatch_exact_iff (str pattern : Option CString) :
    (cStrmatch str pattern = true ↔
        ∃ s p, str = some s ∧ pattern = some p ∧ s ∈ lang (globOf p)) ↔
      ∀ s p, str = some s → pattern = some p → ['*', '*'] <:+ p → s ∈ lang (globOf (stem p)) →
        ∃ u, u <+: s ∧ u ≠ s ∧ u ∈ lang (globOf (stem p)) := by
  rcases str with - | s
  · simp [cStrmatch]
  rcases pattern with - | p
  · simp [cStrmatch]
  have hspec : (∃ s' p', some s = some s' ∧ some p = some p' ∧ s' ∈ lang (globOf p')) ↔
      s ∈ lang (globOf p) := by
    simp
  have hloop := cStrmatchLoop_exact_iff s p
  rw [hspec]
  refine hloop.trans ⟨?_, fun h => h s p rfl rfl⟩
  rintro h s' p' ⟨⟩ ⟨⟩
  exact h

/-- `"**"` matches no empty name. -/
theorem two_stars_reject_empty :
    ¬(cStrmatch (some []) (some "**".toList) = true ↔ [] ∈ lang (globOf "**".toList)) := by
  intro h
  have hmem : [] ∈ lang (globOf "**".toList) := mem_lang_replicate_many 1 []
  exact absurd (h.mpr hmem) (by decide)

end Cmocka
