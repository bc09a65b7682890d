import Cmocka.Runner.Frames
import Cmocka.Model.Sets

/-!
# Expectations — the set assertions

Every loop of the set assertions runs over the whole array, so each assertion that reaches its
search decides membership (`decides_copyingMacro`).  The guard of the copying macros keeps them
from searching an empty array: `assert_int_in_set` and `assert_uint_in_set` then pass, where
`assert_in_set` fails.  The six macros decide membership if and only if no array is empty
(`set_assertions_decide_iff`).
-/

namespace Cmocka

open Runs

/-! ### What is to be decided -/

/-- The value of a word of type `intmax_t`. -/
def readIntmax (v : MaxWord) : Int := v.toInt

/-- The value of a word of type `uintmax_t`. -/
def readUintmax (v : MaxWord) : Int := v.toNat

/-- An element type that converts to words without loss. -/
structure ElementType (ι : Type) (read : MaxWord → Int) where
  value : ι → Int
  convert : ι → MaxWord
  lossless : ∀ x, read (convert x) = value x

/-- `int8_t`. -/
def int8 : ElementType (BitVec 8) readIntmax where
  value := BitVec.toInt
  convert := BitVec.signExtend 64
  lossless x := BitVec.toInt_signExtend_of_le (by decide)

/-- `uintmax_t` itself. -/
def uintmax : ElementType MaxWord readUintmax where
  value v := v.toNat
  convert := id
  lossless _ := rfl

/-- The value occurs in the array. -/
def Occurs {ι : Type} {read : MaxWord → Int} (type : ElementType ι read) (value : MaxWord)
    (values : List ι) : Prop :=
  ∃ x ∈ values, type.value x = read value

/-- The assertion passes if `P` and calls `_fail` with its place otherwise. -/
structure Decides (assertion : CString → Int → CM Unit) (P : Prop) : Prop where
  passes : P → ∀ file line s, assertion file line s = .ok () s
  fails : ¬P → ∀ file line s, ∃ message,
    assertion file line s = fail file line { s with cmErrorMessage := message }

/-- One assertion returns exactly if the other does. -/
def SameVerdict (assertion other : CString → Int → CM Unit) : Prop :=
  ∀ file line s, (∃ s', assertion file line s = .ok () s') ↔ ∃ s', other file line s = .ok () s'

/-- The six macros on an array that is to be read as `intmax_t`, on one that is to be read as
`uintmax_t`, and on one of type `uintmax_t`. -/
structure SetAssertionsDecide {ι υ : Type} (type : ElementType ι readIntmax)
    (utype : ElementType υ readUintmax) (value uvalue word : MaxWord) (values : List ι)
    (uvalues : List υ) (words : List MaxWord) : Prop where
  int_in : Decides (assertIntInSetMacro type.convert value values values.length)
    (Occurs type value values)
  int_not_in : Decides (assertIntNotInSetMacro type.convert value values values.length)
    (¬Occurs type value values)
  uint_in : Decides (assertUintInSetMacro utype.convert uvalue uvalues uvalues.length)
    (Occurs utype uvalue uvalues)
  uint_not_in : Decides (assertUintNotInSetMacro utype.convert uvalue uvalues uvalues.length)
    (¬Occurs utype uvalue uvalues)
  in_set : SameVerdict (assertInSetMacro word words words.length)
    (assertUintInSetMacro uintmax.convert word words words.length)
  not_in_set : SameVerdict (assertNotInSetMacro word words words.length)
    (assertUintNotInSetMacro uintmax.convert word words words.length)

/-! ### The loops -/

variable {ι : Type} (value : MaxWord)

/-- The search from a place in the array on. -/
theorem searchLoop_apply (before rest : List MaxWord) (succeeded : Bool) (s : Globals) :
    searchLoop value (before ++ rest) rest.length before.length succeeded s =
      .ok (if value ∈ rest then !succeeded else succeeded) s := by
  induction rest generalizing before with
  | nil => rfl
  | cons x rest ih =>
      have hget : (before ++ x :: rest)[before.length]? = some x := by simp
      rw [List.length_cons, searchLoop, hget]
      dsimp only
      split
      case isTrue heq =>
        rw [if_pos (heq ▸ List.mem_cons_self), pure_apply]
      case isFalse hne =>
        have hrest := ih (before ++ [x])
        rw [List.append_assoc, List.singleton_append, List.length_append, List.length_singleton]
          at hrest
        rw [hrest]
        simp only [List.mem_cons, Ne.symm hne, false_or]

/-- Printing the elements returns. -/
theorem printSetLoop_apply (format : MaxWord → CString) (size : Nat) (before rest : List MaxWord)
    (s : Globals) :
    ∃ message, printSetLoop format (before ++ rest) size rest.length before.length s =
      .ok () { s with cmErrorMessage := message } := by
  induction rest generalizing before s with
  | nil => exact ⟨s.cmErrorMessage, rfl⟩
  | cons x rest ih =>
      have hget : (before ++ x :: rest)[before.length]? = some x := by simp
      have hrest := ih (before ++ [x])
      rw [List.append_assoc, List.singleton_append, List.length_append, List.length_singleton]
        at hrest
      rw [List.length_cons, printSetLoop, hget]
      exact hrest _

/-- The copy of an array. -/
theorem copyLoop_apply (convert : ι → MaxWord) (before rest : List ι) (copied : List MaxWord)
    (s : Globals) :
    copyLoop convert (before ++ rest) rest.length before.length copied s =
      .ok (copied ++ rest.map convert) s := by
  induction rest generalizing before copied with
  | nil =>
      rw [List.map_nil, List.append_nil copied]
      rfl
  | cons x rest ih =>
      have hget : (before ++ x :: rest)[before.length]? = some x := by simp
      have hrest := ih (before ++ [x]) (copied ++ [convert x])
      rw [List.append_assoc, List.singleton_append, List.length_append, List.length_singleton,
        List.append_assoc, List.singleton_append] at hrest
      rw [List.length_cons, copyLoop, hget, List.map_cons]
      exact hrest

/-! ### The assertions -/

/-- A search succeeds or prints the array. -/
theorem valueInSetDisplayError_apply (format : MaxWord → CString) (line : Int)
    (values : List MaxWord) (invert : Bool) (s : Globals) :
    ∃ message, valueInSetDisplayError format line value (some ⟨values, values.length⟩) invert s =
      if value ∈ values ↔ invert = false then .ok true s
      else .ok false { s with cmErrorMessage := message } := by
  have hsearch := searchLoop_apply value [] values invert s
  rw [List.nil_append, List.length_nil] at hsearch
  by_cases hP : value ∈ values ↔ invert = false
  · have hsucceeded : (if value ∈ values then !invert else invert) = true := by
      cases invert <;> simp_all
    refine ⟨none, ?_⟩
    rw [hsucceeded] at hsearch
    rw [if_pos hP]
    exact bind_of_ok hsearch _
  · have hsucceeded : (if value ∈ values then !invert else invert) = false := by
      cases invert <;> simp_all
    rw [hsucceeded] at hsearch
    obtain ⟨message, hprint⟩ := printSetLoop_apply format values.length [] values
      { s with cmErrorMessage := vcmockaPrintError s.cmErrorMessage (format value ++ " is ".toList ++
        (if invert then [] else "not ".toList) ++ "in the set (".toList) }
    refine ⟨vcmockaPrintError message ")\n".toList, ?_⟩
    rw [if_neg hP]
    refine (bind_of_ok hsearch _).trans ?_
    exact bind_of_ok hprint _

/-- An assertion that searches the whole array. -/
theorem decides_assertSearch (format : MaxWord → CString) (line : Int) (values : List MaxWord)
    (invert : Bool) :
    Decides (assertSearch (valueInSetDisplayError format line) invert value values values.length)
      (value ∈ values ↔ invert = false) := by
  refine ⟨fun hP file line' s => ?_, fun hP file line' s => ?_⟩
  · obtain ⟨message, hok⟩ := valueInSetDisplayError_apply value format line values invert s
    rw [if_pos hP] at hok
    rw [assertSearch, bind_of_ok hok]
    rfl
  · obtain ⟨message, hok⟩ := valueInSetDisplayError_apply value format line values invert s
    rw [if_neg hP] at hok
    refine ⟨message, ?_⟩
    rw [assertSearch, bind_of_ok hok]
    rfl

/-! ### The macros -/

/-- A macro that copies an array with elements searches the copy. -/
theorem decides_copyingMacro (format : MaxWord → CString) (line : Int) (invert : Bool)
    (convert : ι → MaxWord) {values : List ι} (hne : values ≠ []) :
    Decides (copyingMacro (assertSearch (valueInSetDisplayError format line) invert) convert value
      values values.length) (value ∈ values.map convert ↔ invert = false) := by
  have hcopy : ∀ file line' s,
      copyingMacro (assertSearch (valueInSetDisplayError format line) invert) convert value values
        values.length file line' s =
      assertSearch (valueInSetDisplayError format line) invert value (values.map convert)
        (values.map convert).length file line' s := by
    intro file line' s
    have hcopied := copyLoop_apply convert [] values [] s
    rw [copyingMacro, if_pos (List.length_pos_iff.mpr hne), List.length_map]
    exact bind_of_ok hcopied _
  obtain ⟨hpass, hfail⟩ := decides_assertSearch value format line (values.map convert) invert
  refine ⟨fun hP file line' s => ?_, fun hP file line' s => ?_⟩
  · rw [hcopy, hpass hP]
  · rw [hcopy]
    exact hfail hP file line' s

/-- It does nothing with an empty one. -/
theorem copyingMacro_nil (assertion : MaxWord → List MaxWord → Nat → CString → Int → CM Unit)
    (convert : ι → MaxWord) (file : CString) (line : Int) (s : Globals) :
    copyingMacro assertion convert value [] 0 file line s = .ok () s := rfl

/-- The words of an array hold a word exactly if its value occurs. -/
theorem mem_map_convert_iff {read : MaxWord → Int} (hread : Function.Injective read)
    (type : ElementType ι read) (values : List ι) :
    value ∈ values.map type.convert ↔ Occurs type value values := by
  rw [List.mem_map, Occurs]
  refine exists_congr fun x => and_congr_right fun _ => ?_
  rw [← type.lossless, hread.eq_iff]

theorem readIntmax_injective : Function.Injective readIntmax := fun _ _ h => BitVec.eq_of_toInt_eq h

theorem readUintmax_injective : Function.Injective readUintmax := fun _ _ h =>
  BitVec.eq_of_toNat_eq (Int.ofNat.inj h)

variable {assertion other : CString → Int → CM Unit} {P Q : Prop}

theorem Decides.congr (h : Decides assertion P) (hPQ : P ↔ Q) : Decides assertion Q :=
  propext hPQ ▸ h

/-- What an assertion decides is what it returns for. -/
theorem Decides.returns_iff (h : Decides assertion P) (file : CString) (line : Int) (s : Globals) :
    (∃ s', assertion file line s = .ok () s') ↔ P := by
  by_cases hP : P
  · exact iff_of_true ⟨s, h.passes hP file line s⟩ hP
  · refine iff_of_false ?_ hP
    rintro ⟨s', hs'⟩
    obtain ⟨message, hfail⟩ := h.fails hP file line s
    exact fail_ne_ok file line _ s' () (hfail.symm.trans hs')

theorem Decides.sameVerdict (h : Decides assertion P) (h' : Decides other P) :
    SameVerdict assertion other := fun file line s =>
  (h.returns_iff file line s).trans (h'.returns_iff file line s).symm

section Verdicts

variable {read : MaxWord → Int} (hread : Function.Injective read) (type : ElementType ι read)
  (format : MaxWord → CString) (line : Int) {values : List ι}

include hread

/-- A copying macro that is to pass on members. -/
theorem decides_in (hne : values ≠ []) :
    Decides (copyingMacro (assertSearch (valueInSetDisplayError format line) false) type.convert
      value values values.length) (Occurs type value values) := by
  refine (decides_copyingMacro value format line false type.convert hne).congr ?_
  rw [mem_map_convert_iff value hread]
  exact iff_true_right rfl

/-- A copying macro that is to pass on the others. -/
theorem decides_not_in (hne : values ≠ []) :
    Decides (copyingMacro (assertSearch (valueInSetDisplayError format line) true) type.convert
      value values values.length) (¬Occurs type value values) := by
  refine (decides_copyingMacro value format line true type.convert hne).congr ?_
  rw [mem_map_convert_iff value hread]
  exact iff_false_right Bool.noConfusion

end Verdicts

/-- A copying macro on an empty array returns, though nothing occurs there. -/
theorem not_decides_nil {read : MaxWord → Int} (type : ElementType ι read)
    (assertion : MaxWord → List MaxWord → Nat → CString → Int → CM Unit) :
    ¬Decides (copyingMacro assertion type.convert value [] 0) (Occurs type value []) := by
  intro h
  have hreturns := copyingMacro_nil value assertion type.convert [] 0 (Globals.initial .lp64)
  obtain ⟨x, hx, -⟩ := (h.returns_iff [] 0 _).mp ⟨_, hreturns⟩
  cases hx

/-- **The set assertions.**  All six decide membership if and only if no array is empty. -/
theorem set_assertions_decide_iff {υ : Type} (type : ElementType ι readIntmax)
    (utype : ElementType υ readUintmax) (value uvalue word : MaxWord) (values : List ι)
    (uvalues : List υ) (words : List MaxWord) :
    SetAssertionsDecide type utype value uvalue word values uvalues words ↔
      values ≠ [] ∧ uvalues ≠ [] ∧ words ≠ [] := by
  refine ⟨fun h => ⟨?_, ?_, ?_⟩, ?_⟩
  · rintro rfl
    exact not_decides_nil value type _ h.int_in
  · rintro rfl
    exact not_decides_nil uvalue utype _ h.uint_in
  · rintro rfl
    -- here the deprecated macro fails and its successor passes
    have hold := decides_assertSearch word fmtJu 1493 [] false
    have hnew := copyingMacro_nil word assertUintInSet uintmax.convert [] 0 (Globals.initial .lp64)
    have hmem := (hold.returns_iff [] 0 _).mp ((h.in_set [] 0 _).mpr ⟨_, hnew⟩)
    exact List.not_mem_nil (hmem.mpr rfl)
  · rintro ⟨hne, hune, hwords⟩
    have hinjective := readUintmax_injective
    have hold := decides_assertSearch word fmtJu 1493 words
    have hnew : ∀ invert, Decides
        (copyingMacro (assertSearch (valueInSetDisplayError fmtJu 1493) invert) uintmax.convert word
          words words.length) (word ∈ words ↔ invert = false) := by
      intro invert
      have hcopy := decides_copyingMacro word fmtJu 1493 invert uintmax.convert hwords
      rwa [show words.map uintmax.convert = words from List.map_id words] at hcopy
    exact
      { int_in := decides_in value readIntmax_injective type fmtJd 1452 hne
        int_not_in := decides_not_in value readIntmax_injective type fmtJd 1452 hne
        uint_in := decides_in uvalue hinjective utype fmtJu 1493 hune
        uint_not_in := decides_not_in uvalue hinjective utype fmtJu 1493 hune
        in_set := (hold false).sameVerdict (hnew false)
        not_in_set := (hold true).sameVerdict (hnew true) }

/-- Nothing is in an empty array; `assert_int_in_set` passes there, and `assert_in_set` does not. -/
theorem empty_set_passes :
    assertIntInSetMacro int8.convert 1 [] 0 "test.c".toList 7 (Globals.initial .lp64) =
        .ok () (Globals.initial .lp64) ∧
      ¬Occurs int8 1 [] ∧
      ∀ s', assertInSetMacro 1 [] 0 "test.c".toList 7 (Globals.initial .lp64) ≠ .ok () s' := by
  refine ⟨rfl, ?_, ?_⟩
  · rintro ⟨x, hx, -⟩
    cases hx
  · intro s' hs'
    have hold := decides_assertSearch 1 fmtJu 1493 [] false
    exact List.not_mem_nil (((hold.returns_iff _ _ _).mp ⟨s', hs'⟩).mpr rfl)

end Cmocka
