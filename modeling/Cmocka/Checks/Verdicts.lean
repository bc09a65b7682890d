import Cmocka.Model.Asserts
import Cmocka.Runner.Formats
import Cmocka.Expectations.Calls
import Cmocka.Expectations.SetAssertions
import Cmocka.Report.DataDiff

/-!
# Checks — what the assertions decide

`Assertion.Holds` is what an assertion is for, in terms of the values its arguments stand for:
signed and unsigned integers, strings, bytes, elements.  An assertion that holds returns and leaves
no trace; one that does not prints its error, says where it stands in each of the selected formats,
and leaves the test (`Assertion.exec_eq`).
-/

namespace Cmocka

open Runs

/-! ### What an assertion is for -/

/-- The relation an assertion asserts. -/
def Assertion.Holds : Assertion → Prop
  | .isTrue result _ => result ≠ 0
  | .isFalse result _ => result = 0
  | .returnCode _ result _ _ => 0 ≤ result.toInt
  | .intEqual a b => a.toInt = b.toInt
  | .intNotEqual a b => a.toInt ≠ b.toInt
  | .uintEqual a b => a.toNat = b.toNat
  | .uintNotEqual a b => a.toNat ≠ b.toNat
  | .ptrEqual a b _ => a = b
  | .ptrNotEqual a b _ => a ≠ b
  | .stringEqual a b => a = b
  | .stringNotEqual a b => a ≠ b
  | .memoryEqual size a b => ∀ i, (h : i < size) → a[i] = b[i]
  | .memoryNotEqual _ _ size a b => ¬∀ i, (h : i < size) → a[i] = b[i]
  | .intInRange value minimum maximum =>
      minimum.toInt ≤ value.toInt ∧ value.toInt ≤ maximum.toInt
  | .intNotInRange value minimum maximum =>
      ¬(minimum.toInt ≤ value.toInt ∧ value.toInt ≤ maximum.toInt)
  | .uintInRange value minimum maximum =>
      minimum.toNat ≤ value.toNat ∧ value.toNat ≤ maximum.toNat
  | .uintNotInRange value minimum maximum =>
      ¬(minimum.toNat ≤ value.toNat ∧ value.toNat ≤ maximum.toNat)
  | .intInSet value values => ∃ element ∈ values, element.toInt = value.toInt
  | .intNotInSet value values => ¬∃ element ∈ values, element.toInt = value.toInt
  | .uintInSet value values => ∃ element ∈ values, element.toNat = value.toNat
  | .uintNotInSet value values => ¬∃ element ∈ values, element.toNat = value.toNat
  | .notInSet value values => ¬∃ element ∈ values, element.toNat = value.toNat

instance (a : Assertion) : Decidable a.Holds :=
  match a with
  | .isTrue _ _ => inferInstanceAs (Decidable (_ ≠ _))
  | .isFalse _ _ => inferInstanceAs (Decidable (_ = _))
  | .returnCode _ _ _ _ => inferInstanceAs (Decidable (_ ≤ _))
  | .intEqual _ _ => inferInstanceAs (Decidable (_ = _))
  | .intNotEqual _ _ => inferInstanceAs (Decidable (_ ≠ _))
  | .uintEqual _ _ => inferInstanceAs (Decidable (_ = _))
  | .uintNotEqual _ _ => inferInstanceAs (Decidable (_ ≠ _))
  | .ptrEqual _ _ _ => inferInstanceAs (Decidable (_ = _))
  | .ptrNotEqual _ _ _ => inferInstanceAs (Decidable (_ ≠ _))
  | .stringEqual _ _ => inferInstanceAs (Decidable (_ = _))
  | .stringNotEqual _ _ => inferInstanceAs (Decidable (_ ≠ _))
  | .memoryEqual _ _ _ => inferInstanceAs (Decidable (∀ _, (_ : _) → _))
  | .memoryNotEqual _ _ _ _ _ => inferInstanceAs (Decidable (¬∀ _, (_ : _) → _))
  | .intInRange _ _ _ => inferInstanceAs (Decidable (_ ∧ _))
  | .intNotInRange _ _ _ => inferInstanceAs (Decidable (¬_))
  | .uintInRange _ _ _ => inferInstanceAs (Decidable (_ ∧ _))
  | .uintNotInRange _ _ _ => inferInstanceAs (Decidable (¬_))
  | .intInSet _ _ => inferInstanceAs (Decidable (∃ _ ∈ _, _))
  | .intNotInSet _ _ => inferInstanceAs (Decidable (¬∃ _ ∈ _, _))
  | .uintInSet _ _ => inferInstanceAs (Decidable (∃ _ ∈ _, _))
  | .uintNotInSet _ _ => inferInstanceAs (Decidable (¬∃ _ ∈ _, _))
  | .notInSet _ _ => inferInstanceAs (Decidable (¬∃ _ ∈ _, _))

/-- An area of memory that is compared byte by byte is smaller than the address space. -/
def Assertion.Fits (p : Platform) : Assertion → Prop
  | .memoryEqual size _ _ => size + 16 < p.sizeLimit
  | _ => True

/-! ### What an assertion prints -/

/-- What the comparison of an assertion prints, and its result. -/
def Assertion.displayed (p : Platform) : Assertion → Option Displayed
  | .isTrue result expression =>
      some (displayUnless (result != 0) (expression ++ " is not true\n".toList))
  | .isFalse result expression =>
      some (displayUnless (result == 0) (expression ++ " is not false\n".toList))
  | .returnCode strerror result error expression =>
      some (displayUnless (decide (0 ≤ result.toInt))
        (if error.toInt > 0 then
          expression ++ " < 0, errno(".toList ++ (toString error.toInt).toList ++ "): ".toList ++
            strerror error.toInt ++ "\n".toList
        else expression ++ " < 0\n".toList))
  | .intEqual a b => some (intValuesEqualDisplayError a b)
  | .intNotEqual a b => some (intValuesNotEqualDisplayError a b)
  | .uintEqual a b => some (uintValuesEqualDisplayError a b)
  | .uintNotEqual a b => some (uintValuesNotEqualDisplayError a b)
  | .ptrEqual a b _ => some (ptrValuesEqualDisplayError a b)
  | .ptrNotEqual a b _ => some (ptrValuesNotEqualDisplayError a b)
  | .stringEqual a b => some (stringEqualDisplayError a b)
  | .stringNotEqual a b => some (stringNotEqualDisplayError a b)
  | .memoryEqual _ a b => memoryEqualDisplayError p a.toList b.toList
  | .memoryNotEqual ptrA ptrB _ a b => some (memoryNotEqualDisplayError ptrA ptrB a.toList b.toList)
  | .intInRange value minimum maximum => some (intInRangeDisplayError value minimum maximum)
  | .intNotInRange value minimum maximum => some (intNotInRangeDisplayError value minimum maximum)
  | .uintInRange value minimum maximum => some (uintInRangeDisplayError value minimum maximum)
  | .uintNotInRange value minimum maximum => some (uintNotInRangeDisplayError value minimum maximum)
  | .intInSet value values => some (intValueInSetDisplayed value values false)
  | .intNotInSet value values => some (intValueInSetDisplayed value values true)
  | .uintInSet value values => some (uintValueInSetDisplayed value values false)
  | .uintNotInSet value values => some (uintValueInSetDisplayed value values true)
  | .notInSet value values => some (uintValueInSetDisplayed value values true)

/-- The message of the program's own, if the assertion takes one. -/
def Assertion.msg : Assertion → Option CString
  | .ptrEqual _ _ msg => msg
  | .ptrNotEqual _ _ msg => msg
  | _ => none

/-- The texts of `_additional_msg`. -/
def additionalTexts (output : BitVec 32) (msg : CString) : List CString :=
  (if hasOutput output cmOutputStandard then
    ["[          ] --- ".toList ++ msg ++ "\n".toList] else []) ++
  if hasOutput output cmOutputSubunit || hasOutput output cmOutputTap ||
      hasOutput output cmOutputXml then [msg ++ "\n".toList] else []

/-- What an assertion that does not hold prints before `_fail`. -/
def Assertion.error (p : Platform) (output : BitVec 32) (a : Assertion) : List CString :=
  (a.displayed p).elim [] Prod.fst ++ a.msg.elim [] (additionalTexts output)

theorem additionalMsg_apply (msg : CString) (s : Globals) :
    additionalMsg msg s = .ok () (s.asked.printed (additionalTexts s.output msg)) := by
  rw [additionalMsg, bind_of_ok (getOutput_apply s), additionalTexts]
  dsimp only
  split <;> split <;> rfl

/-! ### The shape of an assertion -/

section Shape

variable (d : Displayed) (file : CString) (line : Int) (s : Globals)

/-- A comparison, the message of the program's own, and `_fail`. -/
theorem assertPtrMsg_apply (msg : Option CString) :
    Asserts.assertPtrMsg d file line msg s =
      if d.2 then .ok () (s.printed d.1)
      else .error (s.exitOf .fail) (s.asked.printed
        (d.1 ++ msg.elim [] (additionalTexts s.output) ++ failureTexts s.output file line)) := by
  have hdisplays : displays d s = .ok d.2 (s.printed d.1) := rfl
  rw [Asserts.assertPtrMsg, bind_of_ok hdisplays]
  cases d.2 with
  | true => rfl
  | false =>
      cases msg with
      | none =>
          refine (fail_apply file line _).trans ?_
          simp only [printed_exitOf, printed_asked, printed_output, printed_append, Option.elim_none,
            List.append_nil, Bool.false_eq_true, if_false]
      | some msg =>
          -- the formats are asked for twice
          refine (bind_of_ok (additionalMsg_apply msg _) _).trans ?_
          refine (fail_apply file line _).trans ?_
          simp only [printed_exitOf, asked_exitOf, printed_asked, printed_output, asked_output,
            asked_asked, printed_append, Option.elim_some, Bool.false_eq_true, if_false]

/-- A condition that is tested before anything is printed. -/
theorem condition_apply {c : Prop} [Decidable c] {holds : Bool} (hc : c ↔ holds = false)
    (error : CString) :
    (if c then do
      cmockaPrintError error
      fail file line
    else return () : CM Unit) s =
      Asserts.assertPtrMsg (displayUnless holds error) file line none s := by
  cases holds with
  | true =>
      rw [if_neg (mt hc.mp Bool.noConfusion)]
      rfl
  | false =>
      rw [if_pos (hc.mpr rfl)]
      rfl

end Shape

/-! ### Sets -/

theorem searchSet_eq (value : MaxWord) (set : List MaxWord) (succeeded : Bool) :
    searchSet value set succeeded = if value ∈ set then !succeeded else succeeded := by
  induction set with
  | nil => rfl
  | cons element set ih =>
      rw [searchSet, ih]
      by_cases he : element = value
      · rw [if_pos he, if_pos (he ▸ List.mem_cons_self)]
      · simp only [List.mem_cons, Ne.symm he, false_or, if_neg he]

/-- The loop that prints the elements. -/
theorem printSetLoop_eq (format : MaxWord → CString) {size : Nat} (before rest : List MaxWord)
    (hsize : size = before.length + rest.length) (s : Globals) :
    printSetLoop format (before ++ rest) size rest.length before.length s =
      .ok () (s.printed (separated format rest)) := by
  induction rest generalizing before s with
  | nil => rfl
  | cons x rest ih =>
      have hget : (before ++ x :: rest)[before.length]? = some x := by simp
      rw [List.length_cons] at hsize
      have hlast : before.length = size - 1 ↔ rest = [] := by
        rw [← List.length_eq_zero_iff]
        omega
      have hrest := ih (before ++ [x])
        (by rw [hsize, List.length_append, List.length_singleton, Nat.add_assoc, Nat.add_comm 1])
        (s.printed [format x ++ if before.length = size - 1 then [] else ", ".toList])
      rw [List.append_assoc, List.singleton_append, List.length_append, List.length_singleton,
        printed_append] at hrest
      rw [List.length_cons, printSetLoop, hget]
      refine (bind_of_ok (cmockaPrintError_apply _ s) _).trans (hrest.trans ?_)
      cases rest with
      | nil =>
          rw [if_pos (hlast.mpr rfl), List.append_nil]
          rfl
      | cons y rest =>
          rw [if_neg (mt hlast.mp (List.cons_ne_nil y rest))]
          rfl

/-- A search function, on a whole array. -/
theorem valueInSetDisplayError_eq (format : MaxWord → CString) (line : Int) (value : MaxWord)
    (values : List MaxWord) (invert : Bool) :
    valueInSetDisplayError format line value (some ⟨values, values.length⟩) invert =
      displays (setDisplayError format (separated format) value values invert) := by
  funext s
  have hsearch := searchLoop_apply value [] values invert s
  rw [List.nil_append, List.length_nil, ← searchSet_eq] at hsearch
  refine (bind_of_ok hsearch _).trans ?_
  rw [setDisplayError]
  cases searchSet value values invert with
  | true => rfl
  | false =>
      have hprint := printSetLoop_eq format [] values (Nat.zero_add _).symm
        (s.printed [format value ++ " is ".toList ++ (if invert then [] else "not ".toList) ++
          "in the set (".toList])
      refine (bind_of_ok hprint _).trans ?_
      rw [printed_append]
      refine congrArg (EStateM.Result.ok false) ?_
      exact printed_append s _ [")\n".toList]

theorem assertSearch_eq (format : MaxWord → CString) (line' : Int) (value : MaxWord)
    (values : List MaxWord) (invert : Bool) (file : CString) (line : Int) :
    assertSearch (valueInSetDisplayError format line') invert value values values.length file line =
      Asserts.assertPtrMsg (setDisplayError format (separated format) value values invert) file line
        none := by
  rw [assertSearch, valueInSetDisplayError_eq]
  rfl

/-! ### Deciding -/

/-- A comparison that decides `P` and prints nothing when `P` holds. -/
structure Displayed.Decides (d : Displayed) (P : Prop) : Prop where
  result : d.2 = true ↔ P
  silent : d.2 = true → d.1 = []

theorem decides_displayUnless {holds : Bool} {P : Prop} (h : holds = true ↔ P) (error : CString) :
    (displayUnless holds error).Decides P := by
  cases holds with
  | true => exact ⟨h, fun _ => rfl⟩
  | false => exact ⟨h, fun hd => Bool.noConfusion hd⟩

/-- Membership, under any reading of the words that tells them apart. -/
theorem decides_setDisplayError {γ : Type} {read : MaxWord → γ}
    (hread : Function.Injective read) (format : MaxWord → CString)
    (elements : List MaxWord → List CString) (value : MaxWord) (values : List MaxWord) :
    (setDisplayError format elements value values false).Decides
        (∃ element ∈ values, read element = read value) ∧
      (setDisplayError format elements value values true).Decides
        (¬∃ element ∈ values, read element = read value) := by
  have hmem : (∃ element ∈ values, read element = read value) ↔ value ∈ values := by
    simp only [hread.eq_iff, exists_eq_right]
  rw [hmem]
  simp only [setDisplayError, searchSet_eq]
  by_cases h : value ∈ values
  · simp only [h, if_true, Bool.not_false, Bool.not_true, Bool.false_eq_true, if_false]
    exact ⟨⟨by simp, fun _ => rfl⟩, ⟨by simp, fun hd => Bool.noConfusion hd⟩⟩
  · simp only [h, if_true, if_false, Bool.false_eq_true]
    exact ⟨⟨by simp, fun hd => Bool.noConfusion hd⟩, ⟨by simp, fun _ => rfl⟩⟩

/-! ### Memory -/

/-- The loop counts to the end exactly if the areas are the same. -/
theorem sameLoop_eq_iff {a b : List (BitVec 8)} (hlen : a.length = b.length) (same : Nat) :
    sameLoop a b same ≤ same + a.length ∧ (sameLoop a b same = same + a.length ↔ a = b) := by
  induction a generalizing b same with
  | nil =>
      cases b with
      | nil => exact ⟨Nat.le_refl _, iff_of_true rfl rfl⟩
      | cons r b => cases hlen
  | cons l a ih =>
      cases b with
      | nil => cases hlen
      | cons r b =>
          have hlen' := Nat.succ.inj hlen
          rw [sameLoop, List.length_cons, List.cons.injEq]
          by_cases h : l = r
          · obtain ⟨hle, hiff⟩ := ih hlen' (same + 1)
            rw [if_pos h, ← Nat.add_assoc, Nat.add_right_comm]
            exact ⟨hle, hiff.trans (and_iff_right h).symm⟩
          · obtain ⟨hle, -⟩ := ih hlen' same
            rw [if_neg h]
            exact ⟨by omega, iff_of_false (by omega) fun hb => h hb.1⟩

theorem toList_eq_iff {size : Nat} {a b : Vector (BitVec 8) size} :
    a.toList = b.toList ↔ ∀ i, (h : i < size) → a[i] = b[i] :=
  Vector.toList_inj.trans Vector.ext_iff

/-- `memory_equal_display_error` compares the areas, which are small enough to be displayed. -/
theorem decides_memoryEqual {p : Platform} {size : Nat} (hsize : size + 16 < p.sizeLimit)
    (a b : Vector (BitVec 8) size) :
    ∃ d, memoryEqualDisplayError p a.toList b.toList = some d ∧
      d.Decides (∀ i, (h : i < size) → a[i] = b[i]) := by
  have hmemcmp : memcmpEqual a.toList b.toList a.toList.length = true ↔ a.toList = b.toList := by
    have htake : b.toList.take a.toList.length = b.toList :=
      List.take_of_length_le (by rw [Vector.length_toList, Vector.length_toList])
    rw [memcmpEqual, beq_iff_eq, List.take_length, htake]
  have hmax : max a.toList.length b.toList.length = size := by
    rw [Vector.length_toList, Vector.length_toList, Nat.max_self]
  rw [← toList_eq_iff, memoryEqualDisplayError]
  by_cases h : a.toList = b.toList
  · rw [if_pos (hmemcmp.mpr h)]
    exact ⟨_, rfl, iff_of_true rfl h, fun _ => rfl⟩
  · rw [if_neg (mt hmemcmp.mp h), printDataDiff_eq (by rw [hmax]; exact hsize)]
    exact ⟨_, rfl, iff_of_false Bool.noConfusion h, fun hd => Bool.noConfusion hd⟩

/-! ### The verdicts -/

/-- Every assertion is a comparison, the message of the program's own, and `_fail`. -/
theorem Assertion.exec_shape {a : Assertion} {d : Displayed} {s : Globals}
    (hd : a.displayed s.platform = some d) (file : CString) (line : Int) :
    a.exec file line s = Asserts.assertPtrMsg d file line a.msg s := by
  cases a with
  | memoryEqual _ a b =>
      refine (bind_of_ok (get_apply s) _).trans ?_
      simp only [displayed] at hd
      rw [hd]
      rfl
  | isTrue result expression =>
      cases hd
      exact condition_apply file line s (by simp) _
  | isFalse result expression =>
      cases hd
      exact condition_apply file line s (by simp) _
  | returnCode strerror result error expression =>
      cases hd
      refine Eq.trans ?_ (condition_apply file line s (c := result.toInt < 0) (by simp) _)
      rw [exec, Asserts.assertReturnCode]
      split
      · split <;> rfl
      · rfl
  | intInSet value values =>
      cases hd
      exact congrFun (assertSearch_eq fmtJd 1452 value values false file line) s
  | intNotInSet value values =>
      cases hd
      exact congrFun (assertSearch_eq fmtJd 1452 value values true file line) s
  | uintInSet value values =>
      cases hd
      exact congrFun (assertSearch_eq fmtJu 1493 value values false file line) s
  | uintNotInSet value values =>
      cases hd
      exact congrFun (assertSearch_eq fmtJu 1493 value values true file line) s
  | notInSet value values =>
      cases hd
      exact congrFun (assertSearch_eq fmtJu 1493 value values true file line) s
  | _ =>
      cases hd
      rfl

/-- The comparison of an assertion decides what the assertion is for. -/
theorem Assertion.decides {a : Assertion} {p : Platform} (hfits : a.Fits p) :
    ∃ d, a.displayed p = some d ∧ d.Decides a.Holds := by
  have hint : ∀ v w : MaxWord, v.toInt = w.toInt ↔ v = w := fun _ _ => BitVec.toInt_inj
  have huint : ∀ v w : MaxWord, v.toNat = w.toNat ↔ v = w := fun _ _ => BitVec.toNat_inj
  have hread : Function.Injective (BitVec.toNat : MaxWord → Nat) := fun v w => (huint v w).mp
  cases a with
  | isTrue result expression => exact ⟨_, rfl, decides_displayUnless bne_iff_ne _⟩
  | isFalse result expression => exact ⟨_, rfl, decides_displayUnless beq_iff_eq _⟩
  | returnCode strerror result error expression =>
      exact ⟨_, rfl, decides_displayUnless decide_eq_true_iff _⟩
  | intEqual a b => exact ⟨_, rfl, decides_displayUnless (beq_iff_eq.trans (hint a b).symm) _⟩
  | intNotEqual a b =>
      exact ⟨_, rfl, decides_displayUnless (bne_iff_ne.trans (hint a b).symm.not) _⟩
  | uintEqual a b => exact ⟨_, rfl, decides_displayUnless (beq_iff_eq.trans (huint a b).symm) _⟩
  | uintNotEqual a b =>
      exact ⟨_, rfl, decides_displayUnless (bne_iff_ne.trans (huint a b).symm.not) _⟩
  | ptrEqual a b msg => exact ⟨_, rfl, decides_displayUnless beq_iff_eq _⟩
  | ptrNotEqual a b msg => exact ⟨_, rfl, decides_displayUnless bne_iff_ne _⟩
  | stringEqual a b => exact ⟨_, rfl, decides_displayUnless beq_iff_eq _⟩
  | stringNotEqual a b => exact ⟨_, rfl, decides_displayUnless bne_iff_ne _⟩
  | memoryEqual _ a b => exact decides_memoryEqual hfits a b
  | memoryNotEqual ptrA ptrB _ a b =>
      have hlen : a.toList.length = b.toList.length := by
        rw [Vector.length_toList, Vector.length_toList]
      refine ⟨_, rfl, decides_displayUnless (bne_iff_ne.trans ?_) _⟩
      have hsame := (sameLoop_eq_iff hlen 0).2
      rw [Nat.zero_add] at hsame
      exact (hsame.trans toList_eq_iff).not
  | intInRange value minimum maximum =>
      refine ⟨_, rfl, decides_displayUnless ?_ _⟩
      rw [Bool.and_eq_true, BitVec.sle_iff_toInt_le, BitVec.sle_iff_toInt_le]
      rfl
  | intNotInRange value minimum maximum =>
      refine ⟨_, rfl, decides_displayUnless ?_ _⟩
      rw [Bool.or_eq_true, BitVec.slt_iff_toInt_lt, BitVec.slt_iff_toInt_lt, Holds, not_and_or,
        Int.not_le, Int.not_le]
  | uintInRange value minimum maximum =>
      refine ⟨_, rfl, decides_displayUnless ?_ _⟩
      rw [Bool.and_eq_true, BitVec.ule_iff_toNat_le, BitVec.ule_iff_toNat_le]
      rfl
  | uintNotInRange value minimum maximum =>
      refine ⟨_, rfl, decides_displayUnless ?_ _⟩
      rw [Bool.or_eq_true, BitVec.ult_iff_toNat_lt, BitVec.ult_iff_toNat_lt, Holds, not_and_or,
        Nat.not_le, Nat.not_le]
  | intInSet value values =>
      exact ⟨_, rfl, (decides_setDisplayError readIntmax_injective _ _ value values).1⟩
  | intNotInSet value values =>
      exact ⟨_, rfl, (decides_setDisplayError readIntmax_injective _ _ value values).2⟩
  | uintInSet value values =>
      exact ⟨_, rfl, (decides_setDisplayError hread _ _ value values).1⟩
  | uintNotInSet value values =>
      exact ⟨_, rfl, (decides_setDisplayError hread _ _ value values).2⟩
  | notInSet value values =>
      exact ⟨_, rfl, (decides_setDisplayError hread _ _ value values).2⟩

/-- **An assertion that holds returns and leaves no trace; one that does not prints its error and
leaves the test.** -/
theorem Assertion.exec_eq {a : Assertion} {s : Globals} (hfits : a.Fits s.platform) (file : CString)
    (line : Int) :
    a.exec file line s =
      if a.Holds then .ok () s
      else .error (s.exitOf .fail)
        (s.asked.printed (a.error s.platform s.output ++ failureTexts s.output file line)) := by
  obtain ⟨d, hd, hdecides⟩ := Assertion.decides hfits
  rw [exec_shape hd, assertPtrMsg_apply, error, hd, Option.elim_some]
  by_cases h : a.Holds
  · have hresult := hdecides.result.mpr h
    rw [if_pos h, if_pos hresult, hdecides.silent hresult]
    rfl
  · rw [if_neg h, if_neg (mt hdecides.result.mp h)]

end Cmocka
