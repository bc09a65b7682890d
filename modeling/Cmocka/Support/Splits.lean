import Mathlib.Data.List.Induction

/-!
# Support — the points of a run

A run is a list, and a point of it a way to write the list as what came before, an element, and what
comes after.  The points of a run with one more step are the points of the run and the new one.
-/

namespace Splits

variable {α : Type} {l l' before after : List α} {x y : α}

/-- A point of a run in two parts is in the one or in the other. -/
theorem append_eq_split :
    l ++ l' = before ++ x :: after ↔
      (∃ mid, l = before ++ x :: mid ∧ after = mid ++ l') ∨
        ∃ mid, before = l ++ mid ∧ l' = mid ++ x :: after := by
  constructor
  · intro h
    rcases List.append_eq_append_iff.mp h with ⟨mid, rfl, hmid⟩ | ⟨mid, rfl, hmid⟩
    · exact .inr ⟨mid, rfl, hmid⟩
    · cases mid with
      | nil => exact .inr ⟨[], by simp, hmid.symm⟩
      | cons y mid =>
          obtain ⟨rfl, rfl⟩ := List.cons.inj hmid
          exact .inl ⟨mid, rfl, rfl⟩
  · rintro (⟨mid, rfl, rfl⟩ | ⟨mid, rfl, rfl⟩)
    · simp
    · simp

/-- The new point is the last one. -/
theorem concat_eq_split :
    l ++ [x] = before ++ y :: after ↔
      (∃ mid, l = before ++ y :: mid ∧ after = mid ++ [x]) ∨ (before = l ∧ y = x ∧ after = []) := by
  rw [append_eq_split]
  refine or_congr_right ?_
  constructor
  · rintro ⟨mid, rfl, hmid⟩
    cases mid with
    | nil =>
        cases hmid
        exact ⟨by simp, rfl, rfl⟩
    | cons z mid => simp at hmid
  · rintro ⟨rfl, rfl, rfl⟩
    exact ⟨[], by simp, rfl⟩

/-- What holds at every point of the longer run. -/
theorem forall_concat {P : List α → α → Prop} :
    (∀ before y after, l ++ [x] = before ++ y :: after → P before y) ↔
      (∀ before y after, l = before ++ y :: after → P before y) ∧ P l x := by
  constructor
  · intro h
    refine ⟨fun before y after hl => h before y (after ++ [x]) ?_, h l x [] rfl⟩
    rw [hl]
    simp
  · rintro ⟨hold, hnew⟩ before y after heq
    rcases concat_eq_split.mp heq with ⟨mid, hl, -⟩ | ⟨rfl, rfl, -⟩
    · exact hold before y mid hl
    · exact hnew

/-- What holds at some point of the longer run. -/
theorem exists_concat {P : List α → α → Prop} :
    (∃ before y after, l ++ [x] = before ++ y :: after ∧ P before y) ↔
      (∃ before y after, l = before ++ y :: after ∧ P before y) ∨ P l x := by
  constructor
  · rintro ⟨before, y, after, heq, hP⟩
    rcases concat_eq_split.mp heq with ⟨mid, hl, -⟩ | ⟨rfl, rfl, -⟩
    · exact .inl ⟨before, y, mid, hl, hP⟩
    · exact .inr hP
  · rintro (⟨before, y, after, rfl, hP⟩ | hP)
    · exact ⟨before, y, after ++ [x], by simp, hP⟩
    · exact ⟨l, x, [], rfl, hP⟩

end Splits
