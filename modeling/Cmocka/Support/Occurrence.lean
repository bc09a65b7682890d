import Mathlib.Data.List.Basic

/-!
# Support — where a text can occur

An occurrence of `d` in a concatenation lies in one of the parts or across a border.  A border is
crossed only by a text that has the characters on both sides of it: an occurrence never covers a
character that is not in `d` (`infix_append_cons`), never begins in a part without its first
character (`infix_of_append_left`), never ends in one without its last (`infix_of_append_right`),
and does not go on after its last character, when that occurs in it only once (`infix_append_last`).
A beginning goes no further than the first character that is not in it (`isPrefix_takeWhile_iff`).
-/

namespace Occurrence

variable {α : Type} {a b d s x y : List α} {c : α}

/-- A character that is not in the text separates its occurrences. -/
theorem infix_append_cons (hc : c ∉ d) (h : d <:+: a ++ c :: b) : d <:+: a ∨ d <:+: b := by
  rcases List.infix_append_iff_ne_nil.mp h with h | h | ⟨d₁, d₂, -, hne, rfl, -, hpre⟩
  · exact .inl h
  · rcases List.infix_cons_iff.mp h with hpre | h
    · cases d with
      | nil => exact .inl List.nil_infix
      | cons e d =>
          obtain ⟨rfl, -⟩ := List.cons_prefix_cons.mp hpre
          exact absurd List.mem_cons_self hc
    · exact .inr h
  · cases d₂ with
    | nil => exact absurd rfl hne
    | cons e d₂ =>
        obtain ⟨rfl, -⟩ := List.cons_prefix_cons.mp hpre
        exact absurd (List.mem_append_right _ List.mem_cons_self) hc

/-- A text does not begin where its first character is missing. -/
theorem infix_of_append_left (hc : c ∉ s) (h : c :: d <:+: s ++ a) : c :: d <:+: a := by
  rcases List.infix_append_iff_ne_nil.mp h with h | h | ⟨d₁, d₂, hne, -, heq, hsuf, -⟩
  · exact absurd (h.subset List.mem_cons_self) hc
  · exact h
  · cases d₁ with
    | nil => exact absurd rfl hne
    | cons e d₁ =>
        obtain ⟨rfl, -⟩ := List.cons.inj heq
        exact absurd (hsuf.subset List.mem_cons_self) hc

/-- A text does not end where its last character is missing. -/
theorem infix_of_append_right (hc : c ∉ s) (h : d ++ [c] <:+: a ++ s) : d ++ [c] <:+: a := by
  rcases List.infix_append_iff_ne_nil.mp h with h | h | ⟨d₁, d₂, -, hne, heq, -, hpre⟩
  · exact h
  · exact absurd (h.subset (by simp)) hc
  · have hlast : c ∈ d₂ := by
      have h₁ := congrArg List.getLast? heq
      rw [List.getLast?_concat, List.getLast?_append_of_ne_nil _ hne] at h₁
      exact List.mem_of_getLast? h₁.symm
    exact absurd (hpre.subset hlast) hc

/-- A text whose last character is nowhere else in it does not go on after that character. -/
theorem infix_append_last (hc : c ∉ d) (h : d ++ [c] <:+: (x ++ [c]) ++ y) :
    d ++ [c] <:+: x ++ [c] ∨ d ++ [c] <:+: y := by
  rcases List.infix_append_iff_ne_nil.mp h with h | h | ⟨d₁, d₂, hne₁, hne₂, heq, hsuf, -⟩
  · exact .inl h
  · exact .inr h
  · have hc₁ : c ∈ d₁ := by
      obtain ⟨t, ht⟩ := hsuf
      have h₁ := congrArg List.getLast? ht
      rw [List.getLast?_concat, List.getLast?_append_of_ne_nil _ hne₁] at h₁
      exact List.mem_of_getLast? h₁
    -- the second part is not empty, so the first lies before the last character
    have hpre : d₁ <+: d := by
      have hdrop := congrArg List.dropLast heq
      rw [List.dropLast_concat, List.dropLast_append_of_ne_nil hne₂] at hdrop
      exact ⟨_, hdrop.symm⟩
    exact absurd (hpre.subset hc₁) hc

/-- A beginning of certain elements is found among those the text begins with. -/
theorem isPrefix_takeWhile_iff {q : α → Bool} {d : List α} (hd : ∀ x ∈ d, q x = true)
    (s : List α) : d <+: s.takeWhile q ↔ d <+: s := by
  induction d generalizing s with
  | nil => exact iff_of_true List.nil_prefix List.nil_prefix
  | cons c d ih =>
      rw [List.forall_mem_cons] at hd
      cases s with
      | nil => rfl
      | cons x s =>
          rw [List.cons_prefix_cons]
          by_cases hx : q x = true
          · rw [List.takeWhile_cons_of_pos hx, List.cons_prefix_cons, ih hd.2]
          · rw [List.takeWhile_cons_of_neg hx]
            refine iff_of_false (by simp) ?_
            rintro ⟨rfl, -⟩
            exact hx hd.1

end Occurrence
