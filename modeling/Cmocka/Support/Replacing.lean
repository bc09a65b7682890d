import Mathlib.Data.List.Basic

/-!
# Support — replacing the occurrences of a text

One scan from left to right meets the leftmost occurrences of `d` that do not overlap: after an
occurrence it goes on behind it.  `count` is their number, and `replaceFirst` replaces the first `i`
of them.  Both unfold at a first occurrence (`FirstOccurrence`): what comes before it is kept, what
comes after it is scanned again, and what a replacement brings in is not looked at.

For a text of one element, `count` is `List.count` and replacing all of them is a substitution
(`replaceFirst_singleton`).
-/

namespace Replacing

variable {α : Type} [DecidableEq α] {c : α} {a b d r s : List α} {i : Nat}

/-- The number of occurrences, after the next `skip` elements. -/
def countFrom (d : List α) : (skip : Nat) → List α → Nat
  | _, [] => 0
  | skip + 1, _ :: s => countFrom d skip s
  | 0, c :: s =>
      if d <+: c :: s then countFrom d (d.length - 1) s + 1 else countFrom d 0 s

/-- The number of leftmost occurrences that do not overlap. -/
def count (d s : List α) : Nat := countFrom d 0 s

/-- The first `i` occurrences replaced, after dropping the next `skip` elements. -/
def replaceFrom (d r : List α) : (i skip : Nat) → List α → List α
  | _, _, [] => []
  | i, skip + 1, _ :: s => replaceFrom d r i skip s
  | 0, 0, c :: s => c :: s
  | i + 1, 0, c :: s =>
      if d <+: c :: s then r ++ replaceFrom d r i (d.length - 1) s
      else c :: replaceFrom d r (i + 1) 0 s

/-- The first `i` of the occurrences replaced by `r`. -/
def replaceFirst (d r : List α) (i : Nat) (s : List α) : List α := replaceFrom d r i 0 s

/-- Skipping is dropping. -/
theorem countFrom_skip (d : List α) (skip : Nat) (s : List α) :
    countFrom d skip s = count d (s.drop skip) := by
  induction skip generalizing s with
  | zero => rfl
  | succ skip ih =>
      cases s with
      | nil => rfl
      | cons c s => exact ih s

theorem replaceFrom_skip (d r : List α) (i skip : Nat) (s : List α) :
    replaceFrom d r i skip s = replaceFirst d r i (s.drop skip) := by
  induction skip generalizing s with
  | zero => rfl
  | succ skip ih =>
      cases s with
      | nil => rfl
      | cons c s => exact ih s

/-- No replacement. -/
theorem replaceFirst_zero (d r s : List α) : replaceFirst d r 0 s = s := by
  cases s <;> rfl

theorem count_cons_of_not_isPrefix (h : ¬d <+: c :: s) : count d (c :: s) = count d s :=
  if_neg h

theorem replaceFirst_cons_of_not_isPrefix (h : ¬d <+: c :: s) :
    replaceFirst d r i (c :: s) = c :: replaceFirst d r i s := by
  cases i with
  | zero => rw [replaceFirst_zero, replaceFirst_zero]
  | succ i => exact if_neg h

/-- An occurrence at the front. -/
theorem count_append (hd : d ≠ []) (b : List α) : count d (d ++ b) = count d b + 1 := by
  cases d with
  | nil => exact absurd rfl hd
  | cons e d =>
      have hpre : e :: d <+: e :: (d ++ b) := List.prefix_append (e :: d) b
      rw [List.cons_append, count, countFrom, if_pos hpre, countFrom_skip, List.length_cons,
        Nat.add_sub_cancel, List.drop_left]

/-- The occurrence at the front is replaced. -/
theorem replaceFirst_append (hd : d ≠ []) (r : List α) (i : Nat) (b : List α) :
    replaceFirst d r (i + 1) (d ++ b) = r ++ replaceFirst d r i b := by
  cases d with
  | nil => exact absurd rfl hd
  | cons e d =>
      have hpre : e :: d <+: e :: (d ++ b) := List.prefix_append (e :: d) b
      rw [List.cons_append, replaceFirst, replaceFrom, if_pos hpre, replaceFrom_skip,
        List.length_cons, Nat.add_sub_cancel, List.drop_left]

/-! ### At the first occurrence -/

/-- `a` and `b` are what `s` has before and after its first occurrence of `d`. -/
inductive FirstOccurrence (d : List α) : (a b s : List α) → Prop
  | here (b : List α) : FirstOccurrence d [] b (d ++ b)
  | there {a b s : List α} (c : α) (hno : ¬d <+: c :: s) (h : FirstOccurrence d a b s) :
      FirstOccurrence d (c :: a) b (c :: s)

omit [DecidableEq α] in
/-- The list around its first occurrence. -/
theorem FirstOccurrence.eq (h : FirstOccurrence d a b s) : s = a ++ d ++ b := by
  induction h with
  | here b => rfl
  | there c _ _ ih => rw [ih]; rfl

/-- The occurrences after the first one. -/
theorem FirstOccurrence.count_eq (hd : d ≠ []) (h : FirstOccurrence d a b s) :
    count d s = count d b + 1 := by
  induction h with
  | here b => exact count_append hd b
  | there c hno _ ih => rw [count_cons_of_not_isPrefix hno, ih]

/-- The first occurrence is replaced, and the rest is gone on with behind it. -/
theorem FirstOccurrence.replaceFirst_eq (hd : d ≠ []) (r : List α) (i : Nat)
    (h : FirstOccurrence d a b s) :
    replaceFirst d r (i + 1) s = a ++ r ++ replaceFirst d r i b := by
  induction h with
  | here b => exact replaceFirst_append hd r i b
  | there c hno _ ih =>
      rw [replaceFirst_cons_of_not_isPrefix hno, ih]
      rfl

omit [DecidableEq α] in
/-- There is only one first occurrence. -/
theorem FirstOccurrence.unique {a' b' : List α} (h : FirstOccurrence d a b s)
    (h' : FirstOccurrence d a' b' s) : a = a' ∧ b = b' := by
  induction h generalizing a' with
  | here b =>
      generalize hs : d ++ b = s at h'
      cases h' with
      | here b' => exact ⟨rfl, List.append_cancel_left hs⟩
      | there c hno _ => exact absurd ⟨b, hs⟩ hno
  | there c hno _ ih =>
      generalize hs : c :: _ = s at h'
      cases h' with
      | here b' => exact absurd ⟨b', hs.symm⟩ hno
      | there c' _ h' =>
          obtain ⟨rfl, rfl⟩ := List.cons.inj hs
          obtain ⟨rfl, rfl⟩ := ih h'
          exact ⟨rfl, rfl⟩

omit [DecidableEq α] in
/-- A text is first found where it was put, unless it was there before.  It does not begin before
that place and end behind it, as its last element is nowhere else in it. -/
theorem firstOccurrence_append_iff (hc : c ∉ d) (a b : List α) :
    FirstOccurrence (d ++ [c]) a b (a ++ (d ++ [c]) ++ b) ↔ ¬d ++ [c] <:+: a := by
  constructor
  · intro h
    generalize hs : a ++ (d ++ [c]) ++ b = s at h
    induction h with
    | here b =>
        rw [List.infix_nil]
        simp
    | @there a b s x hno h ih =>
        obtain ⟨-, hs⟩ := List.cons.inj hs
        rw [List.infix_cons_iff, not_or]
        refine ⟨?_, ih hs⟩
        rintro ⟨t, ht⟩
        exact hno ⟨t ++ ((d ++ [c]) ++ b), by rw [← List.append_assoc, ht, ← hs]; simp⟩
  · intro h
    induction a with
    | nil => exact .here b
    | cons x a ih =>
        rw [List.infix_cons_iff, not_or] at h
        refine .there x ?_ (ih h.2)
        intro (hpre : d ++ [c] <+: x :: (a ++ (d ++ [c]) ++ b))
        rcases Nat.lt_or_ge a.length d.length with hshort | hlong
        · -- the part behind `x :: a` ends with the last element, and lies in `d`
          have hsum : x :: (a ++ (d ++ [c]) ++ b) = (x :: a) ++ ((d ++ [c]) ++ b) := by simp
          rw [hsum] at hpre
          obtain ⟨w, hw⟩ : x :: a <+: d ++ [c] := by
            refine List.prefix_of_prefix_length_le (List.prefix_append _ _) hpre ?_
            rw [List.length_append, List.length_singleton, List.length_cons]
            omega
          have hlen := congrArg List.length hw
          simp only [List.length_append, List.length_cons, List.length_nil] at hlen
          rw [← hw, List.prefix_append_right_inj, hw, List.append_assoc] at hpre
          have hwd : w <+: d :=
            List.prefix_of_prefix_length_le hpre (List.prefix_append _ _) (by omega)
          have hlast : c ∈ w := by
            have hne : w ≠ [] := by
              rintro rfl
              rw [List.length_nil] at hlen
              omega
            have h₁ := congrArg List.getLast? hw
            rw [List.getLast?_concat, List.getLast?_append_of_ne_nil _ hne] at h₁
            exact List.mem_of_getLast? h₁
          exact hc (hwd.subset hlast)
        · have hle : (d ++ [c]).length ≤ (x :: a).length := by
            rw [List.length_append, List.length_singleton, List.length_cons]
            omega
          refine h.1 (List.prefix_of_prefix_length_le hpre ?_ hle)
          exact ⟨d ++ [c] ++ b, by simp⟩

/-- No occurrence, none counted. -/
theorem count_eq_zero (h : ¬d <:+: s) : count d s = 0 := by
  induction s with
  | nil => rfl
  | cons c s ih =>
      rw [List.infix_cons_iff, not_or] at h
      rw [count_cons_of_not_isPrefix h.1, ih h.2]

/-! ### One element -/

/-- The occurrences of a pattern of one character. -/
theorem count_singleton (c : α) (s : List α) : count [c] s = s.count c := by
  induction s with
  | nil => rfl
  | cons x s ih =>
      by_cases hx : x = c
      · subst hx
        rw [List.count_cons_self, ← ih]
        exact count_append (List.cons_ne_nil _ _) s
      · have hno : ¬[c] <+: x :: s := by
          intro hpre
          exact hx (List.cons_prefix_cons.mp hpre).1.symm
        rw [count_cons_of_not_isPrefix hno, ih, List.count_cons_of_ne hx]

/-- `r` for every `c`. -/
def substitute (c : α) (r s : List α) : List α := s.flatMap fun x => if x = c then r else [x]

theorem substitute_cons_self (c : α) (r s : List α) :
    substitute c r (c :: s) = r ++ substitute c r s := by
  rw [substitute, List.flatMap_cons, if_pos rfl, ← substitute]

theorem substitute_cons_of_ne {x : α} (h : x ≠ c) (r s : List α) :
    substitute c r (x :: s) = x :: substitute c r s := by
  rw [substitute, List.flatMap_cons, if_neg h, ← substitute, List.singleton_append]

theorem substitute_append (c : α) (r s t : List α) :
    substitute c r (s ++ t) = substitute c r s ++ substitute c r t :=
  List.flatMap_append

/-- A list without the character stays as it is. -/
theorem substitute_eq_self (h : c ∉ s) : substitute c r s = s := by
  induction s with
  | nil => rfl
  | cons x s ih =>
      rw [List.mem_cons, not_or] at h
      rw [substitute_cons_of_ne (fun hx => h.1 hx.symm), ih h.2]

/-- Each occurrence grows by the length of the replacement but one. -/
theorem length_substitute (c : α) (hr : r ≠ []) (s : List α) :
    (substitute c r s).length = s.length + (r.length - 1) * s.count c := by
  have hpos := List.length_pos_iff.mpr hr
  induction s with
  | nil => rfl
  | cons x s ih =>
      by_cases hx : x = c
      · subst hx
        rw [substitute_cons_self, List.length_append, ih, List.count_cons_self, List.length_cons,
          Nat.mul_succ]
        omega
      · rw [substitute_cons_of_ne hx, List.length_cons, ih, List.count_cons_of_ne hx,
          List.length_cons]
        omega

/-- The other elements are as many as before, if the replacement has none. -/
theorem count_substitute_of_ne {x : α} (hx : x ≠ c) (hr : x ∉ r) (s : List α) :
    (substitute c r s).count x = s.count x := by
  induction s with
  | nil => rfl
  | cons y s ih =>
      by_cases hy : y = c
      · subst hy
        rw [substitute_cons_self, List.count_append, ih, List.count_eq_zero.mpr hr,
          List.count_cons_of_ne (Ne.symm hx), Nat.zero_add]
      · rw [substitute_cons_of_ne hy, List.count_cons, List.count_cons, ih]

/-- A replacement without the character leaves none of it. -/
theorem count_substitute_self (hr : c ∉ r) (s : List α) : (substitute c r s).count c = 0 := by
  induction s with
  | nil => rfl
  | cons y s ih =>
      by_cases hy : y = c
      · subst hy
        rw [substitute_cons_self, List.count_append, ih, List.count_eq_zero.mpr hr]
      · rw [substitute_cons_of_ne hy, List.count_cons_of_ne hy, ih]

/-- A beginning of elements without `c` is left alone, if the replacement does not go on with one. -/
theorem takeWhile_substitute {q : α → Bool} {y : α} (hc : q c = false) (hy : q y = false)
    (r u v : List α) : (substitute c (y :: r) u ++ v).takeWhile q = (u ++ v).takeWhile q := by
  induction u with
  | nil => rfl
  | cons x u ih =>
      by_cases hx : x = c
      · subst hx
        rw [substitute_cons_self, List.cons_append, List.cons_append, List.cons_append,
          List.takeWhile_cons_of_neg (by simp [hy]), List.takeWhile_cons_of_neg (by simp [hc])]
      · rw [substitute_cons_of_ne hx, List.cons_append, List.cons_append, List.takeWhile_cons,
          List.takeWhile_cons, ih]

/-- The first `i` elements equal to `c` are replaced, and what comes after them is as it was. -/
theorem replaceFirst_singleton (c : α) (r : List α) {i : Nat} {s : List α} (hi : i ≤ s.count c) :
    ∃ u v, s = u ++ v ∧ u.count c = i ∧ replaceFirst [c] r i s = substitute c r u ++ v := by
  induction s generalizing i with
  | nil =>
      rw [List.count_nil] at hi
      obtain rfl := Nat.le_zero.mp hi
      exact ⟨[], [], rfl, rfl, rfl⟩
  | cons x s ih =>
      cases i with
      | zero => exact ⟨[], x :: s, rfl, rfl, replaceFirst_zero _ _ _⟩
      | succ i =>
          by_cases hx : x = c
          · subst hx
            rw [List.count_cons_self] at hi
            obtain ⟨u, v, rfl, hcount, hreplace⟩ := ih (Nat.le_of_succ_le_succ hi)
            refine ⟨x :: u, v, rfl, by rw [List.count_cons_self, hcount], ?_⟩
            have happ := replaceFirst_append (List.cons_ne_nil x []) r i (u ++ v)
            rw [List.singleton_append] at happ
            rw [happ, hreplace, substitute_cons_self, List.append_assoc]
          · have hno : ¬[c] <+: x :: s := by
              intro hpre
              exact hx (List.cons_prefix_cons.mp hpre).1.symm
            rw [List.count_cons_of_ne hx] at hi
            obtain ⟨u, v, rfl, hcount, hreplace⟩ := ih hi
            refine ⟨x :: u, v, rfl, by rw [List.count_cons_of_ne hx, hcount], ?_⟩
            rw [replaceFirst_cons_of_not_isPrefix hno, hreplace, substitute_cons_of_ne hx,
              List.cons_append]

end Replacing
