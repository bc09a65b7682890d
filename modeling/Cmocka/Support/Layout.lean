import Mathlib.Algebra.Group.Nat.Defs
import Mathlib.Data.Set.Lattice
import Mathlib.Order.CompletePartialOrder
import Mathlib.Data.List.Basic
import Mathlib.Order.Interval.Set.Disjoint

/-!
# Support — layouts

A list of points in order cuts the interval from the first to the last into pieces, each beginning
where the one before it ends (`pieces`).  The pieces are disjoint and inside.

In a word of `w` bits, clearing the low `k` bits rounds down to a multiple of `2 ^ k`
(`toNat_and_not_mask`).
-/

namespace Layout

variable {α : Type} [Preorder α] {a b : α} {l : List α} {s : Set α}

/-- The intervals between neighbours of a list of points. -/
def pieces : List α → List (Set α)
  | a :: b :: l => Set.Ico a b :: pieces (b :: l)
  | _ => []

/-- Every piece lies after the first point and before the last. -/
theorem subset_of_mem_pieces (h : (a :: l).Pairwise (· ≤ ·)) (hs : s ∈ pieces (a :: l)) :
    s ⊆ Set.Ico a (l.getLastD a) := by
  induction l generalizing a with
  | nil => cases hs
  | cons b l ih =>
      obtain ⟨ha, hb⟩ := List.pairwise_cons.mp h
      have hab : a ≤ b := ha b List.mem_cons_self
      have hlast : b ≤ l.getLastD b := by
        rcases List.eq_nil_or_concat' l with rfl | ⟨l, c, rfl⟩
        · exact le_refl b
        · rw [List.getLastD_concat]
          exact (List.pairwise_cons.mp hb).1 c (by simp)
      rw [List.getLastD_cons]
      rcases List.mem_cons.mp hs with rfl | hs
      · exact Set.Ico_subset_Ico_right hlast
      · exact (ih hb hs).trans (Set.Ico_subset_Ico_left hab)

/-- The pieces are disjoint. -/
theorem pairwise_disjoint_pieces (h : l.Pairwise (· ≤ ·)) : (pieces l).Pairwise Disjoint := by
  induction l with
  | nil => exact .nil
  | cons a l ih =>
      cases l with
      | nil => exact .nil
      | cons b l =>
          obtain ⟨-, hb⟩ := List.pairwise_cons.mp h
          refine .cons (fun s hs => ?_) (ih hb)
          exact Set.disjoint_of_subset_right (subset_of_mem_pieces hb hs) Set.Ico_disjoint_Ico_same

variable {w : Nat}

/-- The bits under a mask and the other bits add up to the word. -/
theorem toNat_and_add_toNat_and_not (x m : BitVec w) :
    (x &&& m).toNat + (x &&& ~~~m).toNat = x.toNat := by
  have hdisjoint : (x &&& m) &&& (x &&& ~~~m) = 0#w := by
    ext i hi
    cases hm : m[i] <;> simp [hm]
  have hjoin : (x &&& m) ||| (x &&& ~~~m) = x := by
    ext i hi
    cases hm : m[i] <;> simp [hm]
  rw [← BitVec.toNat_add_of_and_eq_zero hdisjoint, BitVec.add_eq_or_of_and_eq_zero _ _ hdisjoint,
    hjoin]

/-- Clearing the low bits of a word rounds it down. -/
theorem toNat_and_not_mask {k : Nat} (hk : k ≤ w) (x : BitVec w) :
    (x &&& ~~~(BitVec.ofNat w (2 ^ k - 1))).toNat = x.toNat - x.toNat % 2 ^ k := by
  have hmask : 2 ^ k - 1 < 2 ^ w := by
    have hpos := Nat.two_pow_pos k
    have hle := Nat.pow_le_pow_right (n := 2) (by decide) hk
    omega
  have hlow : (x &&& BitVec.ofNat w (2 ^ k - 1)).toNat = x.toNat % 2 ^ k := by
    rw [BitVec.toNat_and, BitVec.toNat_ofNat, Nat.mod_eq_of_lt hmask,
      Nat.and_two_pow_sub_one_eq_mod]
  have hsum := toNat_and_add_toNat_and_not x (BitVec.ofNat w (2 ^ k - 1))
  omega

end Layout
