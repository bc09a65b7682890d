import Mathlib.Data.List.Basic

/-!
# Support — writing over a part of a list

`patch buf i xs` is `buf` with `xs` written at `i`; `store` is the same write, checked against the
end of the buffer.  Both are read at a buffer that is given in parts (`patch_parts`, `store_parts`):
what the written part held does not matter, only its length.  `window buf i n` is what a read of `n`
elements at `i` gives.
-/

namespace Patch

variable {α : Type}

/-- `buf` with `xs` written at `i`. -/
def patch (buf : List α) (i : Nat) (xs : List α) : List α :=
  buf.take i ++ xs ++ buf.drop (i + xs.length)

/-- The write, if it stays inside the buffer. -/
def store (buf : List α) (i : Nat) (xs : List α) : Option (List α) :=
  if i + xs.length ≤ buf.length then some (patch buf i xs) else none

/-- The `n` elements at `i`. -/
def window (buf : List α) (i n : Nat) : List α := (buf.drop i).take n

theorem patch_nil (buf : List α) (i : Nat) : patch buf i [] = buf := by
  simp [patch]

/-- Patching replaces the part in the middle. -/
theorem patch_parts {before old after xs : List α} {i : Nat} (hi : i = before.length)
    (hold : old.length = xs.length) :
    patch (before ++ old ++ after) i xs = before ++ xs ++ after := by
  subst hi
  have hlen : before.length + xs.length = (before ++ old).length := by
    rw [List.length_append, hold]
  rw [patch, hlen, List.append_assoc before old after, List.take_left, ← List.append_assoc,
    List.drop_left]

/-- So does storing, and there is room for it. -/
theorem store_parts {before old after xs : List α} {i : Nat} (hi : i = before.length)
    (hold : old.length = xs.length) :
    store (before ++ old ++ after) i xs = some (before ++ xs ++ after) := by
  rw [store, patch_parts hi hold, if_pos]
  simp only [List.length_append]
  omega

/-- Writing at the border of two parts, over the beginning of the second. -/
theorem store_append {before after xs : List α} {i : Nat} (hi : i = before.length)
    (hlen : xs.length ≤ after.length) :
    store (before ++ after) i xs = some (before ++ xs ++ after.drop xs.length) := by
  have hafter : before ++ after = before ++ after.take xs.length ++ after.drop xs.length := by
    rw [List.append_assoc, List.take_append_drop]
  rw [hafter]
  exact store_parts hi (by rw [List.length_take]; omega)

/-- The window on the part in the middle. -/
theorem window_parts {before xs after : List α} {i n : Nat} (hi : i = before.length)
    (hn : n = xs.length) : window (before ++ xs ++ after) i n = xs := by
  subst hi hn
  rw [window, List.append_assoc, List.drop_left, List.take_left]

/-- An element of a window is one of the buffer. -/
theorem getElem?_window {buf : List α} {i j n : Nat} (hj : j < n) :
    (window buf i n)[j]? = buf[i + j]? := by
  rw [window, List.getElem?_take_of_lt hj, List.getElem?_drop]

end Patch
