import Cmocka.Support.Replacing

/-!
# Support — escaping by a table

A table gives some elements a longer writing each.  `encode` writes all elements of a text in one pass
from left to right, `decode` reads the writings back in one pass.

* A pass for each entry, one after the other, is `encode` if no writing contains an element with a
  later entry (`encode_eq_foldl`).
* If all writings begin with the same element, which has an entry itself, and none is the beginning of
  another, then reading undoes writing (`decode_encode`).
-/

namespace Escaping

open Replacing

variable {α : Type} [DecidableEq α] {table : List (α × List α)} {e : α × List α} {s : List α}

/-- The writing of one element. -/
def encodeOne : (table : List (α × List α)) → α → List α
  | [], x => [x]
  | e :: table, x => if x = e.1 then e.2 else encodeOne table x

/-- The writing of a text. -/
def encode (table : List (α × List α)) (s : List α) : List α := s.flatMap (encodeOne table)

/-- Reading, after the next `skip` elements. -/
def decodeFrom (table : List (α × List α)) : (skip : Nat) → List α → List α
  | _, [] => []
  | skip + 1, _ :: s => decodeFrom table skip s
  | 0, c :: s =>
      match table.find? fun e => e.2.isPrefixOf (c :: s) with
      | some e => e.1 :: decodeFrom table (e.2.length - 1) s
      | none => c :: decodeFrom table 0 s

/-- The text that was written. -/
def decode (table : List (α × List α)) (s : List α) : List α := decodeFrom table 0 s

/-! ### One pass or many -/

theorem encodeOne_of_not_mem {x : α} (h : ∀ e ∈ table, e.1 ≠ x) : encodeOne table x = [x] := by
  induction table with
  | nil => rfl
  | cons e table ih =>
      rw [List.forall_mem_cons] at h
      rw [encodeOne, if_neg (fun hx => h.1 hx.symm), ih h.2]

theorem encodeOne_of_mem {x : α} (h : ∃ e ∈ table, e.1 = x) : (x, encodeOne table x) ∈ table := by
  induction table with
  | nil =>
      obtain ⟨e, he, -⟩ := h
      cases he
  | cons e table ih =>
      rw [encodeOne]
      split
      next hx =>
        subst hx
        exact List.mem_cons_self
      next hx =>
        obtain ⟨e', he', rfl⟩ := h
        rcases List.mem_cons.mp he' with rfl | he'
        · exact absurd rfl hx
        · exact List.mem_cons_of_mem _ (ih ⟨e', he', rfl⟩)

/-- A text without entries is its own writing. -/
theorem encode_eq_self (h : ∀ e ∈ table, e.1 ∉ s) : encode table s = s := by
  induction s with
  | nil => rfl
  | cons x s ih =>
      have hx : encodeOne table x = [x] := by
        refine encodeOne_of_not_mem ?_
        rintro e he rfl
        exact h e he List.mem_cons_self
      have hs := ih fun e he hmem => h e he (List.mem_cons_of_mem _ hmem)
      rw [encode, List.flatMap_cons, hx, ← encode, hs]
      rfl

/-- The first pass is a substitution if no later pass replaces what it put in. -/
theorem encode_cons (hlater : ∀ e' ∈ table, e'.1 ∉ e.2) (s : List α) :
    encode (e :: table) s = encode table (substitute e.1 e.2 s) := by
  rw [encode, encode, substitute, List.flatMap_assoc]
  congr 1
  funext x
  rw [encodeOne]
  split
  next hx => exact (encode_eq_self hlater).symm
  next hx => rw [List.flatMap_cons, List.flatMap_nil, List.append_nil]

/-- **A pass for each entry.** -/
theorem encode_eq_foldl (h : table.Pairwise fun e e' => e'.1 ∉ e.2) (s : List α) :
    encode table s = table.foldl (fun s e => substitute e.1 e.2 s) s := by
  induction table generalizing s with
  | nil => exact encode_eq_self fun e he => by cases he
  | cons e table ih =>
      rw [List.pairwise_cons] at h
      rw [encode_cons h.1, ih h.2, List.foldl_cons]

/-! ### Reading back -/

/-- Skipping is dropping. -/
theorem decodeFrom_skip (table : List (α × List α)) (skip : Nat) (s : List α) :
    decodeFrom table skip s = decode table (s.drop skip) := by
  induction skip generalizing s with
  | zero => rfl
  | succ skip ih =>
      cases s with
      | nil => rfl
      | cons c s => exact ih s

/-- A table whose writings can be told from each other and from everything else. -/
structure Readable (table : List (α × List α)) (mark : α) : Prop where
  marked : ∀ e ∈ table, e.2.head? = some mark
  hasMark : ∃ e ∈ table, e.1 = mark
  apart : ∀ e ∈ table, ∀ e' ∈ table, e.2 <+: e'.2 → e = e'

variable {mark : α}

/-- A reference is read as its character. -/
theorem decode_entry (h : Readable table mark) (he : e ∈ table) (s : List α) :
    decode table (e.2 ++ s) = e.1 :: decode table s := by
  have hmark := h.marked e he
  cases hwriting : e.2 with
  | nil =>
      rw [hwriting] at hmark
      cases hmark
  | cons c cs =>
      have hfind : table.find? (fun e' => e'.2.isPrefixOf (c :: (cs ++ s))) = some e := by
        have hself : e.2.isPrefixOf (c :: (cs ++ s)) = true := by
          rw [List.isPrefixOf_iff_prefix, hwriting]
          exact List.prefix_append (c :: cs) s
        cases he' : table.find? (fun e' => e'.2.isPrefixOf (c :: (cs ++ s))) with
        | none =>
            rw [List.find?_eq_none] at he'
            exact absurd hself (he' e he)
        | some e' =>
            -- both are beginnings of the text, so one is the beginning of the other
            have hmem := List.mem_of_find?_eq_some he'
            have hbegins := List.find?_some he'
            have hpre := List.isPrefixOf_iff_prefix.mp hbegins
            rcases List.prefix_or_prefix_of_prefix hpre (List.isPrefixOf_iff_prefix.mp hself) with
              hle | hle
            · rw [h.apart e' hmem e he hle]
            · rw [h.apart e he e' hmem hle]
      rw [List.cons_append, decode, decodeFrom, hfind]
      simp only [hwriting, List.length_cons, Nat.add_sub_cancel]
      rw [decodeFrom_skip, List.drop_left]

/-- Other characters are read as they are. -/
theorem decode_other (h : Readable table mark) {x : α} (hx : ∀ e ∈ table, e.1 ≠ x) (s : List α) :
    decode table (x :: s) = x :: decode table s := by
  have hfind : (table.find? fun e => e.2.isPrefixOf (x :: s)) = none := by
    rw [List.find?_eq_none]
    intro e he hpre
    have hmark := h.marked e he
    obtain ⟨e', he', hkey⟩ := h.hasMark
    cases hwriting : e.2 with
    | nil =>
        rw [hwriting] at hmark
        cases hmark
    | cons c cs =>
        rw [hwriting] at hmark hpre
        cases hmark
        obtain ⟨rfl, -⟩ := List.cons_prefix_cons.mp (List.isPrefixOf_iff_prefix.mp hpre)
        exact hx e' he' hkey
  rw [decode, decodeFrom, hfind]
  rfl

/-- **Reading undoes writing.** -/
theorem decode_encode (h : Readable table mark) (s : List α) : decode table (encode table s) = s := by
  induction s with
  | nil => rfl
  | cons x s ih =>
      rw [encode, List.flatMap_cons, ← encode]
      by_cases hx : ∃ e ∈ table, e.1 = x
      · have hentry := decode_entry h (encodeOne_of_mem hx) (encode table s)
        rw [hentry, ih]
      · push Not at hx
        rw [encodeOne_of_not_mem hx, List.singleton_append, decode_other h hx, ih]

end Escaping
