import Mathlib.Computability.Language

/-!
# Support — glob patterns as languages

A glob pattern over an alphabet is a sequence of items: a letter, one arbitrary letter, or any
number of letters.  It denotes the product of the languages of its items, so a word matches when it
can be split into one piece for each item.
-/

namespace Glob

variable {α : Type*}

/-- One item of a pattern. -/
inductive Item (α : Type*) where
  | many
  | any
  | lit (a : α)

/-- The pieces an item matches. -/
def Item.lang : Item α → Language α
  | .many => {_w | True}
  | .any => {w | ∃ a, w = [a]}
  | .lit a => {w | w = [a]}

/-- The words a pattern matches. -/
def lang (pattern : List (Item α)) : Language α := (pattern.map Item.lang).prod

@[simp] theorem mem_lang_nil {w : List α} : w ∈ lang ([] : List (Item α)) ↔ w = [] :=
  Language.mem_one w

/-- The language of two patterns, one behind the other. -/
theorem lang_append (p q : List (Item α)) : lang (p ++ q) = lang p * lang q := by
  rw [lang, List.map_append, List.prod_append]
  rfl

/-- A word of a pattern begins with one of its first item. -/
theorem mem_lang_cons {i : Item α} {p : List (Item α)} {w : List α} :
    w ∈ lang (i :: p) ↔ ∃ a ∈ i.lang, ∃ b ∈ lang p, a ++ b = w := by
  rw [lang, List.map_cons, List.prod_cons, Language.mem_mul]
  rfl

theorem mem_lang_append {p q : List (Item α)} {w : List α} :
    w ∈ lang (p ++ q) ↔ ∃ a ∈ lang p, ∃ b ∈ lang q, a ++ b = w := by
  rw [lang_append, Language.mem_mul]

/-- Any number of letters first: the rest matches a suffix. -/
@[simp] theorem mem_lang_many {p : List (Item α)} {w : List α} :
    w ∈ lang (.many :: p) ↔ ∃ v, v <:+ w ∧ v ∈ lang p := by
  rw [mem_lang_cons]
  constructor
  · rintro ⟨u, -, v, hv, rfl⟩
    exact ⟨v, List.suffix_append u v, hv⟩
  · rintro ⟨v, ⟨u, rfl⟩, hv⟩
    exact ⟨u, trivial, v, hv, rfl⟩

@[simp] theorem nil_mem_lang_any {p : List (Item α)} : [] ∉ lang (.any :: p) := by
  rw [mem_lang_cons]
  rintro ⟨-, ⟨a, rfl⟩, v, -, hw⟩
  cases hw

/-- Any character, and then the rest. -/
@[simp] theorem cons_mem_lang_any {p : List (Item α)} {a : α} {w : List α} :
    a :: w ∈ lang (.any :: p) ↔ w ∈ lang p := by
  rw [mem_lang_cons]
  constructor
  · rintro ⟨-, ⟨b, rfl⟩, v, hv, hw⟩
    obtain ⟨rfl, rfl⟩ := List.cons.inj hw
    exact hv
  · intro hw
    exact ⟨[a], ⟨a, rfl⟩, w, hw, rfl⟩

@[simp] theorem nil_mem_lang_lit {p : List (Item α)} {a : α} : [] ∉ lang (.lit a :: p) := by
  rw [mem_lang_cons]
  rintro ⟨-, rfl, v, -, hw⟩
  cases hw

/-- The character itself, and then the rest. -/
@[simp] theorem cons_mem_lang_lit {p : List (Item α)} {a b : α} {w : List α} :
    b :: w ∈ lang (.lit a :: p) ↔ b = a ∧ w ∈ lang p := by
  rw [mem_lang_cons]
  constructor
  · rintro ⟨-, rfl, v, hv, hw⟩
    obtain ⟨rfl, rfl⟩ := List.cons.inj hw
    exact ⟨rfl, hv⟩
  · rintro ⟨rfl, hw⟩
    exact ⟨[b], rfl, w, hw, rfl⟩

/-- A run of items for any number of letters matches everything. -/
theorem mem_lang_replicate_many (n : Nat) (w : List α) :
    w ∈ lang (List.replicate (n + 1) (.many : Item α)) := by
  induction n with
  | zero => exact mem_lang_many.mpr ⟨[], List.nil_suffix, mem_lang_nil.mpr rfl⟩
  | succ n ih =>
      rw [List.replicate_succ, mem_lang_many]
      exact ⟨w, List.suffix_refl w, ih⟩

/-- A pattern followed by any letters: a prefix matches it. -/
theorem mem_lang_append_replicate {p : List (Item α)} {n : Nat} {w : List α} :
    w ∈ lang (p ++ List.replicate (n + 1) .many) ↔ ∃ u, u <+: w ∧ u ∈ lang p := by
  rw [mem_lang_append]
  constructor
  · rintro ⟨u, hu, v, -, rfl⟩
    exact ⟨u, List.prefix_append u v, hu⟩
  · rintro ⟨u, ⟨v, rfl⟩, hu⟩
    exact ⟨u, hu, v, mem_lang_replicate_many n v, rfl⟩

/-- A pattern followed by at least one letter: a proper prefix matches it. -/
theorem mem_lang_append_any_many {p : List (Item α)} {w : List α} :
    w ∈ lang (p ++ [.any, .many]) ↔ ∃ u, u <+: w ∧ u ≠ w ∧ u ∈ lang p := by
  rw [mem_lang_append]
  constructor
  · rintro ⟨u, hu, v, hv, rfl⟩
    refine ⟨u, List.prefix_append u v, fun heq => ?_, hu⟩
    obtain rfl : v = [] := by simpa using heq
    exact nil_mem_lang_any hv
  · rintro ⟨u, ⟨v, rfl⟩, hne, hu⟩
    cases v with
    | nil => exact absurd (List.append_nil u).symm hne
    | cons a v =>
        exact ⟨u, hu, a :: v, cons_mem_lang_any.mpr (mem_lang_replicate_many 0 v), rfl⟩

end Glob
