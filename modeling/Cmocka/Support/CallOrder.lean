import Cmocka.Support.CountedQueue
import Mathlib.Computability.Language

/-!
# Support — the order of calls

A list of names with a count each says which calls may come in which order.  An entry with a count
of at least `-1` is an obligation: it has to be used up before a later one is reached, `-1` meaning
once, after which the name stays allowed.  An entry below `-1` only allows its name.  `charge` looks
for the entry a call belongs to, and stops at the first obligation.

`accepted_iff` gives the words such a list accepts in closed form: for each obligation as many
blocks as it asks for, each ending in its name after names allowed by earlier entries.
-/

namespace CallOrder

open CountedQueue

variable {α : Type*} {f g : α} {c : Int} {w : List α} {q before O R : List (α × Int)}

/-! ### The words of a list -/

/-- The words over a set of names. -/
def words (A : Set α) : Language α := {w | ∀ f ∈ w, f ∈ A}

/-- The names that stay allowed after the entries of the list. -/
def allowed (q : List (α × Int)) : Set α := {f | ∃ c ≤ -1, (f, c) ∈ q}

/-- How many calls an obligation asks for. -/
def times (c : Int) : ℕ := if c = -1 then 1 else c.toNat

/-- The words of the entries after `before`: for each obligation its number of blocks, then any
word over the names that are allowed at the end. -/
def inOrder (before : List (α × Int)) : List (α × Int) → Language α
  | [] => words (allowed before)
  | (f, c) :: q =>
      (if -1 ≤ c then (words (allowed before) * {[f]}) ^ times c else 1) *
        inOrder (before ++ [(f, c)]) q

/-- No obligation is for a name that an earlier entry allows. -/
def Unshadowed (before : List (α × Int)) : List (α × Int) → Prop
  | [] => True
  | (f, c) :: q => (-1 ≤ c → f ∉ allowed before) ∧ Unshadowed (before ++ [(f, c)]) q

@[simp] theorem nil_mem_words (A : Set α) : [] ∈ words A := nofun

@[simp] theorem cons_mem_words {A : Set α} : f :: w ∈ words A ↔ f ∈ A ∧ w ∈ words A :=
  List.forall_mem_cons

/-- The calls two queues allow. -/
theorem allowed_append (q q' : List (α × Int)) : allowed (q ++ q') = allowed q ∪ allowed q' := by
  ext f
  simp only [allowed, List.mem_append, Set.mem_ofPred_eq, Set.mem_union]
  constructor
  · rintro ⟨c, hc, h | h⟩
    · exact .inl ⟨c, hc, h⟩
    · exact .inr ⟨c, hc, h⟩
  · rintro (⟨c, hc, h⟩ | ⟨c, hc, h⟩)
    · exact ⟨c, hc, .inl h⟩
    · exact ⟨c, hc, .inr h⟩

theorem allowed_singleton (f : α) (c : Int) :
    allowed [(f, c)] = if c ≤ -1 then {f} else ∅ := by
  ext g
  split
  case isTrue h =>
    constructor
    · rintro ⟨c', -, hm⟩
      cases List.mem_singleton.mp hm
      rfl
    · rintro rfl
      exact ⟨c, h, List.mem_singleton_self _⟩
  case isFalse h =>
    refine iff_of_false ?_ (Set.notMem_empty g)
    rintro ⟨c', hc', hm⟩
    cases List.mem_singleton.mp hm
    exact h hc'

theorem nil_notMem_block {A : Set α} {L : Language α} : [] ∉ words A * {[f]} * L := by
  rintro ⟨_, ⟨u, -, _, rfl, rfl⟩, v, -, h⟩
  simp at h

/-- The first name of a block is allowed, or ends it. -/
theorem cons_mem_block {A : Set α} {L : Language α} :
    g :: w ∈ words A * {[f]} * L ↔ g ∈ A ∧ w ∈ words A * {[f]} * L ∨ g = f ∧ w ∈ L := by
  rw [mul_assoc]
  constructor
  · rintro ⟨u, hu, _, ⟨_, rfl, v, hv, rfl⟩, h⟩
    cases u with
    | nil =>
        cases h
        exact .inr ⟨rfl, hv⟩
    | cons g' u =>
        cases h
        obtain ⟨hg, hu⟩ := cons_mem_words.mp hu
        exact .inl ⟨hg, u, hu, _, ⟨_, rfl, v, hv, rfl⟩, rfl⟩
  · rintro (⟨hg, u, hu, v, hv, rfl⟩ | ⟨rfl, hw⟩)
    · exact ⟨g :: u, cons_mem_words.mpr ⟨hg, hu⟩, v, hv, rfl⟩
    · exact ⟨[], nil_mem_words A, _, ⟨_, rfl, w, hw, rfl⟩, rfl⟩

/-- A condition on the second factor. -/
theorem mem_mul_of_iff {X L L' : Language α} {P : Prop} (h : ∀ v, v ∈ L ↔ P ∧ v ∈ L') :
    w ∈ X * L ↔ P ∧ w ∈ X * L' := by
  simp only [Language.mem_mul, h]
  constructor
  · rintro ⟨u, hu, v, ⟨hP, hv⟩, he⟩
    exact ⟨hP, u, hu, v, hv, he⟩
  · rintro ⟨hP, u, hu, v, hv, he⟩
    exact ⟨u, hu, v, ⟨hP, hv⟩, he⟩

theorem optional_concat (hO : ∀ e ∈ O, e.2 < -1) (hc : c < -1) :
    ∀ e ∈ O ++ [(f, c)], e.2 < -1 := by
  intro e he
  rcases List.mem_append.mp he with he | he
  · exact hO e he
  · rw [List.mem_singleton.mp he]
    exact hc

/-! ### The checker -/

section Charge

variable [DecidableEq α]

/-- The list after a call of `f`, unless the call is refused. -/
def charge (f : α) : List (α × Int) → Option (List (α × Int))
  | [] => none
  | (g, c) :: q =>
      if g = f then some (pop ((g, c) :: q))
      else if -2 < c then none
      else (charge f q).map ((g, c) :: ·)

/-- The list after the calls of a word, unless one is refused. -/
def chargeAll : List α → List (α × Int) → Option (List (α × Int))
  | [], q => some q
  | f :: w, q => (charge f q).bind (chargeAll w)

/-- The words of which no call is refused and that leave no obligation. -/
def accepted (q : List (α × Int)) : Language α :=
  {w | ∃ q', chargeAll w q = some q' ∧ ∀ e ∈ q', e.2 < -1}

/-- No call is needed when all are optional. -/
theorem nil_mem_accepted : [] ∈ accepted q ↔ ∀ e ∈ q, e.2 < -1 := by
  constructor
  · rintro ⟨q', h, hq⟩
    cases h
    exact hq
  · exact fun h => ⟨q, rfl, h⟩

/-- A word is read from its front. -/
theorem cons_mem_accepted : f :: w ∈ accepted q ↔ ∃ q', charge f q = some q' ∧ w ∈ accepted q' := by
  constructor
  · rintro ⟨q₂, h, hq⟩
    obtain ⟨q₁, h₁, h₂⟩ := Option.bind_eq_some_iff.mp h
    exact ⟨q₁, h₁, q₂, h₂, hq⟩
  · rintro ⟨q₁, h₁, q₂, h₂, hq⟩
    exact ⟨q₂, Option.bind_eq_some_iff.mpr ⟨q₁, h₁, h₂⟩, hq⟩

/-! ### Behind entries that are optional -/

/-- A call that an optional entry allows changes nothing. -/
theorem charge_allowed (hO : ∀ e ∈ O, e.2 < -1) (hf : f ∈ allowed O) :
    charge f (O ++ R) = some (O ++ R) := by
  induction O with
  | nil =>
      obtain ⟨_, -, h⟩ := hf
      cases h
  | cons e O ih =>
      obtain ⟨g, c⟩ := e
      have hc : c < -1 := hO (g, c) List.mem_cons_self
      rw [List.cons_append, charge]
      split
      case isTrue => simp [pop, spend_of_le (show c ≤ -2 by omega)]
      case isFalse hne =>
        have hrest : f ∈ allowed O := by
          obtain ⟨c', hc', hm⟩ := hf
          rcases List.mem_cons.mp hm with he | hm
          · cases he
            exact absurd rfl hne
          · exact ⟨c', hc', hm⟩
        rw [if_neg (by omega), ih (fun e he => hO e (List.mem_cons_of_mem _ he)) hrest]
        rfl

/-- Any other call is for what comes behind. -/
theorem charge_not_allowed (hO : ∀ e ∈ O, e.2 < -1) (hf : f ∉ allowed O) :
    charge f (O ++ R) = (charge f R).map (O ++ ·) := by
  induction O with
  | nil => simp
  | cons e O ih =>
      obtain ⟨g, c⟩ := e
      have hc : c < -1 := hO (g, c) List.mem_cons_self
      have hne : g ≠ f := by
        rintro rfl
        exact hf ⟨c, by omega, List.mem_cons_self⟩
      have hrest : f ∉ allowed O := fun ⟨c', hc', hm⟩ => hf ⟨c', hc', List.mem_cons_of_mem _ hm⟩
      rw [List.cons_append, charge, if_neg hne, if_neg (by omega),
        ih (fun e he => hO e (List.mem_cons_of_mem _ he)) hrest, Option.map_map]
      rfl

/-- A call that is allowed may come in between. -/
theorem cons_mem_accepted_of_allowed (hO : ∀ e ∈ O, e.2 < -1) (hf : f ∈ allowed O) :
    f :: w ∈ accepted (O ++ R) ↔ w ∈ accepted (O ++ R) := by
  simp [cons_mem_accepted, charge_allowed hO hf]

/-- With no obligation left, the allowed names come in any order. -/
theorem accepted_optional (hO : ∀ e ∈ O, e.2 < -1) : accepted O = words (allowed O) := by
  ext w
  induction w with
  | nil => exact iff_of_true (nil_mem_accepted.mpr hO) (nil_mem_words _)
  | cons f w ih =>
      rw [cons_mem_words]
      by_cases hf : f ∈ allowed O
      · have h := cons_mem_accepted_of_allowed (w := w) (R := []) hO hf
        rw [List.append_nil] at h
        rw [h, ih]
        exact (and_iff_right hf).symm
      · refine iff_of_false ?_ fun h => hf h.1
        rw [cons_mem_accepted]
        have h := charge_not_allowed (R := []) hO hf
        rw [List.append_nil] at h
        rw [h]
        rintro ⟨_, ⟨⟩, -⟩

/-- An obligation for an allowed name is never met: the earlier entry takes the calls. -/
theorem notMem_accepted_of_shadowed (hO : ∀ e ∈ O, e.2 < -1) (hf : f ∈ allowed O) (hc : -1 ≤ c) :
    w ∉ accepted (O ++ (f, c) :: R) := by
  induction w with
  | nil =>
      rw [nil_mem_accepted]
      intro h
      have hlt : c < -1 := h (f, c) (List.mem_append_right O List.mem_cons_self)
      omega
  | cons g w ih =>
      by_cases hg : g ∈ allowed O
      · rw [cons_mem_accepted_of_allowed hO hg]
        exact ih
      · have hne : f ≠ g := by
          rintro rfl
          exact hg hf
        rw [cons_mem_accepted, charge_not_allowed hO hg, charge, if_neg hne, if_pos (by omega)]
        rintro ⟨_, ⟨⟩, -⟩

/-- One block meets an obligation once. -/
theorem accepted_obligation (hO : ∀ e ∈ O, e.2 < -1) (hf : f ∉ allowed O) (hc : -1 ≤ c) :
    accepted (O ++ (f, c) :: R) =
      words (allowed O) * {[f]} * accepted (O ++ pop ((f, c) :: R)) := by
  ext w
  induction w with
  | nil =>
      refine iff_of_false ?_ nil_notMem_block
      rw [nil_mem_accepted]
      intro h
      have hlt : c < -1 := h (f, c) (List.mem_append_right O List.mem_cons_self)
      omega
  | cons g w ih =>
      rw [cons_mem_block]
      by_cases hg : g ∈ allowed O
      · have hne : g ≠ f := by
          rintro rfl
          exact hf hg
        rw [cons_mem_accepted_of_allowed hO hg, ih]
        simp [hg, hne]
      · -- the search stops at the obligation
        rw [cons_mem_accepted, charge_not_allowed hO hg, charge]
        by_cases hgf : f = g
        · subst hgf
          simp [hg]
        · rw [if_neg hgf, if_pos (by omega)]
          refine iff_of_false ?_ ?_
          · rintro ⟨_, ⟨⟩, -⟩
          · rintro (⟨h, -⟩ | ⟨h, -⟩)
            · exact hg h
            · exact hgf h.symm

/-- Its number of blocks uses an obligation up. -/
theorem accepted_counted (hO : ∀ e ∈ O, e.2 < -1) (hf : f ∉ allowed O) (n : ℕ) :
    accepted (O ++ (f, (n : Int) + 1) :: R) =
      (words (allowed O) * {[f]}) ^ (n + 1) * accepted (O ++ R) := by
  induction n with
  | zero =>
      rw [accepted_obligation hO hf (by omega), pow_one]
      rfl
  | succ n ih =>
      have hpop : pop ((f, ((n + 1 : ℕ) : Int) + 1) :: R) = (f, (n : Int) + 1) :: R := by
        have hs : spend (((n + 1 : ℕ) : Int) + 1) = some ((n : Int) + 1) := by
          rw [spend_of_two_le (by omega)]
          congr 1
          omega
        rw [pop, hs]
        rfl
      rw [accepted_obligation hO hf (by omega), hpop, ih, pow_succ' _ (n + 1), mul_assoc _ (_ ^ _)]

/-! ### The whole list -/

/-- **The words a list accepts behind optional entries.**  `O` is what is left of `before`: the
counted entries are used up, and the entries that were `-1` are optional. -/
theorem accepted_after (hO : ∀ e ∈ O, e.2 < -1) (hA : allowed O = allowed before) (hR : NonZero R) :
    w ∈ accepted (O ++ R) ↔ Unshadowed before R ∧ w ∈ inOrder before R := by
  induction R generalizing O before w with
  | nil =>
      rw [List.append_nil, accepted_optional hO, hA]
      exact (and_iff_right trivial).symm
  | cons e R ih =>
      obtain ⟨f, c⟩ := e
      have hc : c ≠ 0 := hR (f, c) List.mem_cons_self
      have hR' : NonZero R := fun e he => hR e (List.mem_cons_of_mem _ he)
      rw [Unshadowed, inOrder]
      by_cases hob : -1 ≤ c
      · rw [if_pos hob, ← hA]
        by_cases hf : f ∈ allowed O
        · -- an entry before it takes every call of the name
          exact iff_of_false (notMem_accepted_of_shadowed hO hf hob) fun h => h.1.1 hob hf
        · rw [and_iff_right fun _ => hf]
          rcases (by omega : c = -1 ∨ 1 ≤ c) with rfl | hpos
          · -- met once, it stays allowed
            have hA' : allowed (O ++ [(f, -2)]) = allowed (before ++ [(f, -1)]) := by
              rw [allowed_append, allowed_append, hA, allowed_singleton, allowed_singleton]
              rfl
            have hpop : O ++ pop ((f, -1) :: R) = O ++ [(f, -2)] ++ R := by simp [pop]
            rw [accepted_obligation hO hf hob, hpop, times, if_pos rfl, pow_one]
            exact mem_mul_of_iff fun v => ih (optional_concat hO (by decide)) hA' hR'
          · -- met often enough, it is gone
            obtain ⟨n, rfl⟩ : ∃ n : ℕ, c = (n : Int) + 1 := ⟨c.toNat - 1, by omega⟩
            have hA' : allowed O = allowed (before ++ [(f, (n : Int) + 1)]) := by
              rw [allowed_append, allowed_singleton, if_neg (by omega), Set.union_empty, hA]
            have htimes : times ((n : Int) + 1) = n + 1 := by
              rw [times, if_neg (by omega)]
              omega
            rw [accepted_counted hO hf, htimes]
            exact mem_mul_of_iff fun v => ih hO hA' hR'
      · rw [if_neg hob, one_mul]
        have hA' : allowed (O ++ [(f, c)]) = allowed (before ++ [(f, c)]) := by
          rw [allowed_append, hA, ← allowed_append]
        rw [List.append_cons, ih (optional_concat hO (by omega)) hA' hR']
        exact and_congr_left' (and_iff_right fun h => absurd h hob).symm

/-- **The words a list accepts.** -/
theorem accepted_iff (hq : NonZero q) : w ∈ accepted q ↔ Unshadowed [] q ∧ w ∈ inOrder [] q :=
  accepted_after (O := []) nofun rfl hq

end Charge

end CallOrder
