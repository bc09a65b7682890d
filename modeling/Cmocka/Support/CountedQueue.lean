import Mathlib.Data.List.Basic
import Mathlib.Data.Int.Basic
import Mathlib.Logic.Function.Iterate
import Mathlib.Logic.Function.Basic

/-!
# Support — counted FIFO queues

A counted queue is a list of values with a count each, used from the front.  A positive count is
the number of uses left; a negative count never runs out, and `-1` turns into `-2` at the first
use.  `pop` is one use of the front entry and `nth q k` the value that use number `k` sees: the
queue read as a stream, each positive count as that many copies and each negative count as an
endless repetition.

A `Table` is a family of such queues over an arbitrary index type, and a list of `Act`s a history of
it: after any history whose uses all found an entry, the next use of a queue sees the element of
that queue's declared stream numbered by the uses before it (`AllServed.head`).
-/

namespace CountedQueue

variable {K α β : Type*}

/-- The count after one use; `none` when the entry is used up. -/
def spend (c : Int) : Option Int :=
  if c = 1 then none else if -2 < c then some (c - 1) else some c

/-- One use of the front entry. -/
def pop : List (α × Int) → List (α × Int)
  | [] => []
  | (a, c) :: q => ((spend c).map fun c' => (a, c')).toList ++ q

/-- The value seen by use number `k`, from `0`. -/
def nth : List (α × Int) → ℕ → Option α
  | [], _ => none
  | (a, c) :: q, k => if c < 0 ∨ (k : Int) < c then some a else nth q (k - c.toNat)

/-- An entry with this count has to be used before the queue may be abandoned. -/
def Owed (c : Int) : Prop := 1 ≤ c ∨ c = -1

instance (c : Int) : Decidable (Owed c) := inferInstanceAs (Decidable (_ ∨ _))

/-- No entry has count `0`. -/
def NonZero (q : List (α × Int)) : Prop := ∀ e ∈ q, e.2 ≠ 0

@[simp] theorem pop_nil : pop ([] : List (α × Int)) = [] := rfl

@[simp] theorem spend_one : spend 1 = none := rfl

/-- A count of two and more goes down. -/
theorem spend_of_two_le {c : Int} (h : 2 ≤ c) : spend c = some (c - 1) := by
  rw [spend, if_neg (by omega), if_pos (by omega)]

@[simp] theorem spend_neg_one : spend (-1) = some (-2) := rfl

/-- A count below `-1` stays. -/
theorem spend_of_le {c : Int} (h : c ≤ -2) : spend c = some c := by
  rw [spend, if_neg (by omega), if_neg (by omega)]

/-- Spending does not lead to `0`. -/
theorem spend_ne_zero {c c' : Int} (h : spend c = some c') (hc : c ≠ 0) : c' ≠ 0 := by
  unfold spend at h
  split at h
  · cases h
  · split at h <;> cases h <;> omega

/-- Nor does taking. -/
theorem NonZero.pop {q : List (α × Int)} (h : NonZero q) : NonZero (pop q) := by
  match q with
  | [] => exact h
  | (a, c) :: q =>
      intro e he
      simp only [CountedQueue.pop, List.mem_append, Option.mem_toList,
        Option.map_eq_some_iff] at he
      rcases he with ⟨c', hc', rfl⟩ | he
      · exact spend_ne_zero hc' (h (a, c) (by simp))
      · exact h e (by simp [he])

theorem NonZero.append {q q' : List (α × Int)} (h : NonZero q) (h' : NonZero q') :
    NonZero (q ++ q') := by
  intro e he
  rcases List.mem_append.mp he with he | he
  · exact h e he
  · exact h' e he

/-- Taking leaves what is behind the first entry. -/
theorem pop_append {q : List (α × Int)} (h : q ≠ []) (q' : List (α × Int)) :
    pop (q ++ q') = pop q ++ q' := by
  match q with
  | [] => exact absurd rfl h
  | (a, c) :: q => simp [pop]

/-- What one use leaves in a queue was in it. -/
theorem exists_mem_of_mem_pop {q : List (α × Int)} {a : α} {c : Int} (h : (a, c) ∈ pop q) :
    ∃ c', (a, c') ∈ q := by
  match q with
  | [] => cases h
  | (b, n) :: q =>
      simp only [pop, List.mem_append, Option.mem_toList, Option.map_eq_some_iff] at h
      rcases h with ⟨n', -, he⟩ | h
      · cases he
        exact ⟨n, List.mem_cons_self⟩
      · exact ⟨c, List.mem_cons_of_mem _ h⟩

/-! ### The stream of a queue -/

/-- The next value is that of the first entry. -/
theorem nth_zero {q : List (α × Int)} (h : NonZero q) : nth q 0 = q.head?.map Prod.fst := by
  match q with
  | [] => rfl
  | (a, c) :: q =>
      have hc : c ≠ 0 := h (a, c) (by simp)
      simp only [nth, List.head?_cons, Option.map_some]
      rw [if_pos (by omega)]

/-- One use shifts the stream by one. -/
theorem nth_pop {q : List (α × Int)} (h : NonZero q) (k : ℕ) : nth (pop q) k = nth q (k + 1) := by
  match q with
  | [] => rfl
  | (a, c) :: q =>
      have hc : c ≠ 0 := h (a, c) (by simp)
      by_cases h1 : c = 1
      · subst h1
        simp only [pop, spend_one, Option.map_none, Option.toList_none, List.nil_append, nth]
        rw [if_neg (by omega)]
        simp
      · have hs : ∃ c', spend c = some c' ∧ (c' < 0 ↔ c < 0) ∧ (0 < c → c' = c - 1) := by
          rcases Int.lt_or_le c 0 with hneg | hpos
          · rcases (by omega : c = -1 ∨ c ≤ -2) with rfl | hle
            · exact ⟨-2, rfl, by omega, by omega⟩
            · exact ⟨c, spend_of_le hle, Iff.rfl, by omega⟩
          · exact ⟨c - 1, spend_of_two_le (by omega), by omega, fun _ => rfl⟩
        obtain ⟨c', hs, hneg, hpos⟩ := hs
        simp only [pop, hs, Option.map_some, Option.toList_some, List.singleton_append, nth]
        by_cases hc0 : c < 0
        · rw [if_pos (.inl (hneg.mpr hc0)), if_pos (.inl hc0)]
        · have hc' := hpos (by omega)
          subst hc'
          by_cases hk : (k : Int) < c - 1
          · rw [if_pos (.inr hk), if_pos (.inr (by push_cast; omega))]
          · rw [if_neg (by omega), if_neg (by push_cast; omega)]
            congr 1
            omega

/-- The values after some were taken. -/
theorem nth_add {q : List (α × Int)} (h : NonZero q) (j k : ℕ) :
    nth (pop^[j] q) k = nth q (k + j) := by
  induction j generalizing q k with
  | zero => rfl
  | succ j ih =>
      rw [Function.iterate_succ_apply, ih h.pop, nth_pop h]
      rfl

/-- `q` is what is left of the entries `declared`, in the order they were declared, after `k` uses
that all found one. -/
structure Served (declared : List (α × Int)) (k : ℕ) (q : List (α × Int)) : Prop where
  left : pop^[k] declared = q
  found : ∀ j < k, pop^[j] declared ≠ []

theorem served_nil : Served ([] : List (α × Int)) 0 [] := ⟨rfl, by simp⟩

/-- What is appended while there is something to take is taken later. -/
theorem iterate_pop_append {q : List (α × Int)} {k : ℕ} (h : ∀ j < k, pop^[j] q ≠ [])
    (q' : List (α × Int)) : pop^[k] (q ++ q') = pop^[k] q ++ q' := by
  induction k with
  | zero => rfl
  | succ k ih =>
      rw [Function.iterate_succ_apply', ih fun j hj => h j (by omega),
        pop_append (h k (by omega)), Function.iterate_succ_apply']

/-- Declaring an entry puts it at the tail. -/
theorem Served.push {declared q : List (α × Int)} {k : ℕ} (h : Served declared k q) (e : α × Int) :
    Served (declared ++ [e]) k (q ++ [e]) where
  left := by rw [iterate_pop_append h.found, h.left]
  found := by
    intro j hj
    rw [iterate_pop_append fun i hi => h.found i (by omega)]
    simp

/-- A use takes from the front. -/
theorem Served.pop {declared q : List (α × Int)} {k : ℕ} (h : Served declared k q) (hq : q ≠ []) :
    Served declared (k + 1) (pop q) where
  left := by rw [Function.iterate_succ_apply', h.left]
  found := by
    intro j hj
    rcases Nat.lt_succ_iff_lt_or_eq.mp hj with hj | rfl
    · exact h.found j hj
    · rwa [h.left]

/-- The counts left are not `0` if those declared were not. -/
theorem Served.nonZero {declared q : List (α × Int)} {k : ℕ} (h : Served declared k q)
    (hz : NonZero declared) : NonZero q := by
  rw [← h.left]
  clear h
  induction k with
  | zero => exact hz
  | succ k ih =>
      rw [Function.iterate_succ_apply']
      exact ih.pop

/-- **Use number `k` sees element number `k` of what was declared.** -/
theorem Served.head {declared q : List (α × Int)} {k : ℕ} (h : Served declared k q)
    (hz : NonZero declared) : nth declared k = q.head?.map Prod.fst := by
  rw [← nth_zero (h.nonZero hz), ← h.left, nth_add hz, Nat.zero_add]

/-- The values do not matter for the counts. -/
theorem pop_map (f : α → β) (q : List (α × Int)) :
    CountedQueue.pop (q.map (Prod.map f id)) = (CountedQueue.pop q).map (Prod.map f id) := by
  match q with
  | [] => rfl
  | (a, c) :: q => cases h : spend c <;> simp [CountedQueue.pop, h]

/-! ### Optional entries -/

/-- The queue without its front entry, if that is optional. -/
def dropOptional : List (α × Int) → List (α × Int)
  | [] => []
  | (a, c) :: q => if c < -1 then q else (a, c) :: q

/-- Dropping one optional entry at the front leaves nothing only of an empty queue, or of a single
optional entry. -/
theorem dropOptional_eq_nil {q : List (α × Int)} :
    dropOptional q = [] ↔ q.length ≤ 1 ∧ ∀ e ∈ q, e.2 < -1 := by
  match q with
  | [] => simp [dropOptional]
  | [(a, c)] => simp [dropOptional]
  | (a, c) :: e :: q =>
      simp only [dropOptional]
      split <;> simp

/-! ### Tables -/

/-- A family of counted queues. -/
abbrev Table (K α : Type*) := K → List (α × Int)

namespace Table

variable [DecidableEq K]

/-- Append an entry at the tail of one queue. -/
def push (t : Table K α) (k : K) (a : α) (c : Int) : Table K α :=
  Function.update t k (t k ++ [(a, c)])

/-- Use the front entry of one queue. -/
def take (t : Table K α) (k : K) : Table K α := Function.update t k (pop (t k))

@[simp] theorem push_self (t : Table K α) (k : K) (a : α) (c : Int) :
    t.push k a c k = t k ++ [(a, c)] := by simp [push]

/-- The queues of the other keys stay. -/
theorem push_of_ne (t : Table K α) {k k' : K} (h : k' ≠ k) (a : α) (c : Int) :
    t.push k a c k' = t k' := by simp [push, h]

@[simp] theorem take_self (t : Table K α) (k : K) : t.take k k = pop (t k) := by simp [take]

theorem take_of_ne (t : Table K α) {k k' : K} (h : k' ≠ k) : t.take k k' = t k' := by
  simp [take, h]

/-- What is queued after an entry was appended was queued before, or is that entry. -/
theorem mem_push {t : Table K α} {k k' : K} {a b : α} {c n : Int} (h : (b, n) ∈ t.push k a c k') :
    (b, n) ∈ t k' ∨ (k' = k ∧ b = a) := by
  by_cases hk : k' = k
  · subst hk
    rw [push_self, List.mem_append, List.mem_singleton] at h
    exact h.imp_right fun he => ⟨rfl, congrArg Prod.fst he⟩
  · rw [push_of_ne t hk] at h
    exact .inl h

/-- What is queued after a use was queued before. -/
theorem exists_mem_of_mem_take {t : Table K α} {k k' : K} {a : α} {c : Int}
    (h : (a, c) ∈ t.take k k') : ∃ c', (a, c') ∈ t k' := by
  by_cases hk : k' = k
  · subst hk
    rw [take_self] at h
    exact exists_mem_of_mem_pop h
  · rw [take_of_ne t hk] at h
    exact ⟨c, h⟩

/-- An entry appended earlier does not come in front. -/
theorem push_cons {t : Table K α} {k : K} {e : α × Int} {q : List (α × Int)} (h : t k = e :: q)
    (k' : K) (a : α) (c : Int) : ∃ q', t.push k' a c k = e :: q' := by
  by_cases hk : k = k'
  · subst hk
    exact ⟨q ++ [(a, c)], by rw [push_self, h]; rfl⟩
  · exact ⟨q, by rw [push_of_ne t hk, h]⟩

/-- Using an entry and appending one commute, unless the queue was empty. -/
theorem take_push {t : Table K α} {k : K} (h : t k ≠ []) (k' : K) (a : α) (c : Int) :
    (t.push k' a c).take k = (t.take k).push k' a c := by
  funext j
  by_cases hj : j = k
  · subst hj
    by_cases hk : j = k'
    · subst hk
      rw [take_self, push_self, push_self, take_self, pop_append h]
    · rw [take_self, push_of_ne _ hk, push_of_ne _ hk, take_self]
  · rw [take_of_ne _ hj]
    by_cases hk : j = k'
    · subst hk
      rw [push_self, push_self, take_of_ne _ hj]
    · rw [push_of_ne _ hk, push_of_ne _ hk, take_of_ne _ hj]

end Table

/-! ### Histories -/

/-- What one step does to a table. -/
inductive Act (K α : Type*) where
  | push (k : K) (a : α) (c : Int)
  | take (k : K)
  | idle

variable [DecidableEq K]

/-- The entry a step declares for `k`. -/
def Act.entry? (k : K) : Act K α → Option (α × Int)
  | .push k' a c => if k' = k then some (a, c) else none
  | _ => none

/-- Whether a step uses the queue of `k`. -/
def Act.takes (k : K) : Act K α → Bool
  | .take k' => k' = k
  | _ => false

/-- The entries a history declares for `k`, in order. -/
def declared (k : K) (acts : List (Act K α)) : List (α × Int) := acts.filterMap (Act.entry? k)

/-- The number of uses of the queue of `k` in a history. -/
def uses (k : K) (acts : List (Act K α)) : ℕ := acts.countP (Act.takes k)

@[simp] theorem declared_snoc (k : K) (acts : List (Act K α)) (act : Act K α) :
    declared k (acts ++ [act]) = declared k acts ++ (act.entry? k).toList := by
  cases h : act.entry? k <;> simp [declared, h]

@[simp] theorem uses_snoc (k : K) (acts : List (Act K α)) (act : Act K α) :
    uses k (acts ++ [act]) = uses k acts + (act.takes k).toNat := by
  cases h : act.takes k <;> simp [uses, h]

/-- Every queue of the table is what its declarations and uses leave, and every use found an
entry. -/
def AllServed (acts : List (Act K α)) (t : Table K α) : Prop :=
  ∀ k, Served (declared k acts) (uses k acts) (t k)

theorem allServed_nil : AllServed ([] : List (Act K α)) fun _ => [] := fun _ => served_nil

/-- One more entry. -/
theorem AllServed.push {acts : List (Act K α)} {t : Table K α} (h : AllServed acts t) (k : K)
    (a : α) (c : Int) : AllServed (acts ++ [.push k a c]) (t.push k a c) := by
  intro k'
  by_cases hk : k' = k
  · subst hk
    simpa [Act.entry?, Act.takes] using (h k').push (a, c)
  · rw [Table.push_of_ne _ hk]
    simpa [Act.entry?, Act.takes, Ne.symm hk] using h k'

/-- One more use. -/
theorem AllServed.take {acts : List (Act K α)} {t : Table K α} (h : AllServed acts t) {k : K}
    (hk : t k ≠ []) : AllServed (acts ++ [.take k]) (t.take k) := by
  intro k'
  by_cases hk' : k' = k
  · subst hk'
    simpa [Act.entry?, Act.takes] using (h k').pop hk
  · rw [Table.take_of_ne _ hk']
    simpa [Act.entry?, Act.takes, Ne.symm hk'] using h k'

theorem AllServed.idle {acts : List (Act K α)} {t : Table K α} (h : AllServed acts t) :
    AllServed (acts ++ [.idle]) t := by
  intro k
  simpa [Act.entry?, Act.takes] using h k

/-- No entry is declared with count `0`. -/
def NonZeroActs (acts : List (Act K α)) : Prop := ∀ k a, Act.push k a 0 ∉ acts

/-- The entries of a key that were declared. -/
theorem NonZeroActs.declared {acts : List (Act K α)} (h : NonZeroActs acts) (k : K) :
    NonZero (declared k acts) := by
  intro e he hz
  obtain ⟨act, hm, hact⟩ := List.mem_filterMap.mp he
  cases act with
  | push k' a c =>
      simp only [Act.entry?, Option.ite_none_right_eq_some, Option.some.injEq] at hact
      obtain ⟨-, rfl⟩ := hact
      cases hz
      exact h k' a hm
  | take k' => cases hact
  | idle => cases hact

/-- The next use sees the element of the declared stream numbered by the uses before it. -/
theorem AllServed.head {acts : List (Act K α)} {t : Table K α} (h : AllServed acts t)
    (hz : NonZeroActs acts) (k : K) :
    nth (CountedQueue.declared k acts) (uses k acts) = (t k).head?.map Prod.fst :=
  (h k).head (hz.declared k)

end CountedQueue
