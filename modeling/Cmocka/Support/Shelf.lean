import Cmocka.Support.CountedQueue

/-!
# Support — a table of counted queues kept as one list

A `Shelf` is a finite list of entries, each with the key of its queue.  The entries of one key, in
their order, are its queue (`queue`); `put` appends an entry and `use` uses the first one of a key.
The queues of a shelf are a `Table` with the operations of one (`queues_put`, `queues_use`), and
whether every queue may be abandoned is decided on the keys the shelf mentions (`settled_iff`).
-/

namespace CountedQueue

variable {K α : Type*} [DecidableEq K]

/-- The values do not matter for what is optional. -/
theorem dropOptional_map {β : Type*} (f : α → β) (q : List (α × Int)) :
    dropOptional (q.map (Prod.map f id)) = (dropOptional q).map (Prod.map f id) := by
  cases q with
  | nil => rfl
  | cons e q =>
      obtain ⟨a, c⟩ := e
      by_cases hc : c < -1
      · simp [dropOptional, hc]
      · simp [dropOptional, hc]

/-- Entries, each with its key and its count. -/
abbrev Shelf (K α : Type*) := List (K × α × Int)

namespace Shelf

/-- The entries of one key. -/
def queue (k : K) : Shelf K α → List (α × Int)
  | [] => []
  | (k', e) :: l => if k' = k then e :: queue k l else queue k l

/-- The queues of all keys. -/
def queues (l : Shelf K α) : Table K α := fun k => queue k l

/-- Append an entry. -/
def put (k : K) (a : α) (c : Int) (l : Shelf K α) : Shelf K α := l ++ [(k, a, c)]

/-- Use the first entry of a key. -/
def use (k : K) : Shelf K α → Shelf K α
  | [] => []
  | (k', a, c) :: l =>
      if k' = k then ((spend c).map fun c' => (k', a, c')).toList ++ l else (k', a, c) :: use k l

/-- At most an optional entry is left of every queue. -/
def Settled (l : Shelf K α) : Prop := ∀ e ∈ l, dropOptional (queue e.1 l) = []

instance (l : Shelf K α) : Decidable l.Settled :=
  inferInstanceAs (Decidable (∀ e ∈ l, dropOptional (queue e.1 l) = []))

@[simp] theorem queue_nil (k : K) : queue k ([] : Shelf K α) = [] := rfl

@[simp] theorem queue_cons_self (k : K) (e : α × Int) (l : Shelf K α) :
    queue k ((k, e) :: l) = e :: queue k l := if_pos rfl

theorem queue_cons_of_ne {k k' : K} (h : k' ≠ k) (e : α × Int) (l : Shelf K α) :
    queue k ((k', e) :: l) = queue k l := if_neg h

/-- The queues of two shelves, one behind the other. -/
theorem queue_append (k : K) (l l' : Shelf K α) : queue k (l ++ l') = queue k l ++ queue k l' := by
  induction l with
  | nil => rfl
  | cons e l ih =>
      obtain ⟨k', e⟩ := e
      by_cases hk : k' = k
      · subst hk
        rw [List.cons_append, queue_cons_self, queue_cons_self, ih, List.cons_append]
      · rw [List.cons_append, queue_cons_of_ne hk, queue_cons_of_ne hk, ih]

@[simp] theorem queues_nil : queues ([] : Shelf K α) = fun _ => [] := rfl

/-- Appending an entry appends it to its queue. -/
theorem queues_put (k : K) (a : α) (c : Int) (l : Shelf K α) :
    (l.put k a c).queues = l.queues.push k a c := by
  funext k'
  by_cases hk : k' = k
  · subst hk
    rw [Table.push_self, queues, put, queue_append, queue_cons_self]
    rfl
  · rw [Table.push_of_ne _ hk, queues, put, queue_append, queue_cons_of_ne (Ne.symm hk), queue_nil,
      List.append_nil]
    rfl

/-- A use takes from the queue of its key. -/
theorem queue_use_self (k : K) (l : Shelf K α) : queue k (l.use k) = pop (queue k l) := by
  induction l with
  | nil => rfl
  | cons e l ih =>
      obtain ⟨k', a, c⟩ := e
      by_cases hk : k' = k
      · subst hk
        rw [use, if_pos rfl, queue_append, queue_cons_self, pop]
        cases spend c with
        | none => rfl
        | some c' => exact congrArg (· ++ _) (queue_cons_self k' (a, c') [])
      · rw [use, if_neg hk, queue_cons_of_ne hk, queue_cons_of_ne hk, ih]

/-- The queues of the other keys stay. -/
theorem queue_use_of_ne {k k' : K} (h : k' ≠ k) (l : Shelf K α) :
    queue k' (l.use k) = queue k' l := by
  induction l with
  | nil => rfl
  | cons e l ih =>
      obtain ⟨k'', a, c⟩ := e
      by_cases hk : k'' = k
      · subst hk
        rw [use, if_pos rfl, queue_append, queue_cons_of_ne (Ne.symm h)]
        cases spend c with
        | none => rfl
        | some c' => exact congrArg (· ++ _) (queue_cons_of_ne (Ne.symm h) (a, c') [])
      · rw [use, if_neg hk]
        by_cases hk' : k'' = k'
        · subst hk'
          rw [queue_cons_self, queue_cons_self, ih]
        · rw [queue_cons_of_ne hk', queue_cons_of_ne hk', ih]

/-- Using the first entry of a key uses the front of its queue. -/
theorem queues_use (k : K) (l : Shelf K α) : (l.use k).queues = l.queues.take k := by
  funext k'
  by_cases hk : k' = k
  · subst hk
    rw [Table.take_self]
    exact queue_use_self k' l
  · rw [Table.take_of_ne _ hk]
    exact queue_use_of_ne hk l

/-- A key that no entry has is that of an empty queue. -/
theorem queue_eq_nil {k : K} {l : Shelf K α} (h : ∀ e ∈ l, e.1 ≠ k) : queue k l = [] := by
  induction l with
  | nil => rfl
  | cons e l ih =>
      obtain ⟨hne, hrest⟩ := List.forall_mem_cons.mp h
      exact (queue_cons_of_ne hne e.2 l).trans (ih hrest)

/-- The keys of the shelf are enough. -/
theorem settled_iff {l : Shelf K α} : l.Settled ↔ ∀ k, dropOptional (l.queues k) = [] := by
  constructor
  · intro h k
    by_cases hk : ∃ e ∈ l, e.1 = k
    · obtain ⟨e, he, rfl⟩ := hk
      exact h e he
    · rw [queues, queue_eq_nil fun e he hek => hk ⟨e, he, hek⟩]
      rfl
  · exact fun h e _ => h e.1

end Shelf

end CountedQueue
