import Cmocka.Expectations.MapRefinement

/-!
# Expectations — what a map has left at the end of a test

`has_leftover_values` first runs `remove_always_return_values` over a map and then asks
`check_for_leftover_values` whether any symbol still has values.  The removal looks at each queue
only at its head (`queue_removeAt`): a queue of several optional entries keeps all but the first.
So the report is right about the map exactly when some entry is owed or no queue holds two entries
(`mapHasLeftover_sound_iff`).
-/

namespace Cmocka.SymbolMap

open CountedQueue

variable {V : Type}

/-! ### The removal -/

/-- `remove_always_return_values`, with depth `0` for the removal at the head of a queue. -/
def removeAt : (d : Nat) → List (MapNode V) → List (MapNode V) × List V
  | 0 => removeFirstAlways
  | d + 1 => removeAlwaysReturnValues (d + 1)

theorem removeAt_succ (d : Nat) (list : List (MapNode V)) :
    removeAt (d + 1) list =
      (list.filterMap fun node => (removeRound (removeAt d) node).1,
        list.flatMap fun node => (removeRound (removeAt d) node).2) := by
  simp only [removeAt, removeAlwaysReturnValues]
  cases d with
  | zero => rfl
  | succ d => rfl

@[simp] theorem removeRound_value (inner : List (MapNode V) → List (MapNode V) × List V) (c : Int)
    (v : V) : removeRound inner (.value c v) = (some (.value c v), []) := rfl

@[simp] theorem removeRound_symbol (inner : List (MapNode V) → List (MapNode V) × List V) (c : Int)
    (name : CString) (children : List (MapNode V)) :
    removeRound inner (.symbol c name children) =
      (if (inner children).1 = [] then none else some (.symbol c name (inner children).1),
        (inner children).2) := by
  simp [removeRound]

/-- The names left by a round of removals are names of the list. -/
theorem names_removeRound_sublist (inner : List (MapNode V) → List (MapNode V) × List V)
    (list : List (MapNode V)) :
    (names (list.filterMap fun node => (removeRound inner node).1)).Sublist (names list) := by
  induction list with
  | nil => exact List.Sublist.refl _
  | cons node rest ih =>
      cases node with
      | value c v => simpa using ih
      | symbol c name children =>
          by_cases he : (inner children).1 = []
          · simpa [he] using List.Sublist.cons name ih
          · simpa [he] using List.Sublist.cons_cons name ih

/-- The list below a name after a round of removals, `[]` when the symbol went. -/
theorem childrenOf_removeRound (inner : List (MapNode V) → List (MapNode V) × List V)
    (hinner : (inner []).1 = []) (name : CString) {list : List (MapNode V)}
    (hnd : (names list).Nodup) :
    (childrenOf name (list.filterMap fun node => (removeRound inner node).1)).getD [] =
      (inner ((childrenOf name list).getD [])).1 := by
  induction list with
  | nil => simp [hinner]
  | cons node rest ih =>
      cases node with
      | value c v =>
          simpa using ih (by simpa using hnd)
      | symbol c n children =>
          rw [names_symbol, List.nodup_cons] at hnd
          have ih := ih hnd.2
          by_cases hn : n = name
          · subst hn
            have hrest : childrenOf n (rest.filterMap fun node => (removeRound inner node).1) =
                none := childrenOf_eq_none.mpr
              fun hm => hnd.1 ((names_removeRound_sublist inner rest).subset hm)
            by_cases he : (inner children).1 = []
            · simp [he, hrest]
            · simp [he]
          · by_cases he : (inner children).1 = []
            · simpa [he, hn] using ih
            · simpa [he, hn] using ih

theorem removeAt_nil (d : Nat) : removeAt d ([] : List (MapNode V)) = ([], []) := by
  cases d with
  | zero => rfl
  | succ d => simp [removeAt_succ]

theorem removeAt_shape {d : Nat} {list : List (MapNode V)} (hs : Shape d list) :
    Shape d (removeAt d list).1 := by
  induction d generalizing list with
  | zero =>
      intro node hm
      cases list with
      | nil => cases hm
      | cons n rest =>
          simp only [removeAt, removeFirstAlways] at hm
          split at hm
          · exact hs node (List.mem_cons_of_mem _ hm)
          · exact hs node hm
  | succ d ih =>
      rw [removeAt_succ]
      refine ⟨hs.1.sublist (names_removeRound_sublist _ list), fun node hm => ?_⟩
      obtain ⟨node', hm', he⟩ := List.mem_filterMap.mp hm
      obtain ⟨c, name, children, rfl, -, hsc⟩ := hs.2 node' hm'
      by_cases hnil : (removeAt d children).1 = []
      · simp [hnil] at he
      · simp only [removeRound_symbol, if_neg hnil, Option.some.injEq] at he
        exact ⟨c, name, _, he.symm, hnil, ih hsc⟩

/-- **The removal at the head**: each queue loses its front entry if that is optional, and nothing
else. -/
theorem queue_removeAt {d : Nat} {list : List (MapNode V)} (hs : Shape d list)
    {path : List CString} (hp : path.length = d) :
    queue path (removeAt d list).1 = dropOptional (queue path list) := by
  induction d generalizing list path with
  | zero =>
      obtain rfl := List.length_eq_zero_iff.mp hp
      cases list with
      | nil => rfl
      | cons node rest =>
          obtain ⟨c, v, rfl⟩ := hs node (by simp)
          by_cases hc : c < -1
          · simp [removeAt, removeFirstAlways, refcount, queue, entry?, dropOptional, hc]
          · simp [removeAt, removeFirstAlways, refcount, queue, entry?, dropOptional, hc]
  | succ d ih =>
      obtain ⟨name, path, rfl⟩ := List.exists_cons_of_length_eq_add_one hp
      have hpath : path.length = d := by simpa using hp
      rw [removeAt_succ, queue, childrenOf_removeRound _ (by rw [removeAt_nil]) name hs.1]
      cases hf : listFind name list with
      | none =>
          have hn := childrenOf_eq_none.mpr (listFind_none hf)
          simp [queue, hn, queue_nil, removeAt_nil, dropOptional]
      | some f =>
          simp only [queue, childrenOf_of_find hf, Option.getD_some]
          exact ih (hs.found hf).2 hpath

/-! ### The report -/

/-- The test `has_leftover_values` makes on one map. -/
def mapHasLeftover (location : V → SourceLocation) (errorMessage : CString) (d : Nat)
    (list : List (MapNode V)) : Bool :=
  (checkForLeftoverValues location errorMessage d (removeAlwaysReturnValues d list).1).1 != 0

/-- In a map of the shape, every symbol has values: the count is that of all symbols. -/
theorem checkForLeftoverValues_eq_zero {d : Nat} {list : List (MapNode V)}
    (hs : Shape (d + 1) list) (location : V → SourceLocation) (errorMessage : CString) :
    (checkForLeftoverValues location errorMessage (d + 1) list).1 = 0 ↔ list = [] := by
  simp only [checkForLeftoverValues, List.countP_eq_zero]
  constructor
  · intro h
    cases list with
    | nil => rfl
    | cons node rest =>
        obtain ⟨c, name, children, rfl, hne, -⟩ := hs.2 node (by simp)
        have := h _ (List.mem_cons_self)
        simp [hasValues, hne] at this
  · rintro rfl node hm
    cases hm

theorem Shape.eq_nil_iff {d : Nat} {list : List (MapNode V)} (hs : Shape d list) :
    list = [] ↔ ∀ path : List CString, path.length = d → queue path list = [] := by
  constructor
  · rintro rfl path -
    exact queue_nil path
  · intro h
    by_contra hne
    obtain ⟨path, hp, hq⟩ := hs.exists_queue hne
    exact hq (h path hp)

/-- A map has something left over exactly when the removal leaves a queue with an entry. -/
theorem mapHasLeftover_iff {d : Nat} {list : List (MapNode V)} (hs : Shape (d + 1) list)
    (location : V → SourceLocation) (errorMessage : CString) :
    mapHasLeftover location errorMessage (d + 1) list = true ↔
      ∃ path : Path (d + 1), dropOptional (table (d + 1) list path) ≠ [] := by
  have hs' := removeAt_shape hs
  rw [mapHasLeftover, bne_iff_ne, ne_eq]
  change ¬ (checkForLeftoverValues location errorMessage (d + 1)
    (removeAt (d + 1) list).1).1 = 0 ↔ _
  rw [checkForLeftoverValues_eq_zero hs', hs'.eq_nil_iff, not_forall]
  constructor
  · rintro ⟨path, h⟩
    rw [Classical.not_imp] at h
    exact ⟨⟨path, h.1⟩, by rw [table, ← queue_removeAt hs h.1]; exact h.2⟩
  · rintro ⟨path, h⟩
    refine ⟨path.1, Classical.not_imp.mpr ⟨path.2, ?_⟩⟩
    rw [queue_removeAt hs path.2]
    exact h

/-- Some entry still queued has to be used: its remaining count is positive, or `-1` (always, and
never returned yet). -/
def HasOwed {d : Nat} (t : Table (Path d) V) : Prop := ∃ path, ∃ e ∈ t path, Owed e.2

/-- An owed entry is always reported. -/
theorem mapHasLeftover_of_hasOwed {d : Nat} {list : List (MapNode V)} (hs : Shape (d + 1) list)
    (location : V → SourceLocation) (errorMessage : CString)
    (h : HasOwed (table (d + 1) list)) :
    mapHasLeftover location errorMessage (d + 1) list = true := by
  obtain ⟨path, e, he, ho⟩ := h
  refine (mapHasLeftover_iff hs location errorMessage).mpr ⟨path, fun hnil => ?_⟩
  have := (dropOptional_eq_nil.mp hnil).2 e he
  unfold Owed at ho
  omega

/-- The maps the registrations and retrievals of one process can reach. -/
def Reachable (d : Nat) (list : List (MapNode V)) : Prop :=
  ∃ (ops : List (MapOp V d)) (answers : List (Answer V)), runOps ops [] = some (list, answers)

theorem Reachable.shape {d : Nat} (hd : 1 ≤ d) {list : List (MapNode V)} (h : Reachable d list) :
    Shape d list ∧ NonZeroCounts (table d list) := by
  obtain ⟨ops, answers, hr⟩ := h
  obtain ⟨list', answers', hr', hs, hz, -⟩ := run_refines hd ops (shape_nil d)
    (by rw [table_nil]; intro path e he; cases he)
  rw [hr] at hr'
  cases hr'
  exact ⟨hs, hz⟩

/-- **When the leftover report is right.**  On a reachable map, `has_leftover_values` reports a
leftover for exactly the maps with an owed entry, if and only if the map has an owed entry or none
of its queues holds two entries or more. -/
theorem leftover_report_exact_iff {d : Nat} (hd : 1 ≤ d) {list : List (MapNode V)}
    (h : Reachable d list) (location : V → SourceLocation) (errorMessage : CString) :
    (mapHasLeftover location errorMessage d list = true ↔ HasOwed (table d list)) ↔
      (HasOwed (table d list) ∨ ∀ path, (table d list path).length ≤ 1) := by
  obtain ⟨d, rfl⟩ : ∃ d', d = d' + 1 := ⟨d - 1, by omega⟩
  obtain ⟨hs, hz⟩ := h.shape hd
  by_cases ho : HasOwed (table (d + 1) list)
  · have := mapHasLeftover_of_hasOwed hs location errorMessage ho
    simp [ho, this]
  · simp only [ho, iff_false, false_or]
    rw [mapHasLeftover_iff hs]
    have hopt : ∀ path, ∀ e ∈ table (d + 1) list path, e.2 < -1 := by
      intro path e he
      have hne : e.2 ≠ 0 := hz path e he
      have hno : ¬ Owed e.2 := fun h => ho ⟨path, e, he, h⟩
      unfold Owed at hno
      omega
    constructor
    · intro hno path
      have hnil : dropOptional (table (d + 1) list path) = [] := by
        by_contra hne
        exact hno ⟨path, hne⟩
      exact (dropOptional_eq_nil.mp hnil).1
    · rintro hlen ⟨path, hne⟩
      exact hne (dropOptional_eq_nil.mpr ⟨hlen path, hopt path⟩)

/-- `will_return_maybe` of `f`, several times. -/
def maybes (n : Nat) : List (MapOp Nat 1) :=
  List.replicate n (.add ⟨["f".toList], rfl⟩ 7 ⟨-2, by decide⟩)

theorem maybes_not_owed {n : Nat} {list : List (MapNode Nat)} {answers : List (Answer Nat)}
    (h : runOps (maybes n) [] = some (list, answers)) : ¬HasOwed (table 1 list) := by
  obtain ⟨list', answers', hr, -, -, hspec⟩ := run_refines le_rfl (maybes n) (shape_nil 1)
    (by rw [table_nil]; intro path e he; cases he)
  cases h.symm.trans hr
  have hall : ∀ t : Table (Path 1) Nat, (∀ path, ∀ e ∈ t path, e.2 = -2) →
      ∀ path, ∀ e ∈ (specOps (maybes n) t).1 path, e.2 = -2 := by
    clear hspec hr h
    induction n with
    | zero => exact fun t ht => ht
    | succ n ih =>
        intro t ht
        refine ih _ fun path e he => ?_
        change e ∈ Table.push t _ 7 (-2) path at he
        by_cases hp : path = ⟨["f".toList], rfl⟩
        · subst hp
          rw [Table.push, Function.update_self, List.mem_append, List.mem_singleton] at he
          rcases he with he | rfl
          · exact ht _ e he
          · rfl
        · rw [Table.push, Function.update_of_ne hp] at he
          exact ht path e he
  rintro ⟨path, e, he, ho⟩
  have := hall (table 1 []) (by rw [table_nil]; intro path e he; cases he) path e
    (by rw [hspec]; exact he)
  rw [this] at ho
  exact absurd ho (by decide)

/-- One optional value is not reported. -/
theorem one_maybe_not_reported :
    ∃ list answers, runOps (maybes 1) [] = some (list, answers) ∧
      (mapHasLeftover (fun _ => initializeSourceLocation) [] 1 list = true ↔
        HasOwed (table 1 list)) := by
  refine ⟨_, _, rfl, (leftover_report_exact_iff le_rfl ⟨maybes 1, _, rfl⟩ _ _).mpr (.inr ?_)⟩
  intro path
  change (table 1 (addSymbolValue _ 7 (-2) []) path).length ≤ 1
  rw [table_add le_rfl, table_nil]
  by_cases hp : path = ⟨["f".toList], rfl⟩
  · subst hp
    simp [Table.push]
  · rw [Table.push, Function.update_of_ne hp]
    exact Nat.zero_le 1

/-- Two are, though neither is owed. -/
theorem two_maybes_reported :
    ∃ list answers, runOps (maybes 2) [] = some (list, answers) ∧
      ¬(mapHasLeftover (fun _ => initializeSourceLocation) [] 1 list = true ↔
        HasOwed (table 1 list)) := by
  refine ⟨_, _, rfl, fun h => ?_⟩
  exact maybes_not_owed (n := 2) rfl (h.mp (by decide +kernel))

end Cmocka.SymbolMap
