import Mathlib.Algebra.Order.Group.Multiset
import Mathlib.Data.Multiset.AddSub
import Mathlib.Data.Multiset.UnionInter
import Mathlib.Data.Multiset.MapFold
import Cmocka.Support.CountedQueue
import Cmocka.Support.Splits

/-!
# Support — ledgers of counted entries

A bag of counted entries is used one entry at a time (`Uses`), as a counted queue is at its front;
which entry a use takes is left open.  Entries are numbered in the order of registration, and a log
records what happened to each number.  Two things follow from the log alone, whatever the order of
the operations:

* `Balanced`: a positive count is what remains of the registered count after the logged uses, and a
  registered entry that is gone was used exactly as often as registered;
* `Owned`: no number in the bag was released, every registered number outside it was released
  exactly once, and none was used after its release.
-/

namespace Ledger

open CountedQueue Splits

variable {α β : Type*}

/-- `used` is `bag` after one use of its entry `(a, c)`. -/
def Uses (a : α) (c : Int) (bag used : Multiset (α × Int)) : Prop :=
  ∃ rest, bag = (a, c) ::ₘ rest ∧ used = ((spend c).map fun c' => (a, c')).toList + rest

/-- What the values are does not matter. -/
theorem Uses.map {a : α} {c : Int} {bag used : Multiset (α × Int)} (h : Uses a c bag used)
    (f : α → β) :
    Uses (f a) c (bag.map fun e => (f e.1, e.2)) (used.map fun e => (f e.1, e.2)) := by
  obtain ⟨rest, rfl, rfl⟩ := h
  refine ⟨rest.map fun e => (f e.1, e.2), by simp, ?_⟩
  cases spend c <;> simp

/-- The last use of an entry takes its value out of the bag; any other leaves the values alone. -/
theorem Uses.values {a : α} {c : Int} {bag used : Multiset (α × Int)} (h : Uses a c bag used) :
    bag.map Prod.fst = ((if c = 1 then [a] else [] : List α) : Multiset α) + used.map Prod.fst := by
  obtain ⟨rest, rfl, rfl⟩ := h
  by_cases hc : c = 1
  · subst hc
    simp
  · obtain ⟨c', hs⟩ : ∃ c', spend c = some c' := by
      unfold spend
      rw [if_neg hc]
      split <;> exact ⟨_, rfl⟩
    simp [hc, hs]

/-- What is logged of an entry. -/
inductive Entry where
  | registered (id : ℕ) (count : Int)
  | used (id : ℕ)
  | released (id : ℕ)
  deriving DecidableEq

/-- The number an entry of the log is about. -/
def Entry.id : Entry → ℕ
  | .registered p _ => p
  | .used p => p
  | .released p => p

/-- Every number in the log is below `next`. -/
def Bounded (next : ℕ) (log : List Entry) : Prop := ∀ e ∈ log, e.id < next

theorem Bounded.mono {next next' : ℕ} {log : List Entry} (h : Bounded next log)
    (hn : next ≤ next') : Bounded next' log := fun e he => lt_of_lt_of_le (h e he) hn

theorem Bounded.append {next : ℕ} {log log' : List Entry} (h : Bounded next log)
    (h' : Bounded next log') : Bounded next (log ++ log') := by
  intro e he
  rcases List.mem_append.mp he with he | he
  · exact h e he
  · exact h' e he

/-- The next number is not in the log. -/
theorem Bounded.not_mem {next : ℕ} {log : List Entry} (h : Bounded next log) {e : Entry}
    (he : e.id = next) : e ∉ log := fun hm => absurd (h e hm) (by omega)

/-! ### Uses -/

/-- `c` remains of a registered count `n` after `u` uses. -/
def Remains (n c : Int) (u : ℕ) : Prop :=
  (1 ≤ n ∧ 1 ≤ c ∧ c + u = n) ∨ (n = -1 ∧ c = -1 ∧ u = 0) ∨ (n = -1 ∧ c = -2 ∧ 1 ≤ u) ∨
    (n ≤ -2 ∧ c = n) ∨ (n = 0 ∧ c = 0)

theorem remains_self (n : Int) : Remains n n 0 := by
  unfold Remains
  omega

/-- A use that leaves something. -/
theorem Remains.spend {n c c' : Int} {u : ℕ} (h : Remains n c u) (hc : c ≠ 0)
    (hs : spend c = some c') : Remains n c' (u + 1) := by
  unfold CountedQueue.spend at hs
  unfold Remains at h ⊢
  split at hs
  · cases hs
  · split at hs <;> cases hs <;> omega

/-- The last use. -/
theorem Remains.last {n c : Int} {u : ℕ} (h : Remains n c u) (hs : CountedQueue.spend c = none) :
    1 ≤ n ∧ ((u + 1 : ℕ) : Int) = n := by
  unfold CountedQueue.spend at hs
  unfold Remains at h
  split at hs
  · omega
  · split at hs <;> cases hs

/-- The log accounts for the bag. -/
structure Balanced (next : ℕ) (bag : Multiset (ℕ × Int)) (log : List Entry) : Prop where
  nodup : (bag.map Prod.fst).Nodup
  bounded : Bounded next log
  unique : ∀ p n n', .registered p n ∈ log → .registered p n' ∈ log → n = n'
  held : ∀ p c, (p, c) ∈ bag →
    ∃ n, .registered p n ∈ log ∧ Remains n c (log.count (.used p))
  gone : ∀ p n, .registered p n ∈ log → p ∉ bag.map Prod.fst →
    1 ≤ n ∧ (log.count (.used p) : Int) = n

/-- Nothing was registered yet. -/
theorem balanced_nil (next : ℕ) : Balanced next 0 [] where
  nodup := by simp
  bounded := by intro e he; cases he
  unique := by intro p n n' h; cases h
  held := by intro p c h; cases h
  gone := by intro p n h; cases h

namespace Balanced

variable {next : ℕ} {bag bag' : Multiset (ℕ × Int)} {log : List Entry}

theorem mono {next' : ℕ} (h : Balanced next bag log) (hn : next ≤ next') :
    Balanced next' bag log := { h with bounded := h.bounded.mono hn }

theorem lt_next (h : Balanced next bag log) {p : ℕ} (hp : p ∈ bag.map Prod.fst) : p < next := by
  obtain ⟨⟨p', c⟩, hm, rfl⟩ := Multiset.mem_map.mp hp
  obtain ⟨n, hr, -⟩ := h.held p' c hm
  exact h.bounded _ hr

/-- Registering the next number. -/
theorem register (h : Balanced next bag log) (n : Int) :
    Balanced (next + 1) ((next, n) ::ₘ bag) (log ++ [.registered next n]) := by
  have hfresh : ∀ m, Entry.registered next m ∉ log := fun m => h.bounded.not_mem rfl
  have hcount : ∀ p, (log ++ [Entry.registered next n]).count (.used p) = log.count (.used p) := by
    intro p
    simp [List.count_append]
  refine { nodup := ?nodup, bounded := ?bounded, unique := ?unique, held := ?held, gone := ?gone }
  case nodup =>
    rw [Multiset.map_cons, Multiset.nodup_cons]
    exact ⟨fun hm => absurd (h.lt_next hm) (lt_irrefl _), h.nodup⟩
  case bounded =>
    refine (h.bounded.mono (Nat.le_succ _)).append fun e he => ?_
    rw [List.mem_singleton.mp he]
    exact Nat.lt_succ_self _
  case unique =>
    intro p m m' hm hm'
    rw [List.mem_append, List.mem_singleton] at hm hm'
    rcases hm with hm | hm <;> rcases hm' with hm' | hm'
    · exact h.unique p m m' hm hm'
    · cases hm'
      exact absurd hm (hfresh m)
    · cases hm
      exact absurd hm' (hfresh m')
    · cases hm
      cases hm'
      rfl
  case held =>
    intro p c hm
    rw [hcount]
    rcases Multiset.mem_cons.mp hm with he | hm
    · cases he
      refine ⟨n, by simp, ?_⟩
      rw [List.count_eq_zero.mpr (h.bounded.not_mem rfl)]
      exact remains_self n
    · obtain ⟨m, hr, hrem⟩ := h.held p c hm
      exact ⟨m, by simp [hr], hrem⟩
  case gone =>
    intro p m hr hp
    rw [hcount]
    rw [Multiset.map_cons, Multiset.mem_cons, not_or] at hp
    rw [List.mem_append, List.mem_singleton] at hr
    rcases hr with hr | hr
    · exact h.gone p m hr hp.2
    · cases hr
      exact absurd rfl hp.1

/-- Using an entry with a non-zero count. -/
theorem use {p : ℕ} {c : Int} (h : Balanced next bag log) (hu : Uses p c bag bag') (hc : c ≠ 0) :
    Balanced next bag' (log ++ [.used p]) := by
  obtain ⟨rest, rfl, rfl⟩ := hu
  obtain ⟨n, hreg, hrem⟩ := h.held p c (Multiset.mem_cons_self _ _)
  have hnd := h.nodup
  rw [Multiset.map_cons, Multiset.nodup_cons] at hnd
  have hreg' : ∀ {q m}, Entry.registered q m ∈ log ++ [.used p] ↔ .registered q m ∈ log := by
    intro q m
    simp
  have hself : (log ++ [Entry.used p]).count (.used p) = log.count (.used p) + 1 := by
    simp [List.count_append]
  have hother : ∀ q, q ≠ p → (log ++ [Entry.used p]).count (.used q) = log.count (.used q) := by
    intro q hq
    simp [List.count_append, Ne.symm hq]
  refine { nodup := ?nodup, bounded := ?bounded, unique := ?unique, held := ?held, gone := ?gone }
  case nodup =>
    cases spend c with
    | none => simpa using hnd.2
    | some c' => simpa using hnd
  case bounded =>
    refine h.bounded.append fun e he => ?_
    rw [List.mem_singleton.mp he]
    exact h.lt_next (by simp [Entry.id])
  case unique =>
    intro q m m' hm hm'
    exact h.unique q m m' (hreg'.mp hm) (hreg'.mp hm')
  case held =>
    intro q c' hm
    rcases Multiset.mem_add.mp hm with hm | hm
    · obtain ⟨c'', hs, he⟩ := Option.map_eq_some_iff.mp (Option.mem_toList.mp hm)
      cases he
      exact ⟨n, hreg'.mpr hreg, by rw [hself]; exact hrem.spend hc hs⟩
    · have hq : q ≠ p := fun he => hnd.1 (Multiset.mem_map.mpr ⟨(q, c'), hm, he⟩)
      obtain ⟨m, hr, hrem'⟩ := h.held q c' (Multiset.mem_cons_of_mem hm)
      exact ⟨m, hreg'.mpr hr, by rw [hother q hq]; exact hrem'⟩
  case gone =>
    intro q m hr hq
    rw [Multiset.map_add, Multiset.mem_add, not_or] at hq
    by_cases hqp : q = p
    · subst hqp
      obtain rfl := h.unique q n m hreg (hreg'.mp hr)
      have hs : spend c = none := by
        cases hs : spend c with
        | none => rfl
        | some c' => exact absurd (by simp [hs]) hq.1
      rw [hself]
      exact hrem.last hs
    · rw [hother q hqp]
      refine h.gone q m (hreg'.mp hr) fun hm => ?_
      rw [Multiset.map_cons, Multiset.mem_cons] at hm
      exact hm.elim hqp hq.2

/-- **Settlement.**  When only optional entries are left, every positive count was used exactly
that often, and every `-1` at least once. -/
theorem settled (h : Balanced next bag log) (hopt : ∀ e ∈ bag, e.2 < -1) {p : ℕ} {n : Int}
    (hr : .registered p n ∈ log) :
    (1 ≤ n → (log.count (.used p) : Int) = n) ∧ (n = -1 → 1 ≤ log.count (.used p)) := by
  by_cases hp : p ∈ bag.map Prod.fst
  · obtain ⟨⟨p', c⟩, hm, he⟩ := Multiset.mem_map.mp hp
    obtain rfl : p' = p := he
    obtain ⟨m, hr', hrem⟩ := h.held p' c hm
    obtain rfl := h.unique p' n m hr hr'
    have hc : c < -1 := hopt _ hm
    unfold Remains at hrem
    constructor
    · intro hn
      omega
    · intro hn
      omega
  · obtain ⟨h1, h2⟩ := h.gone p n hr hp
    exact ⟨fun _ => h2, fun he => absurd h1 (by omega)⟩

end Balanced

/-! ### Releases -/

/-- No number is used after its release. -/
def UsedInTime (log : List Entry) : Prop :=
  ∀ before e after, log = before ++ e :: after → ∀ p, e = .used p → .released p ∉ before

/-- What is not a use may follow. -/
theorem UsedInTime.append {log log' : List Entry} (h : UsedInTime log)
    (h' : ∀ p, .used p ∉ log') : UsedInTime (log ++ log') := by
  intro before e after heq p he
  rcases append_eq_split.mp heq with ⟨mid, hlog, -⟩ | ⟨mid, -, hlog'⟩
  · exact h before e mid hlog p he
  · subst he
    exact absurd (hlog' ▸ List.mem_append_right mid List.mem_cons_self) (h' p)

/-- A use of a number that was not released may follow. -/
theorem UsedInTime.use {log : List Entry} (h : UsedInTime log) {p : ℕ}
    (hp : .released p ∉ log) : UsedInTime (log ++ [.used p]) := by
  refine forall_concat.mpr ⟨h, fun q hq => ?_⟩
  cases hq
  exact hp

/-- The log releases exactly the numbers that left the bag. -/
structure Owned (next : ℕ) (ids : Multiset ℕ) (log : List Entry) : Prop where
  nodup : ids.Nodup
  bounded : Bounded next log
  known : ∀ p, .released p ∈ log → ∃ n, .registered p n ∈ log
  held : ∀ p ∈ ids, (∃ n, .registered p n ∈ log) ∧ .released p ∉ log
  gone : ∀ p n, .registered p n ∈ log → p ∉ ids → log.count (.released p) = 1
  inTime : UsedInTime log

theorem owned_nil (next : ℕ) : Owned next 0 [] where
  nodup := by simp
  bounded := by intro e he; cases he
  known := by intro p h; cases h
  held := by intro p h; cases h
  gone := by intro p n h; cases h
  inTime := by intro before e after h; simp at h

namespace Owned

variable {next : ℕ} {ids ids' : Multiset ℕ} {log : List Entry}

theorem mono {next' : ℕ} (h : Owned next ids log) (hn : next ≤ next') : Owned next' ids log :=
  { h with bounded := h.bounded.mono hn }

theorem lt_next (h : Owned next ids log) {p : ℕ} (hp : p ∈ ids) : p < next := by
  obtain ⟨⟨n, hr⟩, -⟩ := h.held p hp
  exact h.bounded _ hr

/-- Registering the next number. -/
theorem register (h : Owned next ids log) (n : Int) :
    Owned (next + 1) (next ::ₘ ids) (log ++ [.registered next n]) := by
  have hcount : ∀ p, (log ++ [Entry.registered next n]).count (.released p) =
      log.count (.released p) := by
    intro p
    simp [List.count_append]
  refine { nodup := ?nodup, bounded := ?bounded, known := ?known, held := ?held, gone := ?gone,
           inTime := ?inTime }
  case inTime =>
    exact h.inTime.append fun p hp => Entry.noConfusion (List.mem_singleton.mp hp)
  case nodup =>
    exact Multiset.nodup_cons.mpr ⟨fun hm => absurd (h.lt_next hm) (lt_irrefl _), h.nodup⟩
  case bounded =>
    refine (h.bounded.mono (Nat.le_succ _)).append fun e he => ?_
    rw [List.mem_singleton.mp he]
    exact Nat.lt_succ_self _
  case known =>
    intro p hp
    simp only [List.mem_append, List.mem_singleton, reduceCtorEq, or_false] at hp
    obtain ⟨m, hr⟩ := h.known p hp
    exact ⟨m, by simp [hr]⟩
  case held =>
    intro p hp
    rcases Multiset.mem_cons.mp hp with rfl | hp
    · refine ⟨⟨n, by simp⟩, ?_⟩
      simpa using h.bounded.not_mem (e := .released p) rfl
    · obtain ⟨⟨m, hr⟩, hnr⟩ := h.held p hp
      exact ⟨⟨m, by simp [hr]⟩, by simpa using hnr⟩
  case gone =>
    intro p m hr hp
    rw [hcount]
    rw [Multiset.mem_cons, not_or] at hp
    rw [List.mem_append, List.mem_singleton] at hr
    rcases hr with hr | hr
    · exact h.gone p m hr hp.2
    · cases hr
      exact absurd rfl hp.1

/-- Using a number in the bag. -/
theorem use (h : Owned next ids log) {p : ℕ} (hp : p ∈ ids) :
    Owned next ids (log ++ [.used p]) where
  nodup := h.nodup
  bounded := h.bounded.append fun e he => (List.mem_singleton.mp he).symm ▸ h.lt_next hp
  known q hq := by
    obtain ⟨n, hn⟩ := h.known q (by simpa using hq)
    exact ⟨n, by simp [hn]⟩
  held q hq := by
    obtain ⟨⟨n, hn⟩, hnot⟩ := h.held q hq
    exact ⟨⟨n, by simp [hn]⟩, by simpa using hnot⟩
  gone q n hq hout := by
    have hcount := h.gone q n (by simpa using hq) hout
    simpa [List.count_append] using hcount
  inTime := h.inTime.use (h.held p hp).2

/-- Numbers leave the bag and are released. -/
theorem release {released : List ℕ} (h : Owned next ids log) (hids : ids = released + ids') :
    Owned next ids' (log ++ released.map .released) := by
  subst hids
  have hnd := Multiset.nodup_add.mp h.nodup
  have hmem : ∀ {p m}, Entry.registered p m ∈ log ++ released.map .released ↔
      .registered p m ∈ log := by
    intro p m
    simp
  have hcount : ∀ p, (log ++ released.map Entry.released).count (.released p) =
      log.count (.released p) + released.count p := by
    intro p
    rw [List.count_append]
    congr 1
    exact List.count_map_of_injective released _ (fun a b hab => by cases hab; rfl) p
  refine { nodup := ?nodup, bounded := ?bounded, known := ?known, held := ?held, gone := ?gone,
           inTime := ?inTime }
  case inTime =>
    refine h.inTime.append fun p hp => ?_
    obtain ⟨q, -, hq⟩ := List.mem_map.mp hp
    cases hq
  case nodup =>
    exact hnd.2.1
  case bounded =>
    refine h.bounded.append fun e he => ?_
    obtain ⟨p, hp, rfl⟩ := List.mem_map.mp he
    exact h.lt_next (Multiset.mem_add.mpr (.inl (Multiset.mem_coe.mpr hp)))
  case known =>
    intro p hp
    rcases List.mem_append.mp hp with hp | hp
    · obtain ⟨m, hr⟩ := h.known p hp
      exact ⟨m, hmem.mpr hr⟩
    · obtain ⟨q, hq, he⟩ := List.mem_map.mp hp
      cases he
      obtain ⟨⟨m, hr⟩, -⟩ := h.held p (Multiset.mem_add.mpr (.inl (Multiset.mem_coe.mpr hq)))
      exact ⟨m, hmem.mpr hr⟩
  case held =>
    intro p hp
    obtain ⟨⟨m, hr⟩, hnr⟩ := h.held p (Multiset.mem_add.mpr (.inr hp))
    refine ⟨⟨m, hmem.mpr hr⟩, fun hm => ?_⟩
    rcases List.mem_append.mp hm with hm | hm
    · exact hnr hm
    · obtain ⟨q, hq, he⟩ := List.mem_map.mp hm
      cases he
      exact Multiset.disjoint_left.mp hnd.2.2 (Multiset.mem_coe.mpr hq) hp
  case gone =>
    intro p m hr hp
    rw [hcount]
    by_cases hq : p ∈ released
    · have hheld := h.held p (Multiset.mem_add.mpr (.inl (Multiset.mem_coe.mpr hq)))
      rw [List.count_eq_zero.mpr hheld.2,
        List.count_eq_one_of_mem (Multiset.coe_nodup.mp hnd.1) hq]
    · rw [List.count_eq_zero.mpr hq]
      refine h.gone p m (hmem.mp hr) fun hm => ?_
      rcases Multiset.mem_add.mp hm with hm | hm
      · exact hq (Multiset.mem_coe.mp hm)
      · exact hp hm

/-- Nothing is released twice. -/
theorem count_le_one (h : Owned next ids log) (p : ℕ) : log.count (.released p) ≤ 1 := by
  by_cases hr : .released p ∈ log
  · obtain ⟨n, hreg⟩ := h.known p hr
    by_cases hp : p ∈ ids
    · exact absurd hr (h.held p hp).2
    · exact le_of_eq (h.gone p n hreg hp)
  · rw [List.count_eq_zero.mpr hr]
    exact Nat.zero_le 1

end Owned

end Ledger
