import Cmocka.Support.Ring
import Cmocka.Model.Lists

/-!
# Alloc — the links of a list

A heap of `ListNode`s seen through its fields: where a node's `next` and `prev` lead and what its
`value` is.  `list_add` and `list_remove` are assignments to these fields, and what they do to a
ring is what `Ring.IsRing.link` and `Ring.IsRing.unlink` say (`listAdd_ring`, `listRemove_ring`).
-/

namespace Cmocka

open Ring

namespace NodeHeap

variable {α : Type}

/-- `a->next`. -/
def nextOf (H : NodeHeap α) (a : α) : Option α := (H a).map ListNode.next

/-- `a->prev`. -/
def prevOf (H : NodeHeap α) (a : α) : Option α := (H a).map ListNode.prev

/-- `a->value`. -/
def valueOf (H : NodeHeap α) (a : α) : Option Addr := (H a).map ListNode.value

/-- The nodes of `H` are a ring from `head` through `l`. -/
abbrev Rings (H : NodeHeap α) (head : α) (l : List α) : Prop := IsRing H.nextOf H.prevOf head l

theorem exists_of_nextOf {H : NodeHeap α} {a : α} (h : (H.nextOf a).isSome) :
    ∃ n, H a = some n := by
  rwa [nextOf, Option.isSome_map, Option.isSome_iff_exists] at h

variable [DecidableEq α]

theorem nextOf_update (H : NodeHeap α) (a : α) (n : Option (ListNode α)) :
    nextOf (Function.update H a n) = Function.update H.nextOf a (n.map ListNode.next) :=
  funext fun b => Function.apply_update (fun _ => Option.map ListNode.next) H a n b

theorem prevOf_update (H : NodeHeap α) (a : α) (n : Option (ListNode α)) :
    prevOf (Function.update H a n) = Function.update H.prevOf a (n.map ListNode.prev) :=
  funext fun b => Function.apply_update (fun _ => Option.map ListNode.prev) H a n b

theorem valueOf_update (H : NodeHeap α) (a : α) (n : Option (ListNode α)) :
    valueOf (Function.update H a n) = Function.update H.valueOf a (n.map ListNode.value) :=
  funext fun b => Function.apply_update (fun _ => Option.map ListNode.value) H a n b

/-- A node outside a ring may be overwritten. -/
theorem Rings.update {H : NodeHeap α} {head a : α} {l : List α} (h : H.Rings head l)
    (ha : a ∉ head :: l) (n : Option (ListNode α)) :
    Rings (Function.update H a n) head l := by
  have hne : ∀ c ∈ head :: l, c ≠ a := by
    rintro c hc rfl
    exact ha hc
  refine h.congr (fun c hc => ?_) fun c hc => ?_
  · rw [nextOf_update, Function.update_of_ne (hne c hc)]
  · rw [prevOf_update, Function.update_of_ne (hne c hc)]

/-- An assignment to `a->next`. -/
theorem modify_next {H : NodeHeap α} {a b : α} (h : (H.nextOf a).isSome) :
    ∃ H', H.modify a (fun n => { n with next := b }) = some H' ∧
      H'.nextOf = Function.update H.nextOf a (some b) ∧ H'.prevOf = H.prevOf := by
  obtain ⟨n, hn⟩ := exists_of_nextOf h
  refine ⟨_, by rw [modify, hn]; rfl, nextOf_update _ _ _, ?_⟩
  rw [prevOf_update, Function.update_eq_self_iff, prevOf, hn]
  rfl

/-- An assignment to `a->prev`. -/
theorem modify_prev {H : NodeHeap α} {a b : α} (h : (H.nextOf a).isSome) :
    ∃ H', H.modify a (fun n => { n with prev := b }) = some H' ∧
      H'.nextOf = H.nextOf ∧ H'.prevOf = Function.update H.prevOf a (some b) := by
  obtain ⟨n, hn⟩ := exists_of_nextOf h
  refine ⟨_, by rw [modify, hn]; rfl, ?_, prevOf_update _ _ _⟩
  rw [nextOf_update, Function.update_eq_self_iff, nextOf, hn]
  rfl

/-- An assignment to a field of one node leaves the others. -/
theorem modify_of_ne {f : ListNode α → ListNode α} {H H' : NodeHeap α} {a b : α}
    (h : H.modify a f = some H') (hb : b ≠ a) : H' b = H b := by
  obtain ⟨n, -, rfl⟩ := Option.map_eq_some_iff.mp h
  exact Function.update_of_ne hb _ _

/-- An assignment to a field leaves what does not read the field. -/
theorem modify_map {β : Type} {g : ListNode α → β} {f : ListNode α → ListNode α} {H H' : NodeHeap α}
    {a : α} (h : H.modify a f = some H') (hg : ∀ n, g (f n) = g n) (b : α) :
    (H' b).map g = (H b).map g := by
  obtain ⟨n, hn, rfl⟩ := Option.map_eq_some_iff.mp h
  by_cases hb : b = a
  · rw [hb, Function.update_self, hn, Option.map_some, Option.map_some, hg]
  · rw [Function.update_of_ne hb]

end NodeHeap

open NodeHeap

variable {α : Type} [DecidableEq α] {H H' : NodeHeap α} {head x : α} {l l' : List α}

section Contents

variable {β : Type} {g : ListNode α → β} (hnext : ∀ n a, g { n with next := a } = g n)
  (hprev : ∀ n a, g { n with prev := a } = g n)

include hnext hprev

/-- `list_add` writes to links only. -/
theorem listAdd_map (h : listAdd head x H = some H') (b : α) : (H' b).map g = (H b).map g := by
  simp only [listAdd, Option.bind_eq_bind, Option.bind_eq_some_iff] at h
  obtain ⟨H₁, e₁, n₁, -, H₂, e₂, n₂, -, H₃, e₃, e₄⟩ := h
  rw [modify_map e₄ fun n => hprev n _, modify_map e₃ fun n => hnext n _,
    modify_map e₂ fun n => hprev n _, modify_map e₁ fun n => hnext n _]

/-- `list_remove` writes to links only. -/
theorem listRemove_map (h : listRemove x H = some H') (b : α) : (H' b).map g = (H b).map g := by
  simp only [listRemove, Option.bind_eq_bind, Option.bind_eq_some_iff] at h
  obtain ⟨n₁, -, H₁, e₁, n₂, -, e₂⟩ := h
  rw [modify_map e₂ fun n => hprev n _, modify_map e₁ fun n => hnext n _]

end Contents

theorem listAdd_valueOf (h : listAdd head x H = some H') : H'.valueOf = H.valueOf :=
  funext (listAdd_map (fun _ _ => rfl) (fun _ _ => rfl) h)

theorem listRemove_valueOf (h : listRemove x H = some H') : H'.valueOf = H.valueOf :=
  funext (listRemove_map (fun _ _ => rfl) (fun _ _ => rfl) h)

/-- `list_add` of a node that is not in the ring. -/
theorem listAdd_ring (h : H.Rings head l) (hx : x ∉ head :: l) (hxs : (H.nextOf x).isSome) :
    ∃ H', listAdd head x H = some H' ∧ H'.Rings head (l ++ [x]) := by
  have hhx : head ≠ x := fun he => hx (he ▸ List.mem_cons_self)
  have hlast := getLastD_mem l head
  have hlx : l.getLastD head ≠ x := fun he => hx (he ▸ hlast)
  have hprev : H.prevOf head = some (l.getLastD head) := by
    rw [h.back.first, headD_reverse]
  -- the two assignments to the new node
  obtain ⟨H₁, e₁, hn₁, hp₁⟩ := modify_next (b := head) hxs
  obtain ⟨n₁, hh₁, hl₁⟩ := Option.map_eq_some_iff.mp ((congrFun hp₁ head).trans hprev)
  obtain ⟨H₂, e₂, hn₂, hp₂⟩ := modify_prev (H := H₁) (a := x) (b := l.getLastD head)
    (by rw [hn₁, Function.update_self]; rfl)
  have hprev₂ : H₂.prevOf head = some (l.getLastD head) := by
    rw [hp₂, Function.update_of_ne hhx, hp₁, hprev]
  -- the assignments to its neighbours
  obtain ⟨n₂, hh₂, hl₂⟩ := Option.map_eq_some_iff.mp hprev₂
  obtain ⟨H₃, e₃, hn₃, hp₃⟩ := modify_next (H := H₂) (a := l.getLastD head) (b := x)
    (by rw [hn₂, hn₁, Function.update_of_ne hlx]; exact h.forward.isSome hlast)
  obtain ⟨H₄, e₄, hn₄, hp₄⟩ := modify_prev (H := H₃) (a := head) (b := x) (by
    rw [hn₃, hn₂, hn₁]
    by_cases hhl : head = l.getLastD head
    · rw [← hhl, Function.update_self]
      rfl
    · rw [Function.update_of_ne hhl, Function.update_of_ne hhx]
      exact h.forward.isSome List.mem_cons_self)
  refine ⟨H₄, ?_, ?_⟩
  · simp only [listAdd, Option.bind_eq_bind, e₁, hh₁, hl₁, e₂, hh₂, hl₂, e₃, e₄, Option.bind_some]
  · have hring := h.link hx
    rwa [← hn₁, ← hn₂, ← hn₃, ← hn₄, ← hp₁, ← hp₂, ← hp₃, ← hp₄] at hring

/-- `list_remove` of a node of the ring; the nodes outside of the ring keep their links. -/
theorem listRemove_ring (h : H.Rings head (l ++ x :: l')) :
    ∃ H', listRemove x H = some H' ∧ H'.Rings head (l ++ l') ∧
      ∀ a ∉ head :: (l ++ x :: l'), H' a = H a := by
  obtain ⟨hprev, hnext⟩ := h.neighbours
  have hlast : l.getLastD head ∈ head :: l := getLastD_mem l head
  have hlx : x ≠ l.getLastD head := by
    intro he
    exact (List.nodup_append.mp (List.cons_append ▸ h.nodup)).2.2 _ hlast x List.mem_cons_self
      he.symm
  have hhead : l'.headD head ∈ head :: (l ++ x :: l') := by
    cases l' with
    | nil => exact List.mem_cons_self
    | cons y l' => simp
  have hfields : ∀ {K : NodeHeap α}, K.prevOf x = some (l.getLastD head) →
      K.nextOf x = some (l'.headD head) →
      ∃ n, K x = some n ∧ n.prev = l.getLastD head ∧ n.next = l'.headD head := by
    intro K hKp hKn
    obtain ⟨n, hn, hnp⟩ := Option.map_eq_some_iff.mp hKp
    rw [nextOf, hn] at hKn
    exact ⟨n, hn, hnp, Option.some.inj hKn⟩
  -- the node is read twice, before and after the first assignment
  obtain ⟨n, hx, hp, hn⟩ := hfields hprev hnext
  obtain ⟨H₁, e₁, hn₁, hp₁⟩ := modify_next (H := H) (a := l.getLastD head)
    (b := l'.headD head) (h.forward.isSome (List.mem_append_left (x :: l') hlast))
  obtain ⟨n₁, hx₁, hpx₁, hnx₁⟩ := hfields (hp₁ ▸ hprev)
    (by rw [hn₁, Function.update_of_ne hlx, hnext])
  obtain ⟨H₂, e₂, hn₂, hp₂⟩ := modify_prev (H := H₁) (a := l'.headD head)
    (b := l.getLastD head) (by
      rw [hn₁]
      by_cases hhl : l'.headD head = l.getLastD head
      · rw [hhl, Function.update_self]
        rfl
      · rw [Function.update_of_ne hhl]
        exact h.forward.isSome hhead)
  refine ⟨H₂, ?_, ?_, ?_⟩
  · simp only [listRemove, Option.bind_eq_bind, hx, hp, hn, e₁, hx₁, hpx₁, hnx₁, e₂,
      Option.bind_some]
  · have hring := h.unlink
    rwa [← hn₁, ← hn₂, ← hp₁, ← hp₂] at hring
  · intro a ha
    have h₂ : H₂ a = H₁ a := modify_of_ne e₂ fun he => ha (he ▸ hhead)
    have h₁ : H₁ a = H a :=
      modify_of_ne e₁ fun he => ha (he ▸ List.mem_append_left (x :: l') hlast)
    rw [h₂, h₁]

end Cmocka
