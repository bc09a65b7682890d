import Mathlib.Data.List.Nodup
import Mathlib.Logic.Function.Basic

/-!
# Support — doubly linked rings

A circular doubly linked list is two partial functions, the links forward and the links back.  A
path of links (`Path`) is a list of the places it goes through; a ring is a path from the head to
itself in each direction, over a list and its reversal, without a repetition (`IsRing`).  Both
directions change alike, so linking a place in at the end and unlinking one are each one fact about
paths, used twice (`IsRing.link`, `IsRing.unlink`).
-/

namespace Ring

variable {α : Type} {f g next prev : α → Option α} {head a b x z : α} {l l' : List α}

/-- Following `f` from `a` leads through `l` to `z`. -/
def Path (f : α → Option α) : α → List α → α → Prop
  | a, [], z => f a = some z
  | a, b :: l, z => f a = some b ∧ Path f b l z

/-- The ring from `head` through `l`, forward by `next` and back by `prev`. -/
structure IsRing (next prev : α → Option α) (head : α) (l : List α) : Prop where
  nodup : (head :: l).Nodup
  forward : Path next head l head
  back : Path prev head l.reverse head

theorem path_append : Path f a (l ++ b :: l') z ↔ Path f a l b ∧ Path f b l' z := by
  induction l generalizing a with
  | nil => rfl
  | cons c l ih => simp only [List.cons_append, Path, ih, and_assoc]

/-- A path depends on the links of the places it leaves. -/
theorem Path.congr (h : Path f a l z) (hfg : ∀ c ∈ a :: l, g c = f c) : Path g a l z := by
  induction l generalizing a with
  | nil =>
      have ha := hfg a List.mem_cons_self
      exact ha.trans h
  | cons b l ih =>
      have ha := hfg a List.mem_cons_self
      exact ⟨ha.trans h.1, ih h.2 fun c hc => hfg c (List.mem_cons_of_mem a hc)⟩

/-- The same path from another place with the same link. -/
theorem Path.rebase (h : Path f a l z) (hb : g b = f a) (hfg : ∀ c ∈ l, g c = f c) :
    Path g b l z := by
  cases l with
  | nil => exact hb.trans h
  | cons c l => exact ⟨hb.trans h.1, h.2.congr hfg⟩

/-- The first place of a path. -/
theorem Path.first (h : Path f a l z) : f a = some (l.headD z) := by
  cases l with
  | nil => exact h
  | cons b l => exact h.1

/-- Every place a path leaves has a link. -/
theorem Path.isSome (h : Path f a l z) (hx : x ∈ a :: l) : (f x).isSome := by
  induction l generalizing a with
  | nil =>
      rw [List.mem_singleton.mp hx, Path.first h]
      rfl
  | cons b l ih =>
      rcases List.mem_cons.mp hx with rfl | hx
      · rw [h.1]
        rfl
      · exact ih h.2 hx

theorem headD_reverse (l : List α) (z : α) : l.reverse.headD z = l.getLastD z := by
  rw [List.headD_eq_head?_getD, List.head?_reverse, List.getLastD_eq_getLast?]

theorem getLastD_mem (l : List α) (z : α) : l.getLastD z ∈ z :: l := by
  rcases List.eq_nil_or_concat' l with rfl | ⟨l, a, rfl⟩
  · exact List.mem_cons_self
  · rw [List.getLastD_concat]
    simp

/-- A ring depends on the links of its places. -/
theorem IsRing.congr {next' prev' : α → Option α} (h : IsRing next prev head l)
    (hnext : ∀ c ∈ head :: l, next' c = next c) (hprev : ∀ c ∈ head :: l, prev' c = prev c) :
    IsRing next' prev' head l where
  nodup := h.nodup
  forward := h.forward.congr hnext
  back := h.back.congr fun c hc => hprev c (by simpa using hc)

/-- The neighbours of a place of a ring. -/
theorem IsRing.neighbours (h : IsRing next prev head (l ++ x :: l')) :
    prev x = some (l.getLastD head) ∧ next x = some (l'.headD head) := by
  refine ⟨?_, (path_append.mp h.forward).2.first⟩
  have hback := h.back
  rw [List.reverse_append, List.reverse_cons, List.append_assoc, List.singleton_append] at hback
  rw [← headD_reverse]
  exact (path_append.mp hback).2.first

section Update

variable [DecidableEq α]

/-- A path to `z` is led on through `x`. -/
theorem Path.extend (h : Path f a l z) (hnd : (a :: l).Nodup) (hx : x ∉ a :: l) :
    Path (Function.update (Function.update f x (some z)) (l.getLastD a) (some x)) a (l ++ [x]) z := by
  have hlink : l.getLastD a ≠ x := fun he => hx (he ▸ getLastD_mem l a)
  rw [path_append]
  refine ⟨?_, ?_⟩
  · rcases List.eq_nil_or_concat' l with rfl | ⟨l, b, rfl⟩
    · exact Function.update_self _ _ _
    · rw [path_append] at h ⊢
      rw [List.getLastD_concat]
      refine ⟨h.1.congr fun c hc => ?_, Function.update_self _ _ _⟩
      have hcb : c ≠ b := by
        rintro rfl
        exact (List.nodup_append.mp hnd).2.2 c hc c List.mem_cons_self rfl
      have hcx : c ≠ x := by
        rintro rfl
        exact hx (List.mem_append_left [b] hc)
      rw [Function.update_of_ne hcb, Function.update_of_ne hcx]
  · exact (Function.update_of_ne hlink.symm _ _).trans (Function.update_self _ _ _)

/-- A path is led past `x`. -/
theorem Path.bypass (h : Path f a (l ++ x :: l') z) (hnd : (a :: l ++ x :: l').Nodup) :
    Path (Function.update f (l.getLastD a) (f x)) a (l ++ l') z := by
  obtain ⟨hl, hl'⟩ := path_append.mp h
  have hlast : ∀ c ∈ l', c ≠ l.getLastD a := by
    rintro c hc rfl
    exact (List.nodup_append.mp hnd).2.2 _ (getLastD_mem l a) _ (List.mem_cons_of_mem x hc) rfl
  have hpast : Path (Function.update f (l.getLastD a) (f x)) (l.getLastD a) l' z :=
    hl'.rebase (Function.update_self _ _ _) fun c hc => Function.update_of_ne (hlast c hc) _ _
  rcases List.eq_nil_or_concat' l with rfl | ⟨l, b, rfl⟩
  · exact hpast
  · rw [List.getLastD_concat] at hpast ⊢
    rw [List.append_assoc, List.singleton_append, path_append]
    refine ⟨(path_append.mp hl).1.congr fun c hc => ?_, hpast⟩
    have hcb : c ≠ b := by
      rintro rfl
      have hnd' := (List.nodup_append.mp hnd).1
      exact (List.nodup_append.mp hnd').2.2 c hc c List.mem_cons_self rfl
    exact Function.update_of_ne hcb _ _

/-- Linking `x` in at the end. -/
theorem IsRing.link (h : IsRing next prev head l) (hx : x ∉ head :: l) :
    IsRing (Function.update (Function.update next x (some head)) (l.getLastD head) (some x))
      (Function.update (Function.update prev x (some (l.getLastD head))) head (some x))
      head (l ++ [x]) where
  nodup := by
    rw [← List.cons_append, List.nodup_append]
    refine ⟨h.nodup, List.nodup_singleton x, ?_⟩
    rintro c hc d hd rfl
    exact hx (List.mem_singleton.mp hd ▸ hc)
  forward := h.forward.extend h.nodup hx
  back := by
    obtain ⟨hhx, hxl⟩ := not_or.mp (mt List.mem_cons.mpr hx)
    rw [List.reverse_append, List.reverse_singleton, List.singleton_append]
    refine ⟨Function.update_self _ _ _, h.back.rebase ?_ ?_⟩
    · rw [Function.update_of_ne hhx, Function.update_self, h.back.first, headD_reverse]
    · intro c hc
      have hcl := List.mem_reverse.mp hc
      have hch : c ≠ head := by
        rintro rfl
        exact (List.nodup_cons.mp h.nodup).1 hcl
      have hcx : c ≠ x := by
        rintro rfl
        exact hxl hcl
      rw [Function.update_of_ne hch, Function.update_of_ne hcx]

/-- Unlinking `x`. -/
theorem IsRing.unlink (h : IsRing next prev head (l ++ x :: l')) :
    IsRing (Function.update next (l.getLastD head) (some (l'.headD head)))
      (Function.update prev (l'.headD head) (some (l.getLastD head))) head (l ++ l') where
  nodup := h.nodup.sublist ((List.sublist_append_right [x] l').append_left l |>.cons_cons head)
  forward := by
    rw [← h.neighbours.2]
    exact h.forward.bypass h.nodup
  back := by
    have hback := h.back
    have hnd : (head :: l'.reverse ++ x :: l.reverse).Nodup := by
      have hperm : (l ++ x :: l').Perm (l'.reverse ++ x :: l.reverse) := by
        simpa using (List.reverse_perm (l ++ x :: l')).symm
      exact (hperm.cons head).nodup_iff.mp h.nodup
    rw [List.reverse_append, List.reverse_cons, List.append_assoc, List.singleton_append] at hback
    rw [← h.neighbours.1, List.reverse_append]
    have hlast : l'.headD head = l'.reverse.getLastD head := by
      rw [← headD_reverse, List.reverse_reverse]
    rw [hlast]
    exact hback.bypass hnd

end Update

end Ring
