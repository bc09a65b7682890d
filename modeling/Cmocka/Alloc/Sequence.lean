import Cmocka.Alloc.Links

/-!
# Alloc — a list as a sequence

What the list functions do to the sequence of nodes a list runs through.  `NodeHeap.Rings` says that
a head is well formed for a sequence; every function of the list is then the function of the
sequence (`list_refines_sequence`).  Two of the loops delete the node they stand on: the sequence is
what has been passed and what is ahead, and the loop moves the first node ahead to the passed ones or
takes it out.
-/

namespace Cmocka

open Ring

namespace NodeHeap

variable {α σ : Type} {H H' : NodeHeap α} {head x : α} {l l' : List α}

/-- The value of a node. -/
def valueAt (H : NodeHeap α) (a : α) : Addr := (H.valueOf a).getD 0

/-- The reference count of a node. -/
def refcountAt (H : NodeHeap α) (a : α) : Int := ((H a).map ListNode.refcount).getD 0

/-- What a node holds. -/
def entryAt (H : NodeHeap α) (a : α) : Addr × Int := (H.valueAt a, H.refcountAt a)

/-! ### Reading -/

/-- Every node of a ring is in the heap. -/
theorem Rings.exists_node (h : H.Rings head l) (hx : x ∈ head :: l) : ∃ n, H x = some n :=
  exists_of_nextOf (h.forward.isSome hx)

/-- The node at the head and its link. -/
theorem Rings.head_node (h : H.Rings head l) : ∃ n, H head = some n ∧ n.next = l.headD head :=
  Option.map_eq_some_iff.mp h.forward.first

/-- A node of the ring and its link. -/
theorem Rings.node (h : H.Rings head (l ++ x :: l')) :
    ∃ n, H x = some n ∧ n.next = l'.headD head :=
  Option.map_eq_some_iff.mp h.neighbours.2

/-- The first node ahead, or the head, and its link. -/
theorem Rings.ahead (h : H.Rings head (l ++ l')) :
    ∃ n, H (l'.headD head) = some n ∧ H.nextOf (l'.headD head) = some n.next := by
  have hmem : l'.headD head ∈ head :: (l ++ l') := by
    cases l' with
    | nil => exact List.mem_cons_self
    | cons x l' => simp
  obtain ⟨n, hn⟩ := h.exists_node hmem
  exact ⟨n, hn, by rw [nextOf, hn]; rfl⟩

theorem Rings.not_mem_rest (h : H.Rings head (l ++ x :: l')) : x ∉ l ++ l' :=
  (List.nodup_cons.mp (List.nodup_middle.mp (List.nodup_cons.mp h.nodup).2)).1

theorem Rings.ne_head (h : H.Rings head (l ++ x :: l')) : x ≠ head := by
  rintro rfl
  exact (List.nodup_cons.mp h.nodup).1 (by simp)

variable [DecidableEq α]

theorem listEmpty_ring (h : H.Rings head l) : listEmpty head H = some l.isEmpty := by
  obtain ⟨n, hn, hnext⟩ := h.head_node
  rw [listEmpty, hn, Option.bind_eq_bind, Option.bind_some, hnext]
  cases l with
  | nil => simp
  | cons x l => simpa using Rings.ne_head (l := []) h

theorem listFirst_ring (h : H.Rings head l) : listFirst head H = some l.head? := by
  obtain ⟨n, hn, hnext⟩ := h.head_node
  rw [listFirst, listEmpty_ring h, Option.bind_eq_bind, Option.bind_some]
  cases l with
  | nil => rfl
  | cons x l =>
      rw [hn]
      exact congrArg (fun a => some (some a)) hnext

/-- The search from a node on. -/
theorem findLoop_ring (equalFunc : Addr → Addr → Bool) (value : Addr)
    (h : H.Rings head (l ++ l')) {bound : Nat} (hbound : l'.length < bound) :
    findLoop equalFunc head value H bound (l'.headD head) =
      some (l'.find? fun a => equalFunc (H.valueAt a) value) := by
  induction l' generalizing l bound with
  | nil =>
      cases bound with
      | zero => cases hbound
      | succ bound => exact if_pos rfl
  | cons x l' ih =>
      cases bound with
      | zero => cases hbound
      | succ bound =>
          obtain ⟨n, hn, hnext⟩ := h.node
          have hvalue : H.valueAt x = n.value := by rw [valueAt, valueOf, hn]; rfl
          have hrest := ih (l := l ++ [x]) (by simpa using h) (Nat.lt_of_succ_lt_succ hbound)
          rw [List.headD_cons, findLoop, if_neg h.ne_head, hn, Option.bind_eq_bind,
            Option.bind_some, hnext, hrest, List.find?_cons, hvalue]
          cases equalFunc n.value value with
          | true => rfl
          | false => rfl

theorem listFind_ring (equalFunc : Addr → Addr → Bool) (value : Addr) (h : H.Rings head l)
    {bound : Nat} (hbound : l.length < bound) :
    listFind equalFunc head value bound H =
      some (l.find? fun a => equalFunc (H.valueAt a) value) := by
  obtain ⟨n, hn, hnext⟩ := h.head_node
  rw [listFind, hn, Option.bind_eq_bind, Option.bind_some, hnext]
  exact findLoop_ring equalFunc value (l := []) h hbound

/-! ### Taking nodes out -/

/-- `list_remove_free` of a node of the ring. -/
theorem listRemoveFree_ring (cleanup : Addr → σ → σ) (s : σ) (h : H.Rings head (l ++ x :: l')) :
    ∃ H', listRemoveFree (some cleanup) x H s = some (H', cleanup (H.valueAt x) s) ∧
      H'.Rings head (l ++ l') ∧
      ∀ a ≠ x, H'.entryAt a = H.entryAt a := by
  obtain ⟨H₁, hremove, hring, -⟩ := listRemove_ring h
  have hvalues : H₁.valueOf = H.valueOf := listRemove_valueOf hremove
  obtain ⟨n, hn, -⟩ := h.node
  obtain ⟨n₁, hn₁, hvalue⟩ : ∃ n₁, H₁ x = some n₁ ∧ n₁.value = n.value := by
    refine Option.map_eq_some_iff.mp ((congrFun hvalues x).trans ?_)
    rw [valueOf, hn]
    rfl
  have hnotin : x ∉ head :: (l ++ l') := fun hmem =>
    h.not_mem_rest ((List.mem_cons.mp hmem).resolve_left h.ne_head)
  refine ⟨Function.update H₁ x none, ?_, hring.update hnotin _, fun a ha => Prod.ext ?_ ?_⟩
  · have hvalueAt : H.valueAt x = n.value := by rw [valueAt, valueOf, hn]; rfl
    simp only [listRemoveFree, listRemoveCleanup, hremove, Option.bind_eq_bind, Option.bind_some,
      hn₁, hvalue, hvalueAt, Option.pure_def]
  · change valueAt _ a = H.valueAt a
    rw [valueAt, valueOf_update, Function.update_of_ne ha, hvalues]
    rfl
  · change refcountAt _ a = H.refcountAt a
    rw [refcountAt, Function.update_of_ne ha, listRemove_map (fun _ _ => rfl) (fun _ _ => rfl)
      hremove]
    rfl

/-- `list_free` passes the values to the clean-up function in order and leaves the head. -/
theorem listFree_ring (cleanup : Addr → σ → σ) (s : σ) (h : H.Rings head l) {bound : Nat}
    (hbound : l.length < bound) :
    ∃ H', listFree (some cleanup) head bound H s =
        some (H', (l.map H.valueAt).foldl (fun s v => cleanup v s) s) ∧
      H'.Rings head [] := by
  induction l generalizing H s bound with
  | nil =>
      cases bound with
      | zero => cases hbound
      | succ bound =>
          refine ⟨H, ?_, h⟩
          rw [listFree, listEmpty_ring h]
          rfl
  | cons x l ih =>
      cases bound with
      | zero => cases hbound
      | succ bound =>
          obtain ⟨n, hn, hnext⟩ := h.head_node
          obtain ⟨H₁, hfree, hring, hentries⟩ := listRemoveFree_ring (l := []) cleanup s h
          -- the rest is a ring with the values it had
          obtain ⟨H', hrest, hring'⟩ := ih (cleanup (H.valueAt x) s) hring
            (Nat.lt_of_succ_lt_succ hbound)
          have hvalues : l.map H₁.valueAt = l.map H.valueAt := by
            refine List.map_congr_left fun a ha => congrArg Prod.fst (hentries a ?_)
            rintro rfl
            exact Rings.not_mem_rest (l := []) h ha
          refine ⟨H', ?_, hring'⟩
          rw [hvalues] at hrest
          simp only [listFree, listEmpty_ring h, Option.bind_eq_bind, Option.bind_some,
            List.isEmpty_cons, Bool.false_eq_true, if_false, hn, hnext, List.headD_cons, hfree, hrest,
            List.map_cons, List.foldl_cons]

/-! ### Deleting while iterating -/

/-- The loop over the nodes ahead: each of them is visited once, those with a reference count below
`-1` are taken out, and the others join the nodes passed. -/
theorem removeAlwaysLoop_ring (freeValue : Addr → σ → σ) (s : σ) (visited : List α)
    (h : H.Rings head (l ++ l')) {next : α} (hnext : H.nextOf (l'.headD head) = some next)
    {bound : Nat} (hbound : l'.length < bound) :
    ∃ H', removeAlwaysLoop freeValue head bound (l'.headD head) next H s visited =
        some (H', ((l'.filter fun a => H.refcountAt a < -1).map H.valueAt).foldl
          (fun s v => freeValue v s) s, visited ++ l') ∧
      H'.Rings head (l ++ l'.filter fun a => -1 ≤ H.refcountAt a) ∧
      ∀ a ∈ l ++ l'.filter fun a => -1 ≤ H.refcountAt a, H'.entryAt a = H.entryAt a := by
  induction l' generalizing H s visited l next bound with
  | nil =>
      cases bound with
      | zero => cases hbound
      | succ bound =>
          refine ⟨H, ?_, h, fun _ _ => rfl⟩
          rw [List.headD_nil, removeAlwaysLoop, if_pos rfl, List.append_nil]
          rfl
  | cons x l' ih =>
      cases bound with
      | zero => cases hbound
      | succ bound =>
          obtain ⟨n, hn, hnx⟩ := h.node
          have hcount : H.refcountAt x = n.refcount := by rw [refcountAt, hn]; rfl
          -- `next` was read before the node is freed
          have hnext' : next = l'.headD head := by
            rw [List.headD_cons, nextOf, hn] at hnext
            exact (Option.some.inj hnext).symm.trans hnx
          subst hnext'
          by_cases hlow : n.refcount < -1
          · obtain ⟨H₁, hfree, hring, hentries⟩ := listRemoveFree_ring freeValue s h
            obtain ⟨m, hm, hmnext⟩ := hring.ahead
            obtain ⟨H', hloop, hring', hsame⟩ :=
              ih (freeValue (H.valueAt x) s) (visited ++ [x]) hring hmnext
              (Nat.lt_of_succ_lt_succ hbound)
            -- the other nodes hold what they held
            have hothers : ∀ a ∈ l ++ l', H₁.entryAt a = H.entryAt a := by
              intro a ha
              refine hentries a ?_
              rintro rfl
              exact h.not_mem_rest ha
            have hcounts : ∀ a ∈ l', H₁.refcountAt a = H.refcountAt a := fun a ha =>
              congrArg Prod.snd (hothers a (List.mem_append_right l ha))
            have hlower : (l'.filter fun a => H₁.refcountAt a < -1).map H₁.valueAt =
                (l'.filter fun a => H.refcountAt a < -1).map H.valueAt := by
              rw [List.filter_congr fun a ha => by rw [hcounts a ha]]
              exact List.map_congr_left fun a ha => congrArg Prod.fst
                (hothers a (List.mem_append_right l (List.mem_of_mem_filter ha)))
            have hkept : (l'.filter fun a => -1 ≤ H₁.refcountAt a) =
                l'.filter fun a => -1 ≤ H.refcountAt a :=
              List.filter_congr fun a ha => by rw [hcounts a ha]
            rw [hlower] at hloop
            rw [hkept] at hring' hsame
            have hnotge : ¬-1 ≤ n.refcount := Int.not_le.mpr hlow
            have hfilter : ((x :: l').filter fun a => -1 ≤ H.refcountAt a) =
                l'.filter fun a => -1 ≤ H.refcountAt a := by
              simp [hcount, hnotge]
            rw [hfilter]
            refine ⟨H', ?_, hring', fun a ha => (hsame a ha).trans (hothers a ?_)⟩
            · simp only [List.headD_cons, removeAlwaysLoop, h.ne_head, if_false, hn,
                Option.bind_eq_bind, Option.bind_some, hlow, if_true, hfree, hm, hloop]
              simp [hcount, hlow]
            · exact List.Sublist.subset (List.filter_sublist.append_left l) ha
          · have hstep : H.Rings head ((l ++ [x]) ++ l') := by simpa using h
            obtain ⟨m, hm, hmnext⟩ := hstep.ahead
            obtain ⟨H', hloop, hring', hsame⟩ := ih s (visited ++ [x]) hstep hmnext
              (Nat.lt_of_succ_lt_succ hbound)
            have hge : -1 ≤ n.refcount := Int.not_lt.mp hlow
            have hfilter : l ++ ((x :: l').filter fun a => -1 ≤ H.refcountAt a) =
                (l ++ [x]) ++ l'.filter fun a => -1 ≤ H.refcountAt a := by
              simp [hcount, hge]
            rw [hfilter]
            refine ⟨H', ?_, hring', hsame⟩
            simp only [List.headD_cons, removeAlwaysLoop, h.ne_head, if_false, hn,
              Option.bind_eq_bind, Option.bind_some, hlow, hm, hloop]
            simp [hcount, hlow]

theorem removeAlways_ring (freeValue : Addr → σ → σ) (s : σ) (h : H.Rings head l) {bound : Nat}
    (hbound : l.length < bound) :
    ∃ H', removeAlwaysReturnValuesFromList freeValue head bound H s =
        some (H', ((l.filter fun a => H.refcountAt a < -1).map H.valueAt).foldl
          (fun s v => freeValue v s) s, l) ∧
      H'.Rings head (l.filter fun a => -1 ≤ H.refcountAt a) ∧
      ∀ a ∈ l.filter fun a => -1 ≤ H.refcountAt a, H'.entryAt a = H.entryAt a := by
  obtain ⟨n, hn, hnext⟩ := h.head_node
  obtain ⟨m, hm, hmnext⟩ := Rings.ahead (l := []) h
  obtain ⟨H', hloop, hring, hsame⟩ :=
    removeAlwaysLoop_ring (l := []) freeValue s [] h hmnext hbound
  refine ⟨H', ?_, hring, hsame⟩
  simp only [removeAlwaysReturnValuesFromList, hn, Option.bind_eq_bind, Option.bind_some, hnext, hm,
    hloop, List.nil_append]

/-! ### The whole list -/

/-- Every function of a list does what it says to the sequence. -/
structure RefinesSequence (H : NodeHeap α) (head : α) (l : List α) : Prop where
  add : ∀ x, x ∉ head :: l → (H x).isSome →
    ∃ H', listAdd head x H = some H' ∧ H'.Rings head (l ++ [x])
  remove : ∀ x ∈ l, ∃ H', listRemove x H = some H' ∧ H'.Rings head (l.erase x) ∧
    ∀ a ∉ head :: l, H' a = H a
  empty : listEmpty head H = some l.isEmpty
  first : listFirst head H = some l.head?
  find : ∀ (equalFunc : Addr → Addr → Bool) (value : Addr) (bound : Nat), l.length < bound →
    listFind equalFunc head value bound H =
      some (l.find? fun a => equalFunc (H.valueAt a) value)
  free : ∀ {σ : Type} (cleanup : Addr → σ → σ) (s : σ) (bound : Nat), l.length < bound →
    ∃ H', listFree (some cleanup) head bound H s =
        some (H', (l.map H.valueAt).foldl (fun s v => cleanup v s) s) ∧
      H'.Rings head []
  removeAlways : ∀ {σ : Type} (freeValue : Addr → σ → σ) (s : σ) (bound : Nat), l.length < bound →
    ∃ H', removeAlwaysReturnValuesFromList freeValue head bound H s =
        some (H', ((l.filter fun a => H.refcountAt a < -1).map H.valueAt).foldl
          (fun s v => freeValue v s) s, l) ∧
      H'.Rings head (l.filter fun a => -1 ≤ H.refcountAt a) ∧
      ∀ a ∈ l.filter fun a => -1 ≤ H.refcountAt a, H'.entryAt a = H.entryAt a

theorem rings_listInitialize (head : α) (H : NodeHeap α) :
    (listInitialize head H).Rings head [] where
  nodup := List.nodup_singleton head
  forward := by
    change nextOf _ head = some head
    rw [listInitialize, nextOf_update, Function.update_self]
    rfl
  back := by
    change prevOf _ head = some head
    rw [listInitialize, prevOf_update, Function.update_self]
    rfl

/-- **A list is a sequence.**  `list_initialize` makes the empty one, and on every well-formed head
the list functions do to the links what they are to do to the sequence. -/
theorem list_refines_sequence (head : α) :
    (∀ H : NodeHeap α, (listInitialize head H).Rings head []) ∧
      ∀ (H : NodeHeap α) (l : List α), H.Rings head l → H.RefinesSequence head l := by
  refine ⟨rings_listInitialize head, fun H l h => ?_⟩
  exact
    { add := fun x hx hsome => listAdd_ring h hx (by rwa [nextOf, Option.isSome_map])
      remove := by
        intro x hx
        obtain ⟨before, after, rfl⟩ := List.append_of_mem hx
        have hbefore : x ∉ before := fun hmem => h.not_mem_rest (List.mem_append_left after hmem)
        rw [List.erase_append_right _ hbefore, List.erase_cons_head]
        exact listRemove_ring h
      empty := listEmpty_ring h
      first := listFirst_ring h
      find := fun equalFunc value bound => listFind_ring equalFunc value h
      free := fun cleanup s bound => listFree_ring cleanup s h
      removeAlways := fun freeValue s bound => removeAlways_ring freeValue s h }

/-- A list of three nodes, the first of which is to be removed at the end of a test. -/
def threeNodes : NodeHeap Nat
  | 0 => some { value := 0, refcount := 1, next := 1, prev := 3 }
  | 1 => some { value := 0x100, refcount := -2, next := 2, prev := 0 }
  | 2 => some { value := 0x200, refcount := -1, next := 3, prev := 1 }
  | 3 => some { value := 0x300, refcount := 2, next := 0, prev := 2 }
  | _ => none

theorem threeNodes_refines :
    threeNodes.Rings 0 [1, 2, 3] ∧ threeNodes.RefinesSequence 0 [1, 2, 3] := by
  have hring : threeNodes.Rings 0 [1, 2, 3] :=
    ⟨by decide, ⟨rfl, rfl, rfl, rfl⟩, ⟨rfl, rfl, rfl, rfl⟩⟩
  exact ⟨hring, (list_refines_sequence 0).2 threeNodes [1, 2, 3] hring⟩

end NodeHeap

end Cmocka
