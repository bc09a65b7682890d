import Cmocka.Support.Runs
import Cmocka.Expectations.MapLayout

/-!
# Expectations — the lists of a symbol map in memory

What the list functions do to a list that lies in memory, with the addresses they gain and free:
reading leaves the memory as it is, `list_add_value` links an entry in at the end, and
`list_remove_free` takes one out, together with what its clean-up function releases.  `list_free` is
the last of these for the first entry, until there is none.
-/

namespace Cmocka.MapMemory

open Runs Ring NodeHeap

variable {V : Type} {d : Nat} {m m' m₁ : MapMemory V} {head : MapPtr}
  {l before after : List (MapEntry V d)} {e : MapEntry V d}

/-! ### Reading -/

theorem readNode_of {a : MapPtr} {n : ListNode MapPtr} (h : m.nodes a = some n) :
    readNode a m = .ok n m := by
  rw [readNode, bind_of_ok (get_apply m), h]
  rfl

theorem readSymbolName_of {ptr : Addr} {symbolName : CString}
    (h : m.cells ptr = some (.mapValue symbolName)) : readSymbolName ptr m = .ok symbolName m := by
  rw [readSymbolName, bind_of_ok (get_apply m), h]
  rfl

theorem readValue_of {ptr : Addr} {value : V} (h : m.cells ptr = some (.value value)) :
    readValue ptr m = .ok value m := by
  rw [readValue, bind_of_ok (get_apply m), h]
  rfl

theorem assertNonNull_of {ptr : Addr} (h : ptr ≠ 0) : assertNonNull ptr m = .ok () m :=
  congrFun (if_neg h) m

theorem onNodes_of {f : NodeHeap MapPtr → Option (NodeHeap MapPtr)} {nodes : NodeHeap MapPtr}
    (h : f m.nodes = some nodes) : onNodes f m = .ok () { m with nodes } := by
  rw [onNodes, bind_of_ok (get_apply m), h]
  rfl

theorem malloc_of {a : Addr} {supply : List Addr} (h : m.supply = a :: supply) :
    malloc m = .ok a { m with supply, mallocs := m.mallocs + 1 } := by
  rw [malloc, bind_of_ok (get_apply m), h]
  rfl

theorem Owns.headNode (h : m.Owns d head l) :
    ∃ n, readNode head m = .ok n m ∧ n.next = (l.map NodeEntry.at).headD head := by
  obtain ⟨n, hn, hnext⟩ := h.ring.head_node
  exact ⟨n, readNode_of hn, hnext⟩

/-- The node of an entry. -/
theorem Owns.entryNode (h : m.Owns d head (before ++ e :: after)) :
    ∃ n, readNode e.at m = .ok n m ∧ n.value = e.ptr ∧ n.refcount = e.refcount ∧
      n.next = (after.map NodeEntry.at).headD head := by
  obtain ⟨n, hn, hvalue, hcount⟩ := (h.node e (List.mem_append_right _ List.mem_cons_self)).node
  have hring := h.ring
  rw [List.map_append, List.map_cons] at hring
  obtain ⟨n', hn', hnext⟩ := hring.node
  cases hn.symm.trans hn'
  exact ⟨n, readNode_of hn, hvalue, hcount, hnext⟩

theorem Owns.ptr_ne_zero (h : m.Owns d head l) (he : e ∈ l) : e.ptr ≠ 0 := by
  intro hzero
  refine h.nonzero (hzero ▸ mem_ownedBy he ?_)
  rw [owned_eq]
  exact Multiset.mem_cons_of_mem (ptr_mem_below _ _)

theorem Owns.at_ne_head (h : m.Owns d head l) (he : e ∈ l) : e.at ≠ head := by
  rintro rfl
  exact h.outside _ rfl (mem_ownedBy he (node_mem_owned e))

theorem listEmpty_owns (h : m.Owns d head l) : listEmpty head m = .ok l.isEmpty m := by
  obtain ⟨n, hn, hnext⟩ := h.headNode
  rw [listEmpty, bind_of_ok hn, hnext]
  cases l with
  | nil => simp
  | cons e l => simpa using h.at_ne_head List.mem_cons_self

theorem listFirst_owns (h : m.Owns d head l) :
    listFirst head m = .ok (l.head?.map NodeEntry.at) m := by
  obtain ⟨n, hn, hnext⟩ := h.headNode
  rw [listFirst, bind_of_ok (listEmpty_owns h)]
  cases l with
  | nil => rfl
  | cons e l =>
      refine (bind_of_ok hn _).trans ?_
      rw [hnext]
      rfl

/-- The search from an entry on. -/
theorem findLoop_owns (before after : List (MapEntry V (d + 1))) (symbol : CString)
    (h : m.Owns (d + 1) head (before ++ after)) {bound : Nat} (hbound : after.length < bound) :
    findLoop head symbol bound ((after.map NodeEntry.at).headD head) m =
      .ok ((after.find? fun e => e.content.1 = symbol).map NodeEntry.at) m := by
  induction after generalizing before bound with
  | nil =>
      obtain ⟨bound, rfl⟩ := Nat.exists_eq_succ_of_ne_zero hbound.ne'
      exact congrFun (if_pos rfl) m
  | cons e after ih =>
      obtain ⟨bound, rfl⟩ := Nat.exists_eq_succ_of_ne_zero (Nat.ne_of_gt (Nat.zero_lt_of_lt hbound))
      have he : e ∈ before ++ e :: after := List.mem_append_right _ List.mem_cons_self
      obtain ⟨n, hn, hvalue, -, hnext⟩ := h.entryNode
      have hname := readSymbolName_of (h.lies e he).1
      have hrest := ih (before ++ [e]) (by simpa using h) (Nat.lt_of_succ_lt_succ hbound)
      rw [List.map_cons, List.headD_cons, findLoop, if_neg (h.at_ne_head he), bind_of_ok hn, hvalue,
        bind_of_ok hname, List.find?_cons]
      by_cases hs : e.content.1 = symbol
      · rw [if_pos hs, decide_eq_true hs]
        rfl
      · rw [if_neg hs, decide_eq_false hs, hnext]
        exact hrest

theorem card_le_ownedBy (l : List (MapEntry V d)) : l.length ≤ (ownedBy d l).card := by
  induction l with
  | nil => exact Nat.zero_le _
  | cons e l ih =>
      rw [ownedBy_cons, owned_eq, Multiset.card_add, Multiset.card_cons, List.length_cons]
      omega

theorem listFind_owns {l : List (MapEntry V (d + 1))} (symbol : CString)
    (h : m.Owns (d + 1) head l) (hbound : (ownedBy (d + 1) l).card ≤ m.mallocs) :
    listFind head symbol m = .ok ((l.find? fun e => e.content.1 = symbol).map NodeEntry.at) m := by
  obtain ⟨n, hn, hnext⟩ := h.headNode
  rw [listFind, bind_of_ok (get_apply m), bind_of_ok hn, hnext]
  exact findLoop_owns [] l symbol h
    (Nat.lt_succ_of_le ((card_le_ownedBy l).trans hbound))

/-! ### Adding -/

/-- `list_add` writes to the new node and to nodes of the list. -/
theorem listAdd_frame {H H' : NodeHeap MapPtr} {x : MapPtr} {l : List MapPtr} (h : H.Rings head l)
    (hx : x ≠ head) (hadd : Cmocka.listAdd head x H = some H') {b : MapPtr}
    (hb : b ∉ x :: head :: l) : H' b = H b := by
  simp only [Cmocka.listAdd, Option.bind_eq_bind, Option.bind_eq_some_iff] at hadd
  obtain ⟨H₁, e₁, n₁, -, H₂, e₂, n₂, hn₂, H₃, e₃, e₄⟩ := hadd
  rw [List.mem_cons, not_or] at hb
  -- the node before the head is of the list
  have hprev : n₂.prev ∈ head :: l := by
    rw [modify_of_ne e₂ hx.symm, modify_of_ne e₁ hx.symm] at hn₂
    have hback := h.back.first
    rw [prevOf, hn₂, headD_reverse] at hback
    exact Option.some.inj hback ▸ getLastD_mem l head
  have hb₃ : b ≠ n₂.prev := fun he => hb.2 (he ▸ hprev)
  have hb₄ : b ≠ head := fun he => hb.2 (he ▸ List.mem_cons_self)
  rw [modify_of_ne e₄ hb₄, modify_of_ne e₃ hb₃, modify_of_ne e₂ hb.1, modify_of_ne e₁ hb.1]

/-- A place that is not the head and belongs to no address of the list is not in the ring. -/
theorem not_mem_ring {b : MapPtr} (hb : b ≠ head) (hout : Outside (ownedBy d l) b) :
    b ∉ head :: l.map NodeEntry.at := by
  intro hin
  obtain ⟨e, he, rfl⟩ := List.mem_map.mp ((List.mem_cons.mp hin).resolve_left hb)
  exact hout e.node rfl (mem_ownedBy he (node_mem_owned e))

/-- The addresses of a list are its nodes and what is below them. -/
theorem ownedBy_eq (l : List (MapEntry V d)) :
    ownedBy d l = (l.map NodeEntry.node : Multiset Addr) +
      (l.map fun e => below d e.ptr e.content).sum := by
  induction l with
  | nil => rfl
  | cons e l ih =>
      rw [ownedBy_cons, owned_eq, ih, List.map_cons, List.map_cons, List.sum_cons,
        ← Multiset.cons_coe, Multiset.cons_add, Multiset.cons_add, add_left_comm]

theorem Owns.node_notMem_below (h : m.Owns d head l) {e e' : MapEntry V d} (he : e ∈ l)
    (he' : e' ∈ l) : e.node ∉ below d e'.ptr e'.content := by
  have hnodup := h.nodup
  rw [ownedBy_eq, Multiset.nodup_add] at hnodup
  refine fun hin => Multiset.disjoint_left.mp hnodup.2.2
    (Multiset.mem_coe.mpr (List.mem_map_of_mem he)) ?_
  obtain ⟨before, after, rfl⟩ := List.append_of_mem he'
  rw [List.map_append, List.map_cons, List.sum_append, List.sum_cons]
  exact Multiset.mem_add.mpr (.inr (Multiset.mem_add.mpr (.inl hin)))

/-- What is below the nodes of a list does not depend on its links. -/
theorem Owns.lies_links (h : m.Owns d head l)
    (hnodes : ∀ b ∉ head :: l.map NodeEntry.at, ∀ a ∈ b.owner, a ∈ ownedBy d l →
      m'.nodes b = m.nodes b)
    (hcells : m'.cells = m.cells) (he : e ∈ l) : m'.Lies d e.ptr e.content := by
  refine (h.lies e he).same (fun b a hb ha => ?_) fun a _ => by rw [hcells]
  have hin : a ∈ ownedBy d l := mem_ownedBy he (owned_eq e ▸ Multiset.mem_cons_of_mem ha)
  refine hnodes b (fun hmem => ?_) a hb hin
  rcases List.mem_cons.mp hmem with rfl | hmem
  · exact h.outside a hb hin
  · obtain ⟨c, hc, rfl⟩ := List.mem_map.mp hmem
    obtain rfl : c.node = a := Option.some.inj hb
    exact h.node_notMem_below hc he ha

/-- The value and the count of a node. -/
def fields (n : ListNode MapPtr) : Addr × Int := (n.value, n.refcount)

/-- A node keeps its entry while only its links are written. -/
theorem NodeAt.fields {α : Type} {e : NodeEntry α} (h : m.NodeAt e)
    (hmap : (m'.nodes e.at).map fields = (m.nodes e.at).map fields)
    (hchild : m'.nodes (.childList e.node) = m.nodes (.childList e.node))
    (hcells : m'.cells = m.cells) : m'.NodeAt e := by
  obtain ⟨⟨n, hn, hvalue, hcount⟩, hnone, hcell⟩ := h
  rw [hn] at hmap
  obtain ⟨n', hn', hfields⟩ := Option.map_eq_some_iff.mp hmap
  exact ⟨⟨n', hn', (congrArg Prod.fst hfields).trans hvalue,
    (congrArg Prod.snd hfields).trans hcount⟩, hchild.trans hnone, hcells ▸ hcell⟩

/-- What an operation leaves of the bookkeeping. -/
structure Calm (m m' : MapMemory V) : Prop where
  supply : m'.supply = m.supply
  mallocs : m'.mallocs = m.mallocs
  printed : m'.printed = m.printed

theorem Calm.refl (m : MapMemory V) : Calm m m := ⟨rfl, rfl, rfl⟩

theorem Calm.trans (h : Calm m m₁) (h' : Calm m₁ m') : Calm m m' :=
  ⟨h'.supply.trans h.supply, h'.mallocs.trans h.mallocs, h'.printed.trans h.printed⟩

/-- **`list_add_value`.** -/
theorem listAddValue_moves {supply : List Addr} (h : m.Owns d head l)
    (hsupply : m.supply = e.node :: supply) (hdead : m.Dead e.node)
    (hlies : m.Lies d e.ptr e.content)
    (hfresh : (ownedBy d l + owned d e).Nodup) (hzero : 0 ∉ owned d e)
    (hhead : ∀ a ∈ head.owner, a ∉ owned d e) :
    ∃ m', listAddValue head e.ptr e.refcount m = .ok e.at m' ∧
      Moves d head l (l ++ [e]) (owned d e) 0 0 m m' ∧ m'.cells = m.cells ∧ m'.supply = supply ∧
      m'.mallocs = m.mallocs + 1 ∧ m'.printed = m.printed := by
  obtain ⟨hnodup, hnodup', hdisj⟩ := Multiset.nodup_add.mp hfresh
  have hnode := node_mem_owned e
  have hnew : ∀ a ∈ below d e.ptr e.content, a ∈ owned d e ∧ a ≠ e.node := by
    rw [owned_eq] at hnodup'
    intro a ha
    refine ⟨owned_eq e ▸ Multiset.mem_cons_of_mem ha, ?_⟩
    rintro rfl
    exact (Multiset.nodup_cons.mp hnodup').1 ha
  have hat : e.at ∉ head :: l.map NodeEntry.at := by
    refine not_mem_ring (ne_of_owner rfl fun hb => hhead _ hb hnode) ?_
    rintro a ⟨⟩ ha
    exact Multiset.disjoint_left.mp hdisj ha hnode
  -- the new node, before it is linked in
  obtain ⟨H, hH⟩ : ∃ H : NodeHeap MapPtr, Function.update m.nodes e.at
      (some { value := e.ptr, refcount := e.refcount, next := e.at, prev := e.at }) = H := ⟨_, rfl⟩
  have hring : H.Rings head (l.map NodeEntry.at) := hH ▸ Rings.update h.ring hat _
  have hnew₁ : H e.at = some ⟨e.ptr, e.refcount, e.at, e.at⟩ := hH ▸ Function.update_self _ _ _
  have hold : ∀ b ≠ e.at, H b = m.nodes b := fun b hb => hH ▸ Function.update_of_ne hb _ _
  obtain ⟨H', hadd, hring'⟩ := listAdd_ring hring hat (by rw [nextOf, hnew₁]; rfl)
  have hfields : ∀ b, (H' b).map fields = (H b).map fields :=
    listAdd_map (fun _ _ => rfl) (fun _ _ => rfl) hadd
  have hframe : ∀ b ∉ e.at :: head :: l.map NodeEntry.at, H' b = m.nodes b := by
    intro b hb
    rw [listAdd_frame hring (fun he => hat (he ▸ List.mem_cons_self)) hadd hb]
    exact hold b fun he => hb (he ▸ List.mem_cons_self)
  have hchild : ∀ a ∉ head.owner, H' (.childList a) = m.nodes (.childList a) := by
    refine fun a ha => hframe _ fun hin => ?_
    rcases List.mem_cons.mp ((List.mem_cons.mp hin).resolve_left (childList_ne_node _ _)) with he | hin
    · exact ha (he ▸ rfl)
    · obtain ⟨c, -, hc⟩ := List.mem_map.mp hin
      cases hc
  obtain ⟨m', hm'⟩ : ∃ m' : MapMemory V, { m with
    nodes := H', supply := supply, mallocs := m.mallocs + 1 } = m' := ⟨_, rfl⟩
  have hnodes : m'.nodes = H' := hm' ▸ rfl
  have hcells : m'.cells = m.cells := hm' ▸ rfl
  have howned : ownedBy d (l ++ [e]) = ownedBy d l + owned d e := by
    rw [ownedBy_append, ownedBy_cons]
    exact congrArg (_ + ·) (add_zero _)
  refine ⟨m', ?_, ⟨⟨?_, ?_, ?_, howned ▸ hfresh, ?_, ?_⟩, ?_, ?_,
      fun a ha => absurd ha (Multiset.notMem_zero a), ?_⟩,
    hcells, hm' ▸ rfl, hm' ▸ rfl, hm' ▸ rfl⟩
  · have hptr : e.ptr ≠ 0 := fun he =>
      hzero (he ▸ (hnew _ (ptr_mem_below e.ptr e.content)).1)
    rw [listAddValue, bind_of_ok (malloc_of hsupply), bind_of_ok (assertNonNull_of hptr)]
    refine (bind_of_ok (modify_apply _ _) _).trans ?_
    have hlink : Cmocka.listAdd head e.at (Function.update m.nodes e.at (some
        { value := e.ptr, refcount := e.refcount, next := e.at, prev := e.at })) = some H' := by
      rw [hH]
      exact hadd
    refine (bind_of_ok (onNodes_of hlink) _).trans ?_
    rw [← hm']
    rfl
  · rw [hnodes, List.map_append, List.map_singleton]
    exact hring'
  · intro c hc
    rcases List.mem_append.mp hc with hc | hc
    · refine (h.node c hc).fields ?_ ?_ hcells
      · rw [hnodes, hfields, hold]
        exact fun he => hat (he ▸ List.mem_cons_of_mem _ (List.mem_map_of_mem hc))
      · rw [hnodes]
        exact hchild c.node fun hb => h.outside _ hb (mem_ownedBy hc (node_mem_owned c))
    · obtain rfl := List.mem_singleton.mp hc
      have hlink : NodeAt { m with nodes := H } c := by
        refine ⟨⟨_, hnew₁, rfl, rfl⟩, ?_, hdead.cell⟩
        exact (hold _ (childList_ne_node _ _)).trans hdead.childList
      refine hlink.fields (by rw [hnodes, hfields]) ?_ hcells
      rw [hnodes, hchild c.node fun hb => hhead _ hb hnode]
      exact (hold _ (childList_ne_node _ _)).symm
  · intro c hc
    rcases List.mem_append.mp hc with hc | hc
    · refine h.lies_links (fun b hb a hown ha => ?_) hcells hc
      rw [hnodes]
      refine hframe b fun hin => hb ((List.mem_cons.mp hin).resolve_left ?_)
      rintro rfl
      obtain rfl : e.node = a := Option.some.inj hown
      exact Multiset.disjoint_left.mp hdisj ha hnode
    · obtain rfl := List.mem_singleton.mp hc
      refine hlies.same (fun b a hb ha => ?_) fun a _ => by rw [hcells]
      obtain ⟨hin, hne⟩ := hnew a ha
      have hring : b ∉ head :: l.map NodeEntry.at := by
        refine not_mem_ring (ne_of_owner hb fun hc => hhead a hc hin) fun a' ha' hin' => ?_
        rw [Option.mem_unique ha' hb] at hin'
        exact Multiset.disjoint_left.mp hdisj hin' hin
      rw [hnodes]
      refine hframe b fun hmem => hring ((List.mem_cons.mp hmem).resolve_left ?_)
      rintro rfl
      exact hne (Option.some.inj hb).symm
  · rw [howned, Multiset.mem_add, not_or]
    exact ⟨h.nonzero, hzero⟩
  · intro a ha
    rw [howned, Multiset.mem_add, not_or]
    exact ⟨h.outside a ha, hhead a ha⟩
  · rw [howned, add_zero, add_zero]
  · exact fun a ha => absurd ha (Multiset.notMem_zero a)
  · refine ⟨fun b hb hout => ?_, fun a _ => congrFun hcells a⟩
    rw [hnodes]
    refine hframe b fun hmem => ?_
    rcases List.mem_cons.mp hmem with rfl | hmem
    · exact hout e.node rfl (Multiset.mem_add.mpr (.inr hnode))
    · exact not_mem_ring hb (hout.mono fun a ha => Multiset.mem_add.mpr (.inl ha)) hmem

/-! ### Taking out -/

theorem freeNode_of {a : Addr} {n : ListNode MapPtr} (h : m.nodes (.node a) = some n) :
    ∃ m', freeNode (.node a) m = .ok () m' ∧
      m'.nodes = Function.update m.nodes (.node a) none ∧ m'.cells = m.cells ∧ Calm m m' := by
  refine ⟨{ m with nodes := Function.update m.nodes (.node a) none }, ?_, rfl, rfl, rfl, rfl, rfl⟩
  rw [freeNode, bind_of_ok (get_apply m), h]
  rfl

theorem free_of {ptr : Addr} {cell : MapCell V} (h : m.cells ptr = some cell) :
    ∃ m', free ptr m = .ok () m' ∧
      m'.nodes = Function.update m.nodes (.childList ptr) none ∧
      m'.cells = Function.update m.cells ptr none ∧ Calm m m' := by
  refine ⟨{ m with
    cells := Function.update m.cells ptr none
    nodes := Function.update m.nodes (.childList ptr) none }, ?_, rfl, rfl, rfl, rfl, rfl⟩
  rw [free, bind_of_ok (get_apply m), h]
  rfl

/-- The addresses were freed, and nothing else changed. -/
structure Released (freed : Multiset Addr) (m m' : MapMemory V) : Prop where
  dead : ∀ a ∈ freed, m'.Dead a
  nodes : ∀ b, Outside freed b → m'.nodes b = m.nodes b
  cells : ∀ a ∉ freed, m'.cells a = m.cells a
  calm : Calm m m'

theorem Released.stillDead {freed : Multiset Addr} (h : Released freed m m') {a : Addr}
    (ha : a ∉ freed) (hdead : m.Dead a) : m'.Dead a := by
  have hout : ∀ b, a ∈ b.owner → Outside freed b := fun b hb a' ha' => by
    rwa [Option.mem_unique ha' hb]
  exact ⟨(h.nodes _ (hout (.node a) rfl)).trans hdead.node,
    (h.nodes _ (hout (.childList a) rfl)).trans hdead.childList, (h.cells a ha).trans hdead.cell⟩

/-- A clean-up function that frees a structure and everything below it. -/
def Releases (cleanup : Addr → MapM V Unit) (d : Nat) (ptr : Addr) (content : MapContent V d) : Prop :=
  ∀ m : MapMemory V, m.Lies d ptr content → (below d ptr content).Nodup →
    0 ∉ below d ptr content → (below d ptr content).card ≤ m.mallocs →
    ∃ m', cleanup ptr m = .ok () m' ∧ Released (below d ptr content) m m'

/-- `list_remove` of an entry; what the entry is made of stays. -/
theorem unlink (h : m.Owns d head (before ++ e :: after)) :
    ∃ m₁, onNodes (Cmocka.listRemove e.at) m = .ok () m₁ ∧ m₁.Owns d head (before ++ after) ∧
      m₁.NodeAt e ∧ m₁.Lies d e.ptr e.content ∧ m₁.cells = m.cells ∧ Calm m m₁ ∧
      ∀ b ∉ head :: (before ++ e :: after).map NodeEntry.at, m₁.nodes b = m.nodes b := by
  have hring := h.ring
  rw [List.map_append, List.map_cons] at hring
  obtain ⟨H, hremove, hring', hframe⟩ := listRemove_ring hring
  rw [← List.map_cons, ← List.map_append] at hframe
  rw [← List.map_append] at hring'
  have hfields : ∀ b, (H b).map fields = (m.nodes b).map fields :=
    listRemove_map (fun _ _ => rfl) (fun _ _ => rfl) hremove
  have hmem : ∀ c ∈ before ++ after, c ∈ before ++ e :: after := fun c hc =>
    List.perm_middle.mem_iff.mpr (List.mem_cons_of_mem e hc)
  have he : e ∈ before ++ e :: after := List.mem_append_right _ List.mem_cons_self
  have hlies : ∀ c ∈ before ++ e :: after, Lies { m with nodes := H } d c.ptr c.content :=
    fun c hc => h.lies_links (fun b hb _ _ _ => hframe b hb) rfl hc
  have hle : ownedBy d (before ++ after) ≤ ownedBy d (before ++ e :: after) := by
    rw [ownedBy_split]
    exact Multiset.le_add_left _ _
  have hnode : ∀ c ∈ before ++ e :: after, NodeAt { m with nodes := H } c := by
    refine fun c hc => (h.node c hc).fields (hfields _) (hframe _ fun hin => ?_) rfl
    rcases List.mem_cons.mp hin with heq | hin
    · exact h.outside c.node (heq ▸ rfl) (mem_ownedBy hc (node_mem_owned c))
    · obtain ⟨c', -, hc'⟩ := List.mem_map.mp hin
      cases hc'
  refine ⟨{ m with nodes := H }, onNodes_of hremove, ?_, hnode e he, hlies e he, rfl,
    ⟨rfl, rfl, rfl⟩, hframe⟩
  exact ⟨hring', fun c hc => hnode c (hmem c hc), fun c hc => hlies c (hmem c hc),
    Multiset.nodup_of_le hle h.nodup, fun hin => h.nonzero (Multiset.mem_of_le hle hin),
    fun a ha hin => h.outside a ha (Multiset.mem_of_le hle hin)⟩

theorem Owns.entry_nodup (h : m.Owns d head (before ++ e :: after)) :
    (owned d e).Nodup ∧ (∀ a ∈ owned d e, a ∉ ownedBy d (before ++ after)) ∧ 0 ∉ owned d e := by
  have hnodup := h.nodup
  have hzero := h.nonzero
  rw [ownedBy_split] at hnodup hzero
  obtain ⟨hnodup, -, hdisj⟩ := Multiset.nodup_add.mp hnodup
  exact ⟨hnodup, fun a ha hin => Multiset.disjoint_left.mp hdisj ha hin,
    fun hin => hzero (Multiset.mem_add.mpr (.inl hin))⟩

/-- `free` of the node, after what is below it. -/
theorem Released.freeNode {m₂ : MapMemory V} {freed : Multiset Addr}
    (h : Released freed m₁ m₂) (hnode : m₁.NodeAt e) (hnotin : e.node ∉ freed) :
    ∃ m₃, freeNode e.at m₂ = .ok () m₃ ∧ Released (e.node ::ₘ freed) m₁ m₃ := by
  obtain ⟨⟨n, hn, -, -⟩, hchild, hcell⟩ := hnode
  have hout : ∀ b, e.node ∈ b.owner → m₂.nodes b = m₁.nodes b := fun b hb =>
    h.nodes b fun a ha => by rwa [Option.mem_unique ha hb]
  obtain ⟨m₃, hfree, hnodes, hcells, hcalm⟩ := freeNode_of ((hout e.at rfl).trans hn)
  refine ⟨m₃, hfree, fun a ha => ?_, fun b hb => ?_, fun a ha => ?_, h.calm.trans hcalm⟩
  · have hother : m₃.nodes (.childList a) = m₂.nodes (.childList a) := by
      rw [hnodes, Function.update_of_ne (childList_ne_node _ _)]
    by_cases hae : a = e.node
    · subst hae
      exact ⟨by rw [hnodes, Function.update_self], hother.trans ((hout _ rfl).trans hchild),
        hcells ▸ (h.cells _ hnotin).trans hcell⟩
    · obtain ⟨hn, hc, hcell⟩ := h.dead a ((Multiset.mem_cons.mp ha).resolve_left hae)
      refine ⟨?_, hother.trans hc, hcells ▸ hcell⟩
      rw [hnodes, Function.update_of_ne fun he => hae (MapPtr.node.inj he)]
      exact hn
  · have hne : b ≠ .node e.node := by
      rintro rfl
      exact hb _ rfl (Multiset.mem_cons_self _ _)
    rw [hnodes, Function.update_of_ne hne]
    exact h.nodes b fun a ha hin => hb a ha (Multiset.mem_cons_of_mem hin)
  · rw [hcells]
    exact h.cells a fun hin => ha (Multiset.mem_cons_of_mem hin)

/-- An entry is unlinked; then some of its addresses are freed, and the others handed out. -/
theorem moves_of_released {dropped freed : Multiset Addr} (h : m.Owns d head (before ++ e :: after))
    (howns : m₁.Owns d head (before ++ after)) (hcells : m₁.cells = m.cells)
    (hframe : ∀ b ∉ head :: (before ++ e :: after).map NodeEntry.at, m₁.nodes b = m.nodes b)
    (hr : Released freed m₁ m') (hsplit : owned d e = dropped + freed)
    (hdropped : ∀ a ∈ dropped, a ∈ below d e.ptr e.content) :
    Moves d head (before ++ e :: after) (before ++ after) 0 dropped freed m m' := by
  obtain ⟨hnodup, hdisj, -⟩ := h.entry_nodup
  rw [hsplit] at hnodup hdisj
  have hfreed : ∀ a ∈ freed, a ∈ ownedBy d (before ++ e :: after) := by
    intro a ha
    rw [ownedBy_split, hsplit]
    exact Multiset.mem_add.mpr (.inl (Multiset.mem_add.mpr (.inr ha)))
  have hrest : ∀ a ∈ ownedBy d (before ++ after), a ∉ freed := fun a ha hin =>
    hdisj a (Multiset.mem_add.mpr (.inr hin)) ha
  refine ⟨howns.same ?_ ?_ fun a ha => hr.cells a (hrest a ha), ?_, hr.dead, ?_, ?_, ?_⟩
  · exact hr.nodes head fun a ha hin => h.outside a ha (hfreed a hin)
  · refine fun b a hb ha => hr.nodes b fun c hc hin => hrest a ha ?_
    rwa [Option.mem_unique hb hc]
  · rw [ownedBy_split, hsplit]
    abel
  · intro a ha
    have hnotin : a ∉ freed := fun hin =>
      Multiset.disjoint_left.mp (Multiset.nodup_add.mp hnodup).2.2 ha hin
    have hin : a ∈ ownedBy d (before ++ e :: after) := by
      rw [ownedBy_split, hsplit]
      exact Multiset.mem_add.mpr (.inl (Multiset.mem_add.mpr (.inl ha)))
    -- the address is not that of a node of the list
    have hplace : ∀ b, a ∈ b.owner → m'.nodes b = m.nodes b := by
      refine fun b hb => (hr.nodes b fun a' ha' => ?_).trans (hframe b fun hmem => ?_)
      · rwa [Option.mem_unique ha' hb]
      · rcases List.mem_cons.mp hmem with rfl | hmem
        · exact h.outside a hb hin
        · obtain ⟨c, hc, rfl⟩ := List.mem_map.mp hmem
          obtain rfl : c.node = a := Option.some.inj hb
          exact h.node_notMem_below hc (List.mem_append_right _ List.mem_cons_self)
            (hdropped _ ha)
    exact ⟨hplace (.node a) rfl, hplace (.childList a) rfl, by rw [hr.cells a hnotin, hcells]⟩
  · intro b hb hout
    rw [add_zero] at hout
    exact (hr.nodes b (hout.mono hfreed)).trans (hframe b (not_mem_ring hb hout))
  · intro a ha
    rw [add_zero] at ha
    rw [hr.cells a (mt (hfreed a) ha), hcells]

/-- `list_remove_free` without a clean-up function hands out what a value node points to. -/
theorem listRemoveFree_keeps {before after : List (MapEntry V 0)} {e : MapEntry V 0}
    (h : m.Owns 0 head (before ++ e :: after)) :
    ∃ m', listRemoveFree e.at none m = .ok () m' ∧
      Moves 0 head (before ++ e :: after) (before ++ after) 0 {e.ptr} {e.node} m m' ∧
      Calm m m' := by
  obtain ⟨m₁, hunlink, howns, hnode, -, hcells, hcalm, hframe⟩ := unlink h
  have hnone : Released 0 m₁ m₁ := ⟨fun a ha => absurd ha (Multiset.notMem_zero a), fun _ _ => rfl,
    fun _ _ => rfl, Calm.refl m₁⟩
  obtain ⟨m', hfree, hr⟩ := hnone.freeNode hnode (Multiset.notMem_zero _)
  refine ⟨m', ?_, moves_of_released h howns hcells hframe hr ?_ fun a ha => ha, hcalm.trans hr.calm⟩
  · have hremove : listRemove e.at none m = .ok () m₁ := bind_of_ok hunlink _
    rw [listRemoveFree, bind_of_ok hremove]
    exact hfree
  · rw [owned, add_comm]
    rfl

/-- **`list_remove_free`** with a clean-up function for the entry. -/
theorem listRemoveFree_releases {cleanup : Addr → MapM V Unit}
    (h : m.Owns d head (before ++ e :: after))
    (hbound : (ownedBy d (before ++ e :: after)).card ≤ m.mallocs)
    (hc : Releases cleanup d e.ptr e.content) :
    ∃ m', listRemoveFree e.at (some cleanup) m = .ok () m' ∧
      Moves d head (before ++ e :: after) (before ++ after) 0 0 (owned d e) m m' ∧ Calm m m' := by
  obtain ⟨m₁, hunlink, howns, hnode, hlies, hcells, hcalm, hframe⟩ := unlink h
  obtain ⟨hnodup, -, hzero⟩ := h.entry_nodup
  have hcard : (below d e.ptr e.content).card ≤ m₁.mallocs := by
    rw [hcalm.mallocs]
    refine le_trans ?_ hbound
    rw [ownedBy_split, owned_eq, Multiset.card_add, Multiset.card_cons]
    omega
  rw [owned_eq] at hnodup hzero
  obtain ⟨hnotin, hnodup⟩ := Multiset.nodup_cons.mp hnodup
  obtain ⟨m₂, hclean, hr⟩ := hc m₁ hlies hnodup (fun hin => hzero (Multiset.mem_cons_of_mem hin)) hcard
  obtain ⟨m', hfree, hr'⟩ := hr.freeNode hnode hnotin
  obtain ⟨n, hn, hvalue, -⟩ := hnode.node
  refine ⟨m', ?_, moves_of_released h howns hcells hframe (owned_eq e ▸ hr') ?_ ?_,
    hcalm.trans hr'.calm⟩
  · have hremove : listRemove e.at (some cleanup) m = .ok () m₂ := by
      refine (bind_of_ok hunlink _).trans ((bind_of_ok (readNode_of hn) _).trans ?_)
      rw [hvalue]
      exact hclean
    rw [listRemoveFree, bind_of_ok hremove]
    exact hfree
  · exact (zero_add _).symm
  · exact fun a ha => absurd ha (Multiset.notMem_zero a)

/-! ### Freeing -/

/-- The loop of `list_free` takes out the first entry until there is none. -/
theorem listFreeLoop_moves {cleanup : Addr → MapM V Unit} (h : m.Owns d head l)
    (hbound : (ownedBy d l).card ≤ m.mallocs) (hc : ∀ e ∈ l, Releases cleanup d e.ptr e.content)
    {bound : Nat} (hlt : l.length < bound) :
    ∃ m', listFreeLoop head cleanup bound m = .ok () m' ∧
      Moves d head l [] 0 0 (ownedBy d l) m m' ∧ Calm m m' := by
  induction l generalizing m bound with
  | nil =>
      obtain ⟨bound, rfl⟩ := Nat.exists_eq_succ_of_ne_zero hlt.ne'
      refine ⟨m, ?_, .refl h, .refl m⟩
      rw [listFreeLoop, bind_of_ok (listEmpty_owns h)]
      rfl
  | cons e l ih =>
      obtain ⟨bound, rfl⟩ := Nat.exists_eq_succ_of_ne_zero (Nat.ne_of_gt (Nat.zero_lt_of_lt hlt))
      obtain ⟨n, hn, hnext⟩ := h.headNode
      have hmiddle : m.Owns d head ([] ++ e :: l) := h
      obtain ⟨m₁, hremove, hmoves, hcalm⟩ :=
        listRemoveFree_releases hmiddle hbound (hc e List.mem_cons_self)
      have hbound₁ : (ownedBy d l).card ≤ m₁.mallocs := by
        rw [hcalm.mallocs]
        refine le_trans ?_ hbound
        rw [ownedBy_cons, Multiset.card_add]
        exact Nat.le_add_left _ _
      obtain ⟨m', hrest, hmoves', hcalm'⟩ := ih hmoves.owns hbound₁
        (fun c hc' => hc c (List.mem_cons_of_mem e hc')) (Nat.lt_of_succ_lt_succ hlt)
      refine ⟨m', ?_, ?_, hcalm.trans hcalm'⟩
      · rw [listFreeLoop, bind_of_ok (listEmpty_owns h)]
        refine (bind_of_ok hn _).trans ?_
        rw [hnext]
        exact (bind_of_ok hremove _).trans hrest
      · have hall := hmoves.trans hmoves' (by simpa using h.nodup) (by simpa using h.outside)
        rw [ownedBy_cons]
        exact hall

/-- **`list_free`.** -/
theorem listFree_moves {cleanup : Addr → MapM V Unit} (h : m.Owns d head l)
    (hbound : (ownedBy d l).card ≤ m.mallocs) (hc : ∀ e ∈ l, Releases cleanup d e.ptr e.content) :
    ∃ m', listFree head cleanup m = .ok () m' ∧ Moves d head l [] 0 0 (ownedBy d l) m m' ∧
      Calm m m' :=
  listFreeLoop_moves h hbound hc (Nat.lt_succ_of_le ((card_le_ownedBy l).trans hbound))

/-- `free` of a structure with nothing below it. -/
theorem free_released {ptr : Addr} {cell : MapCell V} (hcell : m.cells ptr = some cell)
    (hnode : m.nodes (.node ptr) = none) :
    ∃ m', free ptr m = .ok () m' ∧ Released {ptr} m m' := by
  obtain ⟨m', hfree, hnodes, hcells, hcalm⟩ := free_of hcell
  refine ⟨m', hfree, fun a ha => ?_, fun b hb => ?_, fun a ha => ?_, hcalm⟩
  · obtain rfl := Multiset.mem_singleton.mp ha
    refine ⟨?_, by rw [hnodes, Function.update_self], by rw [hcells, Function.update_self]⟩
    rw [hnodes, Function.update_of_ne (childList_ne_node _ _).symm]
    exact hnode
  · rw [hnodes, Function.update_of_ne]
    rintro rfl
    exact hb ptr rfl (Multiset.mem_singleton_self ptr)
  · rw [hcells, Function.update_of_ne fun he => ha (Multiset.mem_singleton.mpr he)]

/-- `free_value` of a structure of the caller. -/
theorem freeValue_releases (ptr : Addr) (value : MapContent V 0) :
    Releases freeValue 0 ptr value := by
  rintro m ⟨hcell, hnode, -⟩ - hzero -
  obtain ⟨m', hfree, hr⟩ := free_released hcell hnode
  have hptr : ptr ≠ 0 := fun he => hzero (Multiset.mem_singleton.mpr he.symm)
  exact ⟨m', (bind_of_ok (assertNonNull_of hptr) _).trans hfree, hr⟩

/-- `free_value` of a `SymbolMapValue` with an empty list. -/
theorem freeValue_releases_symbol (ptr : Addr) (symbolName : CString) :
    Releases (V := V) freeValue (d + 1) ptr (symbolName, []) := by
  rintro m ⟨hcell, hnode, -⟩ - hzero -
  obtain ⟨m', hfree, hr⟩ := free_released hcell hnode
  have hptr : ptr ≠ 0 := fun he => hzero (he ▸ ptr_mem_below _ _)
  exact ⟨m', (bind_of_ok (assertNonNull_of hptr) _).trans hfree, hr⟩

/-- The steps of `free_symbol_map_value`, with the clean-up function for the list. -/
theorem freeMapValue_releases {cleanup : Addr → MapM V Unit} {ptr : Addr}
    {content : MapContent V (d + 1)} (hc : ∀ e ∈ content.2, Releases cleanup d e.ptr e.content) :
    Releases (fun value => do
      assertNonNull value
      listFree (.childList value) cleanup
      free value) (d + 1) ptr content := by
  intro m hlies hnodup hzero hbound
  have hptr : ptr ≠ 0 := fun he => hzero (he ▸ ptr_mem_below _ _)
  have howns := hlies.owns hnodup hzero
  obtain ⟨hcell, hnode, -⟩ := hlies
  obtain ⟨hnotin, -⟩ := Multiset.nodup_cons.mp hnodup
  rw [below, Multiset.card_cons] at hbound
  obtain ⟨m₁, hlist, hmoves, hcalm⟩ := listFree_moves howns (Nat.le_of_succ_le hbound) hc
  have hout : Outside (ownedBy d content.2 + 0) (.node ptr) := by
    rintro a ⟨⟩
    rwa [add_zero]
  obtain ⟨m', hfree, hr⟩ := free_released
    ((hmoves.untouched.cells ptr (by rwa [add_zero])).trans hcell)
    ((hmoves.untouched.nodes _ (childList_ne_node _ _).symm hout).trans hnode)
  refine ⟨m', ?_, fun a ha => ?_, fun b hb => ?_, fun a ha => ?_, hcalm.trans hr.calm⟩
  · exact (bind_of_ok (assertNonNull_of hptr) _).trans ((bind_of_ok hlist _).trans hfree)
  · rcases Multiset.mem_cons.mp ha with rfl | ha
    · exact hr.dead a (Multiset.mem_singleton_self a)
    · refine hr.stillDead (fun he => hnotin ?_) (hmoves.dead a ha)
      rwa [← Multiset.mem_singleton.mp he]
  · have hb' : b ≠ .childList ptr := by
      rintro rfl
      exact hb ptr rfl (Multiset.mem_cons_self _ _)
    refine (hr.nodes b (hb.mono fun a ha => ?_)).trans
      (hmoves.untouched.nodes b hb' (hb.mono fun a ha => ?_))
    · rw [Multiset.mem_singleton.mp ha]
      exact Multiset.mem_cons_self _ _
    · rw [add_zero] at ha
      exact Multiset.mem_cons_of_mem ha
  · obtain ⟨hne, hin⟩ := not_or.mp (mt Multiset.mem_cons.mpr ha)
    refine (hr.cells a (mt Multiset.mem_singleton.mp hne)).trans (hmoves.untouched.cells a ?_)
    rwa [add_zero]

/-- `free_symbol_map_value` with the number of levels there are below the symbol. -/
theorem freeSymbolMapValue_releases (d : Nat) (ptr : Addr) (content : MapContent V (d + 1)) :
    Releases (freeSymbolMapValue d) (d + 1) ptr content := by
  induction d generalizing ptr with
  | zero => exact freeMapValue_releases fun e _ => freeValue_releases e.ptr e.content
  | succ d ih => exact freeMapValue_releases fun e _ => ih e.ptr e.content

/-- `free_symbol_map_value` of a symbol with an empty list, whatever the number. -/
theorem freeSymbolMapValue_releases_empty (ptr : Addr) (symbolName : CString) :
    Releases (V := V) (freeSymbolMapValue 0) (d + 1) ptr (symbolName, []) :=
  freeMapValue_releases fun _ he => absurd he List.not_mem_nil

end Cmocka.MapMemory
