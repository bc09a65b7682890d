import Mathlib.Data.Multiset.AddSub
import Mathlib.Algebra.BigOperators.Group.Multiset.Basic
import Mathlib.Tactic.Abel
import Cmocka.Alloc.Sequence
import Cmocka.Model.MapMemory

/-!
# Expectations — where a symbol map lies

A list of a symbol map is laid out as a sequence of entries: the address of the list node, the
reference count, and the address of what the node points to, together with what lies there.  At the
innermost lists that is a structure of the caller, and further out a name and a list again
(`MapContent`).  `toNodes` forgets the addresses, and `owned` collects them.

A memory holds a list (`Owns`) if its nodes are a ring with these values and counts, what they point
to lies where they point, and no address occurs twice.  A change to a list accounts for every
address: those gained and those held before are held afterwards, handed out, or free (`Moves`).
Because it touches no other address, a change to the list of a symbol is one to the list that symbol
is in (`Moves.focus`).
-/

namespace Cmocka

open Ring NodeHeap

/-- A node of a list, with what it points to. -/
structure NodeEntry (α : Type) where
  node : Addr
  refcount : Int
  ptr : Addr
  content : α

/-- The place of the node. -/
def NodeEntry.at {α : Type} (e : NodeEntry α) : MapPtr := .node e.node

/-- What the nodes of a list point to, in a map with `d` names below it. -/
def MapContent (V : Type) : Nat → Type
  | 0 => V
  | d + 1 => CString × List (NodeEntry (MapContent V d))

/-- A node of such a list. -/
abbrev MapEntry (V : Type) (d : Nat) := NodeEntry (MapContent V d)

/-- The address a place belongs to; the static heads belong to none. -/
def MapPtr.owner : MapPtr → Option Addr
  | .root _ => none
  | .node ptr => some ptr
  | .childList mapValue => some mapValue

theorem childList_ne_node (a b : Addr) : MapPtr.childList a ≠ .node b := by
  intro h
  cases h

namespace MapMemory

variable {V : Type} {d : Nat}

/-! ### Layouts -/

/-- The node of the map, without addresses. -/
def toNode : (d : Nat) → MapEntry V d → MapNode V
  | 0, e => .value e.refcount e.content
  | d + 1, e => .symbol e.refcount e.content.1 (e.content.2.map (toNode d))

/-- The list of the map, without addresses. -/
abbrev toNodes (d : Nat) (l : List (MapEntry V d)) : List (MapNode V) := l.map (toNode d)

/-- The addresses of an entry: its node, what it points to, and what lies below. -/
def owned : (d : Nat) → MapEntry V d → Multiset Addr
  | 0, e => {e.node, e.ptr}
  | d + 1, e => e.node ::ₘ e.ptr ::ₘ (e.content.2.map (owned d)).sum

/-- The addresses of a list. -/
abbrev ownedBy (d : Nat) (l : List (MapEntry V d)) : Multiset Addr := (l.map (owned d)).sum

/-- The addresses below a node. -/
def below : (d : Nat) → Addr → MapContent V d → Multiset Addr
  | 0, ptr, _ => {ptr}
  | d + 1, ptr, content => ptr ::ₘ ownedBy d content.2

theorem owned_eq (e : MapEntry V d) : owned d e = e.node ::ₘ below d e.ptr e.content := by
  cases d <;> rfl

theorem ownedBy_append (l l' : List (MapEntry V d)) :
    ownedBy d (l ++ l') = ownedBy d l + ownedBy d l' := by
  rw [ownedBy, List.map_append, List.sum_append]

theorem ownedBy_cons (e : MapEntry V d) (l : List (MapEntry V d)) :
    ownedBy d (e :: l) = owned d e + ownedBy d l := by
  rw [ownedBy, List.map_cons, List.sum_cons]

/-- What a list owns, with one entry taken out. -/
theorem ownedBy_split (before after : List (MapEntry V d)) (e : MapEntry V d) :
    ownedBy d (before ++ e :: after) = owned d e + ownedBy d (before ++ after) := by
  rw [ownedBy_append, ownedBy_cons, ownedBy_append, add_left_comm]

/-- A list owns what its entries own. -/
theorem mem_ownedBy {l : List (MapEntry V d)} {e : MapEntry V d} (he : e ∈ l)
    {a : Addr} (ha : a ∈ owned d e) : a ∈ ownedBy d l := by
  obtain ⟨before, after, rfl⟩ := List.append_of_mem he
  rw [ownedBy_split]
  exact Multiset.mem_add.mpr (.inl ha)

/-- What a list owns, one of its entries owns. -/
theorem exists_of_mem_ownedBy {l : List (MapEntry V d)} {a : Addr} (ha : a ∈ ownedBy d l) :
    ∃ e ∈ l, a ∈ owned d e := by
  induction l with
  | nil => exact absurd ha (Multiset.notMem_zero a)
  | cons e l ih =>
      rw [ownedBy_cons] at ha
      rcases Multiset.mem_add.mp ha with ha | ha
      · exact ⟨e, List.mem_cons_self, ha⟩
      · obtain ⟨e', he, ha⟩ := ih ha
        exact ⟨e', List.mem_cons_of_mem e he, ha⟩

theorem node_mem_owned (e : MapEntry V d) : e.node ∈ owned d e := by
  rw [owned_eq]
  exact Multiset.mem_cons_self _ _

theorem ptr_mem_below (ptr : Addr) (content : MapContent V d) : ptr ∈ below d ptr content := by
  cases d with
  | zero => exact Multiset.mem_singleton_self ptr
  | succ d => exact Multiset.mem_cons_self _ _

/-! ### Layouts in memory -/

/-- The node of an entry has the value and the count of the entry, and nothing else lies there. -/
structure NodeAt {α : Type} (m : MapMemory V) (e : NodeEntry α) : Prop where
  node : ∃ n, m.nodes e.at = some n ∧ n.value = e.ptr ∧ n.refcount = e.refcount
  childList : m.nodes (.childList e.node) = none
  cell : m.cells e.node = none

/-- What a node points to, and what is below it. -/
def Lies (m : MapMemory V) : (d : Nat) → Addr → MapContent V d → Prop
  | 0, ptr, value =>
      m.cells ptr = some (.value value) ∧ m.nodes (.node ptr) = none ∧
        m.nodes (.childList ptr) = none
  | d + 1, ptr, content =>
      m.cells ptr = some (.mapValue content.1) ∧ m.nodes (.node ptr) = none ∧
        m.nodes.Rings (.childList ptr) (content.2.map NodeEntry.at) ∧
        ∀ e ∈ content.2, m.NodeAt e ∧ Lies m d e.ptr e.content

/-- The memory holds the list at `head`, and its addresses are told apart. -/
structure Owns (m : MapMemory V) (d : Nat) (head : MapPtr) (l : List (MapEntry V d)) :
    Prop where
  ring : m.nodes.Rings head (l.map NodeEntry.at)
  node : ∀ e ∈ l, m.NodeAt e
  lies : ∀ e ∈ l, m.Lies d e.ptr e.content
  nodup : (ownedBy d l).Nodup
  nonzero : 0 ∉ ownedBy d l
  outside : ∀ a ∈ head.owner, a ∉ ownedBy d l

/-- Nothing lies at the address. -/
structure Dead (m : MapMemory V) (a : Addr) : Prop where
  node : m.nodes (.node a) = none
  childList : m.nodes (.childList a) = none
  cell : m.cells a = none

/-- What lies at the address stays. -/
structure Kept (m m' : MapMemory V) (a : Addr) : Prop where
  node : m'.nodes (.node a) = m.nodes (.node a)
  childList : m'.nodes (.childList a) = m.nodes (.childList a)
  cell : m'.cells a = m.cells a

/-- A place that belongs to none of the addresses. -/
def Outside (owned : Multiset Addr) (b : MapPtr) : Prop := ∀ a ∈ b.owner, a ∉ owned

/-- Nothing changed but at the head of a list and at the addresses. -/
structure Untouched (head : MapPtr) (owned : Multiset Addr) (m m' : MapMemory V) : Prop where
  nodes : ∀ b ≠ head, Outside owned b → m'.nodes b = m.nodes b
  cells : ∀ a ∉ owned, m'.cells a = m.cells a

/-! ### What a layout depends on -/

/-- A ring is read off its own nodes. -/
theorem Rings.same {H H' : NodeHeap MapPtr} {head : MapPtr} {l : List MapPtr} (h : H.Rings head l)
    (hsame : ∀ b ∈ head :: l, H' b = H b) : H'.Rings head l :=
  h.congr (fun b hb => by rw [nextOf, nextOf, hsame b hb])
    fun b hb => by rw [prevOf, prevOf, hsame b hb]

/-- A node is read off the places it owns. -/
theorem NodeAt.same {α : Type} {m m' : MapMemory V} {e : NodeEntry α} (h : m.NodeAt e)
    (hnodes : ∀ b, e.node ∈ b.owner → m'.nodes b = m.nodes b)
    (hcell : m'.cells e.node = m.cells e.node) : m'.NodeAt e := by
  obtain ⟨⟨n, hn, hvalue, hcount⟩, hchild, hc⟩ := h
  exact ⟨⟨n, (hnodes e.at rfl).trans hn, hvalue, hcount⟩,
    (hnodes (.childList e.node) rfl).trans hchild, hcell.trans hc⟩

/-- A content is read off the places below it. -/
theorem Lies.same {m m' : MapMemory V} {ptr : Addr} {content : MapContent V d}
    (h : m.Lies d ptr content)
    (hnodes : ∀ b, ∀ a ∈ b.owner, a ∈ below d ptr content → m'.nodes b = m.nodes b)
    (hcells : ∀ a ∈ below d ptr content, m'.cells a = m.cells a) : m'.Lies d ptr content := by
  have hptr := ptr_mem_below ptr content
  induction d generalizing ptr with
  | zero =>
      obtain ⟨hcell, hnode, hchild⟩ := h
      exact ⟨(hcells ptr hptr).trans hcell, (hnodes (.node ptr) ptr rfl hptr).trans hnode,
        (hnodes (.childList ptr) ptr rfl hptr).trans hchild⟩
  | succ d ih =>
      obtain ⟨hcell, hnode, hring, hl⟩ := h
      have hin : ∀ e ∈ content.2, ∀ a ∈ owned d e, a ∈ below (d + 1) ptr content :=
        fun e he a ha => Multiset.mem_cons_of_mem (mem_ownedBy he ha)
      refine ⟨(hcells ptr hptr).trans hcell, (hnodes (.node ptr) ptr rfl hptr).trans hnode,
        Rings.same hring fun b hb => ?_, fun e he => ?_⟩
      · rcases List.mem_cons.mp hb with rfl | hb
        · exact hnodes _ ptr rfl hptr
        · obtain ⟨e, he, rfl⟩ := List.mem_map.mp hb
          exact hnodes _ _ rfl (hin e he _ (node_mem_owned e))
      · obtain ⟨hat, hlies⟩ := hl e he
        have hbelow : ∀ a ∈ below d e.ptr e.content, a ∈ below (d + 1) ptr content := fun a ha =>
          hin e he a (owned_eq e ▸ Multiset.mem_cons_of_mem ha)
        have hown := hin e he _ (node_mem_owned e)
        exact ⟨hat.same (fun b hb => hnodes b _ hb hown) (hcells _ hown),
          ih hlies (fun b a hb ha => hnodes b a hb (hbelow a ha))
            (fun a ha => hcells a (hbelow a ha)) (ptr_mem_below _ _)⟩

/-- The places and cells of a list are its head's and those of its addresses. -/
theorem Owns.same {m m' : MapMemory V} {head : MapPtr} {l : List (MapEntry V d)}
    (h : m.Owns d head l) (hhead : m'.nodes head = m.nodes head)
    (hnodes : ∀ b, ∀ a ∈ b.owner, a ∈ ownedBy d l → m'.nodes b = m.nodes b)
    (hcells : ∀ a ∈ ownedBy d l, m'.cells a = m.cells a) : m'.Owns d head l := by
  have hnode : ∀ e ∈ l, e.node ∈ ownedBy d l := fun e he => mem_ownedBy he (node_mem_owned e)
  have hbelow : ∀ e ∈ l, ∀ a ∈ below d e.ptr e.content, a ∈ ownedBy d l := fun e he a ha =>
    mem_ownedBy he (owned_eq e ▸ Multiset.mem_cons_of_mem ha)
  refine ⟨Rings.same h.ring fun b hb => ?_,
    fun e he => (h.node e he).same (fun b hb => hnodes b _ hb (hnode e he)) (hcells _ (hnode e he)),
    fun e he => (h.lies e he).same (fun b a hb ha => hnodes b a hb (hbelow e he a ha))
      fun a ha => hcells a (hbelow e he a ha), h.nodup, h.nonzero, h.outside⟩
  rcases List.mem_cons.mp hb with rfl | hb
  · exact hhead
  · obtain ⟨e, he, rfl⟩ := List.mem_map.mp hb
    exact hnodes _ _ rfl (hnode e he)

/-- Something lies at every address below a node. -/
theorem Lies.live {m : MapMemory V} {ptr : Addr} {content : MapContent V d}
    (h : m.Lies d ptr content) {a : Addr} (ha : a ∈ below d ptr content) : ¬ m.Dead a := by
  intro hdead
  induction d generalizing ptr a with
  | zero =>
      obtain rfl := Multiset.mem_singleton.mp ha
      cases hdead.cell.symm.trans h.1
  | succ d ih =>
      obtain ⟨hcell, -, -, hl⟩ := h
      rcases Multiset.mem_cons.mp ha with rfl | ha
      · cases hdead.cell.symm.trans hcell
      · obtain ⟨e, he, ha⟩ := exists_of_mem_ownedBy ha
        obtain ⟨hat, hlies⟩ := hl e he
        rw [owned_eq] at ha
        rcases Multiset.mem_cons.mp ha with rfl | ha
        · obtain ⟨n, hn, -⟩ := hat.node
          cases hdead.node.symm.trans hn
        · exact ih hlies ha hdead

/-- What a list owns is not free. -/
theorem Owns.live {m : MapMemory V} {head : MapPtr} {l : List (MapEntry V d)} (h : m.Owns d head l)
    {a : Addr} (ha : a ∈ ownedBy d l) : ¬ m.Dead a := by
  obtain ⟨e, he, ha⟩ := exists_of_mem_ownedBy ha
  rw [owned_eq] at ha
  rcases Multiset.mem_cons.mp ha with rfl | ha
  · intro hdead
    obtain ⟨n, hn, -⟩ := (h.node e he).node
    cases hdead.node.symm.trans hn
  · exact (h.lies e he).live ha

section Untouched

variable {m m' m₁ m₂ : MapMemory V} {head : MapPtr} {changed : Multiset Addr}

/-- A place that belongs to an address is not a head that does not. -/
theorem ne_of_owner {b : MapPtr} {a : Addr} (hb : a ∈ b.owner) (hhead : a ∉ head.owner) :
    b ≠ head := by
  rintro rfl
  exact hhead hb

/-- A link outside of what changed. -/
theorem Untouched.place (h : Untouched head changed m m') {b : MapPtr} {a : Addr} (hb : a ∈ b.owner)
    (ha : a ∉ changed) (hhead : a ∉ head.owner) : m'.nodes b = m.nodes b := by
  refine h.nodes b (ne_of_owner hb hhead) fun c hc => ?_
  rwa [Option.mem_unique hc hb]

/-- An address outside of what changed. -/
theorem Untouched.kept (h : Untouched head changed m m') {a : Addr} (ha : a ∉ changed)
    (hhead : a ∉ head.owner) : Kept m m' a where
  node := h.place (b := .node a) rfl ha hhead
  childList := h.place (b := .childList a) rfl ha hhead
  cell := h.cells a ha

theorem Kept.trans {a : Addr} (h : Kept m m₁ a) (h' : Kept m₁ m₂ a) : Kept m m₂ a :=
  ⟨h'.node.trans h.node, h'.childList.trans h.childList, h'.cell.trans h.cell⟩

/-- A free address stays free. -/
theorem Kept.dead {a : Addr} (h : Kept m m' a) (hdead : m.Dead a) : m'.Dead a :=
  ⟨h.node.trans hdead.node, h.childList.trans hdead.childList, h.cell.trans hdead.cell⟩

theorem Kept.value {ptr : Addr} {value : MapContent V 0} (h : Kept m m' ptr)
    (hlies : m.Lies 0 ptr value) : m'.Lies 0 ptr value :=
  ⟨h.cell.trans hlies.1, h.node.trans hlies.2.1, h.childList.trans hlies.2.2⟩

/-- A node outside of what changed is still there. -/
theorem Untouched.nodeAt {α : Type} (h : Untouched head changed m m') {e : NodeEntry α}
    (ha : e.node ∉ changed) (hhead : e.node ∉ head.owner) (hnode : m.NodeAt e) : m'.NodeAt e :=
  hnode.same (fun _ hb => h.place hb ha hhead) (h.cells _ ha)

/-- A content outside of what changed is still there. -/
theorem Untouched.lies (h : Untouched head changed m m') {ptr : Addr} {content : MapContent V d}
    (hdisj : ∀ a ∈ below d ptr content, a ∉ changed ∧ a ∉ head.owner)
    (hlies : m.Lies d ptr content) : m'.Lies d ptr content := by
  refine hlies.same (fun b a hb ha => ?_) fun a ha => h.cells a (hdisj a ha).1
  exact h.place hb (hdisj a ha).1 (hdisj a ha).2

theorem Outside.mono {owned owned' : Multiset Addr} {b : MapPtr} (h : Outside owned' b)
    (hsub : ∀ a ∈ owned, a ∈ owned') : Outside owned b := fun a hb ha => h a hb (hsub a ha)

/-- Two changes, one after the other. -/
theorem Untouched.trans {changed' : Multiset Addr} (h : Untouched head changed m m₁)
    (h' : Untouched head changed' m₁ m₂) {all : Multiset Addr} (hsub : ∀ a ∈ changed, a ∈ all)
    (hsub' : ∀ a ∈ changed', a ∈ all) : Untouched head all m m₂ where
  nodes b hb hout := (h'.nodes b hb (hout.mono hsub')).trans (h.nodes b hb (hout.mono hsub))
  cells a ha := (h'.cells a (mt (hsub' a) ha)).trans (h.cells a (mt (hsub a) ha))

end Untouched

/-! ### Changes to a list -/

/-- The list at `head` is changed, with the addresses gained, handed out and freed. -/
structure Moves (d : Nat) (head : MapPtr) (l l' : List (MapEntry V d))
    (gained dropped freed : Multiset Addr) (m m' : MapMemory V) : Prop where
  owns : m'.Owns d head l'
  account : ownedBy d l + gained = ownedBy d l' + dropped + freed
  dead : ∀ a ∈ freed, m'.Dead a
  kept : ∀ a ∈ dropped, Kept m m' a
  untouched : Untouched head (ownedBy d l + gained) m m'

/-- Nothing moved. -/
theorem Moves.refl {head : MapPtr} {l : List (MapEntry V d)} {m : MapMemory V}
    (h : m.Owns d head l) : Moves d head l l 0 0 0 m m where
  owns := h
  account := by rw [add_zero, add_zero]
  dead a ha := absurd ha (Multiset.notMem_zero a)
  kept a _ := ⟨rfl, rfl, rfl⟩
  untouched := ⟨fun _ _ _ => rfl, fun _ _ => rfl⟩

/-- A change and, after it, another one that hands out nothing. -/
theorem Moves.trans {head : MapPtr} {l l₁ l₂ : List (MapEntry V d)}
    {gained gained' dropped freed freed' : Multiset Addr} {m m₁ m₂ : MapMemory V}
    (h : Moves d head l l₁ gained dropped freed m m₁)
    (h' : Moves d head l₁ l₂ gained' 0 freed' m₁ m₂)
    (hfresh : (ownedBy d l + gained + gained').Nodup)
    (hhead : ∀ a ∈ head.owner, a ∉ ownedBy d l + gained) :
    Moves d head l l₂ (gained + gained') dropped (freed + freed') m m₂ := by
  have hnodup : (ownedBy d l₁ + dropped + freed + gained').Nodup := h.account ▸ hfresh
  -- what was handed out or freed is not touched again
  have hgone : ∀ a ∈ dropped + freed, a ∉ ownedBy d l₁ + gained' ∧ a ∉ head.owner := by
    intro a ha
    refine ⟨?_, fun hb => hhead a hb ?_⟩
    · rw [add_assoc _ dropped, add_right_comm, Multiset.nodup_add] at hnodup
      exact Multiset.disjoint_right.mp hnodup.2.2 ha
    · rw [h.account, add_assoc]
      exact Multiset.mem_add.mpr (.inr ha)
  refine ⟨h'.owns, ?_, ?_, ?_, ?_⟩
  · rw [← add_assoc, h.account, add_right_comm, add_right_comm _ dropped, h'.account]
    abel
  · intro a ha
    rcases Multiset.mem_add.mp ha with ha | ha
    · obtain ⟨hout, hhead⟩ := hgone a (Multiset.mem_add.mpr (.inr ha))
      exact (h'.untouched.kept hout hhead).dead (h.dead a ha)
    · exact h'.dead a ha
  · intro a ha
    obtain ⟨hout, hhead⟩ := hgone a (Multiset.mem_add.mpr (.inl ha))
    exact (h.kept a ha).trans (h'.untouched.kept hout hhead)
  · refine h.untouched.trans h'.untouched (fun a ha => ?_) fun a ha => ?_
    · rw [← add_assoc]
      exact Multiset.mem_add.mpr (.inl ha)
    · rw [← add_assoc, h.account, add_right_comm, add_right_comm _ dropped, add_assoc]
      exact Multiset.mem_add.mpr (.inl ha)

/-! ### The list of a symbol -/

section Symbol

variable {m m' : MapMemory V} {head : MapPtr} {l before after : List (MapEntry V (d + 1))}
  {e : MapEntry V (d + 1)}

/-- The addresses of a list, at one of its symbols. -/
theorem ownedBy_symbol (before after : List (MapEntry V (d + 1)))
    (e : MapEntry V (d + 1)) :
    ownedBy (d + 1) (before ++ e :: after) =
      e.node ::ₘ e.ptr ::ₘ (ownedBy d e.content.2 + ownedBy (d + 1) (before ++ after)) := by
  rw [ownedBy_split, owned, Multiset.cons_add, Multiset.cons_add]

/-- A `SymbolMapValue` holds the list of its symbol. -/
theorem Lies.owns {ptr : Addr} {content : MapContent V (d + 1)} (h : m.Lies (d + 1) ptr content)
    (hnodup : (below (d + 1) ptr content).Nodup) (hzero : 0 ∉ below (d + 1) ptr content) :
    m.Owns d (.childList ptr) content.2 := by
  obtain ⟨-, -, hring, hl⟩ := h
  obtain ⟨hptr, hnodup⟩ := Multiset.nodup_cons.mp hnodup
  refine ⟨hring, fun e he => (hl e he).1, fun e he => (hl e he).2, hnodup,
    fun hin => hzero (Multiset.mem_cons_of_mem hin), ?_⟩
  rintro a ⟨⟩
  exact hptr

/-- The list of a symbol. -/
theorem Owns.children (h : m.Owns (d + 1) head l) (he : e ∈ l) :
    m.Owns d (.childList e.ptr) e.content.2 := by
  obtain ⟨before, after, rfl⟩ := List.append_of_mem he
  have hle : below (d + 1) e.ptr e.content ≤ ownedBy (d + 1) (before ++ e :: after) := by
    rw [ownedBy_split, owned_eq]
    exact (Multiset.le_cons_self _ _).trans (Multiset.le_add_right _ _)
  exact (h.lies e he).owns (Multiset.nodup_of_le hle h.nodup)
    fun hin => h.nonzero (Multiset.mem_of_le hle hin)

/-- **A change to the list of a symbol** is one to the list the symbol is in. -/
theorem Moves.focus {children : List (MapEntry V d)} {gained dropped freed : Multiset Addr}
    (h : m.Owns (d + 1) head (before ++ e :: after))
    (hm : Moves d (.childList e.ptr) e.content.2 children gained dropped freed m m')
    (hfresh : (ownedBy (d + 1) (before ++ e :: after) + gained).Nodup) (hzero : 0 ∉ gained)
    (hhead : ∀ a ∈ head.owner, a ∉ gained) :
    Moves (d + 1) head (before ++ e :: after)
      (before ++ { e with content := (e.content.1, children) } :: after) gained dropped freed m
      m' := by
  have hold := ownedBy_symbol before after e
  have hnew := ownedBy_symbol before after { e with content := (e.content.1, children) }
  dsimp only at hnew
  have haccount : ownedBy (d + 1) (before ++ e :: after) + gained =
      ownedBy (d + 1) (before ++ { e with content := (e.content.1, children) } :: after) +
        dropped + freed := by
    rw [hold, hnew]
    simp only [Multiset.cons_add]
    rw [add_right_comm, hm.account]
    abel_nf
  -- what is not below the symbol is not touched
  have hkept : ∀ a ∈ e.node ::ₘ e.ptr ::ₘ ownedBy (d + 1) (before ++ after),
      a ∉ ownedBy d e.content.2 + gained := by
    have hsplit : (e.node ::ₘ e.ptr ::ₘ ownedBy (d + 1) (before ++ after) +
        (ownedBy d e.content.2 + gained)).Nodup := by
      refine (congrArg Multiset.Nodup ?_).mp hfresh
      rw [hold]
      simp only [Multiset.cons_add]
      abel_nf
    exact fun a ha => Multiset.disjoint_left.mp (Multiset.nodup_add.mp hsplit).2.2 ha
  have hnodup := h.nodup
  rw [hold, Multiset.nodup_cons, Multiset.nodup_cons] at hnodup
  obtain ⟨hnode, hptr, -⟩ := hnodup
  have hne : e.node ≠ e.ptr := fun he => hnode (he ▸ Multiset.mem_cons_self _ _)
  have hptrIn : e.ptr ∈ ownedBy (d + 1) (before ++ e :: after) := by
    rw [hold]
    exact Multiset.mem_cons_of_mem (Multiset.mem_cons_self _ _)
  have hothers : ∀ a ∈ ownedBy (d + 1) (before ++ after),
      a ∉ ownedBy d e.content.2 + gained ∧ a ∉ (MapPtr.childList e.ptr).owner := by
    refine fun a ha => ⟨hkept a (Multiset.mem_cons_of_mem (Multiset.mem_cons_of_mem ha)), ?_⟩
    rintro ⟨⟩
    exact hptr (Multiset.mem_add.mpr (.inr ha))
  -- the places of the list itself
  have hhead' : m'.nodes head = m.nodes head := by
    refine hm.untouched.nodes head ?_ fun a ha => ?_
    · rintro rfl
      exact h.outside _ rfl hptrIn
    · rw [Multiset.mem_add, not_or]
      refine ⟨fun hin => h.outside a ha ?_, hhead a ha⟩
      rw [hold]
      exact Multiset.mem_cons_of_mem (Multiset.mem_cons_of_mem (Multiset.mem_add.mpr (.inl hin)))
  have hnodes : ∀ c ∈ before ++ e :: after, c.node ∉ ownedBy d e.content.2 + gained ∧
      c.node ∉ (MapPtr.childList e.ptr).owner := by
    intro c hc
    rcases List.mem_cons.mp (List.perm_middle.mem_iff.mp hc) with rfl | hc
    · exact ⟨hkept _ (Multiset.mem_cons_self _ _), fun he => hne (Option.some.inj he).symm⟩
    · exact hothers c.node (mem_ownedBy hc (node_mem_owned c))
  have hptrKept := hkept _ (Multiset.mem_cons_of_mem (Multiset.mem_cons_self _ _))
  have hring : m'.nodes.Rings head ((before ++ e :: after).map NodeEntry.at) := by
    refine Rings.same h.ring fun b hb => ?_
    rcases List.mem_cons.mp hb with rfl | hb
    · exact hhead'
    · obtain ⟨c, hc, rfl⟩ := List.mem_map.mp hb
      exact hm.untouched.place rfl (hnodes c hc).1 (hnodes c hc).2
  have hbelow : ownedBy d e.content.2 + gained ≤
      ownedBy (d + 1) (before ++ e :: after) + gained := by
    rw [hold]
    exact Multiset.add_le_add_right ((Multiset.le_add_right _ _).trans
      ((Multiset.le_cons_self _ _).trans (Multiset.le_cons_self _ _)))
  -- the addresses of the new list are old ones or gained
  have hle : ownedBy (d + 1) (before ++ { e with content := (e.content.1, children) } :: after) ≤
      ownedBy (d + 1) (before ++ e :: after) + gained := by
    rw [haccount, add_assoc]
    exact Multiset.le_add_right _ _
  refine ⟨⟨?_, ?_, ?_, Multiset.nodup_of_le hle hfresh, fun hin => ?_, fun a ha hin => ?_⟩, haccount,
    hm.dead, hm.kept, fun b hb hout => ?_, fun a ha => ?_⟩
  · rw [List.map_append, List.map_cons] at hring ⊢
    exact hring
  · intro c hc
    rcases List.mem_cons.mp (List.perm_middle.mem_iff.mp hc) with rfl | hc
    · have he : e ∈ before ++ e :: after := List.mem_append_right _ List.mem_cons_self
      obtain ⟨hn, hchild, hcell⟩ :=
        hm.untouched.nodeAt (hnodes e he).1 (hnodes e he).2 (h.node e he)
      exact ⟨hn, hchild, hcell⟩
    · have hc' := List.perm_middle.mem_iff.mpr (List.mem_cons_of_mem e hc)
      exact hm.untouched.nodeAt (hnodes c hc').1 (hnodes c hc').2 (h.node c hc')
  · intro c hc
    rcases List.mem_cons.mp (List.perm_middle.mem_iff.mp hc) with rfl | hc
    · have he : e ∈ before ++ e :: after := List.mem_append_right _ List.mem_cons_self
      obtain ⟨hcell, hnone, -⟩ := h.lies e he
      refine ⟨(hm.untouched.cells _ hptrKept).trans hcell, ?_, hm.owns.ring,
        fun c hc => ⟨hm.owns.node c hc, hm.owns.lies c hc⟩⟩
      refine (hm.untouched.nodes (.node e.ptr) (childList_ne_node _ _).symm ?_).trans hnone
      rintro a ⟨⟩
      exact hptrKept
    · refine hm.untouched.lies (fun a ha => hothers a (mem_ownedBy hc ?_))
        (h.lies c (List.perm_middle.mem_iff.mpr (List.mem_cons_of_mem e hc)))
      rw [owned_eq]
      exact Multiset.mem_cons_of_mem ha
  · rcases Multiset.mem_add.mp (Multiset.mem_of_le hle hin) with hin | hin
    · exact h.nonzero hin
    · exact hzero hin
  · rcases Multiset.mem_add.mp (Multiset.mem_of_le hle hin) with hin | hin
    · exact h.outside a ha hin
    · exact hhead a ha hin
  · refine hm.untouched.nodes b ?_ (hout.mono fun a ha => ?_)
    · rintro rfl
      exact hout _ rfl (Multiset.mem_add.mpr (.inl hptrIn))
    · exact Multiset.mem_of_le hbelow ha
  · exact hm.untouched.cells a (mt (Multiset.mem_of_le hbelow) ha)

end Symbol

end MapMemory

end Cmocka
