import Cmocka.Expectations.MapShape
import Cmocka.Expectations.MapLists

/-!
# Expectations — adding a value in memory

`add_symbol_value` on a map that lies in memory, whatever addresses `malloc` returns: it does to the
laid-out lists what it does to the lists of the model, and every address it allocates is in the map
afterwards, with the value that was added and what the map held before.
-/

namespace Cmocka.MapMemory

open Runs SymbolMap

variable {V : Type} {d : Nat} {m m' m₁ m₂ : MapMemory V} {head : MapPtr}

/-! ### Symbols of a laid-out list -/

theorem listFind_symbols {before after : List (MapEntry V (d + 1))} {e : MapEntry V (d + 1)}
    (hbefore : ∀ c ∈ before, c.content.1 ≠ e.content.1) :
    SymbolMap.listFind e.content.1 (toNodes (d + 1) (before ++ e :: after)) =
      some ⟨toNodes (d + 1) before, e.refcount, toNodes d e.content.2, toNodes (d + 1) after⟩ := by
  induction before with
  | nil => exact if_pos rfl
  | cons c before ih =>
      obtain ⟨hc, hbefore⟩ := List.forall_mem_cons.mp hbefore
      rw [List.cons_append, toNodes, List.map_cons, toNode, SymbolMap.listFind, if_neg hc]
      rw [ih hbefore]
      rfl

theorem listFind_symbols_none {l : List (MapEntry V (d + 1))} {name : CString}
    (h : ∀ e ∈ l, e.content.1 ≠ name) :
    SymbolMap.listFind name (toNodes (d + 1) l) = none := by
  induction l with
  | nil => rfl
  | cons e l ih =>
      obtain ⟨he, hl⟩ := List.forall_mem_cons.mp h
      rw [toNodes, List.map_cons, toNode, SymbolMap.listFind, if_neg he, ih hl]
      rfl

/-- The search in memory and the search in the model end at the same symbol. -/
theorem find_cases (l : List (MapEntry V (d + 1))) (name : CString) :
    (l.find? (fun e => e.content.1 = name) = none ∧
      SymbolMap.listFind name (toNodes (d + 1) l) = none) ∨
    ∃ before e after, l = before ++ e :: after ∧ e.content.1 = name ∧
      l.find? (fun e => e.content.1 = name) = some e ∧
      SymbolMap.listFind name (toNodes (d + 1) l) =
        some ⟨toNodes (d + 1) before, e.refcount, toNodes d e.content.2, toNodes (d + 1) after⟩ := by
  cases hfind : l.find? (fun e => e.content.1 = name) with
  | none =>
      refine .inl ⟨rfl, listFind_symbols_none fun e he => ?_⟩
      simpa using List.find?_eq_none.mp hfind e he
  | some e =>
      obtain ⟨hname, before, after, rfl, hbefore⟩ := List.find?_eq_some_iff_append.mp hfind
      obtain rfl : e.content.1 = name := of_decide_eq_true hname
      exact .inr ⟨before, e, after, rfl, rfl, rfl,
        listFind_symbols fun c hc => by simpa using hbefore c hc⟩

/-! ### Allocating -/

/-- The addresses allocated. -/
structure Allocates (used : List Addr) (m m' : MapMemory V) : Prop where
  supply : m.supply = used ++ m'.supply
  mallocs : m'.mallocs = m.mallocs + used.length
  printed : m'.printed = m.printed

theorem Allocates.refl (m : MapMemory V) : Allocates [] m m := ⟨rfl, rfl, rfl⟩

theorem Allocates.trans {used used' : List Addr} (h : Allocates used m m₁)
    (h' : Allocates used' m₁ m') : Allocates (used ++ used') m m' where
  supply := by rw [h.supply, h'.supply, List.append_assoc]
  mallocs := by rw [h'.mallocs, h.mallocs, List.length_append, Nat.add_assoc]
  printed := h'.printed.trans h.printed

/-- A list in memory to which the structure at `ptr` is to be added, and the addresses that `malloc`
returns on the way. -/
structure Ready (m : MapMemory V) (d : Nat) (head : MapPtr) (l : List (MapEntry V d)) (ptr : Addr)
    (value : V) : Prop where
  owns : m.Owns d head l
  bound : (ownedBy d l).card ≤ m.mallocs
  nodup : (ownedBy d l + (ptr ::ₘ ↑m.supply)).Nodup
  nonzero : 0 ∉ (ptr ::ₘ ↑m.supply : Multiset Addr)
  outside : ∀ a ∈ head.owner, a ∉ (ptr ::ₘ ↑m.supply : Multiset Addr)
  dead : ∀ a ∈ m.supply, m.Dead a
  lies : m.Lies 0 ptr value

/-- The structure and the first of the addresses. -/
theorem gain_le {ptr : Addr} {used rest : List Addr} (hs : m.supply = used ++ rest) :
    (ptr ::ₘ ↑used : Multiset Addr) ≤ ptr ::ₘ ↑m.supply := by
  rw [hs]
  exact Multiset.cons_le_cons ptr
    (Multiset.coe_le.mpr (List.sublist_append_left used rest).subperm)

/-- Below a symbol. -/
theorem Ready.children {before after : List (MapEntry V (d + 1))} {e : MapEntry V (d + 1)}
    {ptr : Addr} {value : V} (h : m.Ready (d + 1) head (before ++ e :: after) ptr value) :
    m.Ready d (.childList e.ptr) e.content.2 ptr value := by
  have hbelow : ownedBy d e.content.2 ≤ ownedBy (d + 1) (before ++ e :: after) := by
    rw [ownedBy_symbol]
    exact (Multiset.le_add_right _ _).trans
      ((Multiset.le_cons_self _ _).trans (Multiset.le_cons_self _ _))
  refine ⟨h.owns.children (List.mem_append_right _ List.mem_cons_self),
    (Multiset.card_le_card hbelow).trans h.bound,
    Multiset.nodup_of_le (Multiset.add_le_add_right hbelow) h.nodup, h.nonzero, ?_, h.dead,
    h.lies⟩
  rintro a ⟨⟩ hin
  refine Multiset.disjoint_left.mp (Multiset.nodup_add.mp h.nodup).2.2 ?_ hin
  rw [ownedBy_symbol]
  exact Multiset.mem_cons_of_mem (Multiset.mem_cons_self _ _)

/-- What is left after a part of the addresses went into the list. -/
theorem Ready.next {l l₁ : List (MapEntry V d)} {ptr : Addr} {value : V} {used : List Addr}
    (h : m.Ready d head l ptr value) (hmoves : Moves d head l l₁ ↑used 0 0 m m₁)
    (halloc : Allocates used m m₁) : m₁.Ready d head l₁ ptr value := by
  have haccount : ownedBy d l₁ = ownedBy d l + ↑used := by
    rw [hmoves.account, add_zero, add_zero]
  have hgain : (ptr ::ₘ ↑m.supply : Multiset Addr) = ↑used + (ptr ::ₘ ↑m₁.supply) := by
    rw [halloc.supply, ← Multiset.coe_add, Multiset.add_cons]
  have hnodup := h.nodup
  rw [hgain, ← add_assoc] at hnodup
  have hsub : ∀ a ∈ (ptr ::ₘ ↑m₁.supply : Multiset Addr), a ∈ (ptr ::ₘ ↑m.supply : Multiset Addr) :=
    fun a ha => hgain ▸ Multiset.mem_add.mpr (.inr ha)
  have hkept : ∀ a ∈ (ptr ::ₘ ↑m₁.supply : Multiset Addr), Kept m m₁ a := by
    refine fun a ha => hmoves.untouched.kept (fun hin => ?_) fun hb => h.outside a hb (hsub a ha)
    exact Multiset.disjoint_left.mp (Multiset.nodup_add.mp hnodup).2.2 hin ha
  refine ⟨hmoves.owns, ?_, haccount ▸ hnodup, fun hin => h.nonzero (hsub 0 hin),
    fun a ha hin => h.outside a ha (hsub a hin), fun a ha => ?_, ?_⟩
  · rw [haccount, Multiset.card_add, Multiset.coe_card, halloc.mallocs]
    exact Nat.add_le_add_right h.bound _
  · refine (hkept a (Multiset.mem_cons_of_mem (Multiset.mem_coe.mpr ha))).dead (h.dead a ?_)
    rw [halloc.supply]
    exact List.mem_append_right _ ha
  · exact (hkept ptr (Multiset.mem_cons_self _ _)).value h.lies

/-! ### The symbol to go on with -/

/-- A new `SymbolMapValue`, with an empty list. -/
theorem lies_newSymbol {a : Addr} {name : CString} (hdead : m.Dead a)
    (hcell : m'.cells a = some (.mapValue name))
    (hnodes : m'.nodes = Cmocka.listInitialize (.childList a) m.nodes) :
    m'.Lies (d + 1) a (name, []) := by
  refine ⟨hcell, ?_, ?_, fun e he => absurd he List.not_mem_nil⟩
  · rw [hnodes, Cmocka.listInitialize, Function.update_of_ne (childList_ne_node _ _).symm]
    exact hdead.node
  · rw [hnodes]
    exact NodeHeap.rings_listInitialize _ _

/-- The entry of a new symbol. -/
def symbolEntry (name : CString) (mapValue node : Addr) : MapEntry V (d + 1) :=
  ⟨node, 1, mapValue, (name, [])⟩

theorem owned_symbolEntry (name : CString) (mapValue node : Addr) :
    owned (d + 1) (symbolEntry name mapValue node : MapEntry V (d + 1)) = ↑[mapValue, node] :=
  Multiset.cons_swap node mapValue 0

/-- A new symbol, at the end of a list. -/
theorem newSymbol_moves {l : List (MapEntry V (d + 1))} {ptr a b : Addr} {supply : List Addr}
    {value : V} (name : CString) (h : m.Ready (d + 1) head l ptr value)
    (hsupply : m.supply = a :: b :: supply) :
    ∃ m₁, (do
        let newSymbolMapValue ← malloc
        modify fun m : MapMemory V => { m with
          cells := Function.update m.cells newSymbolMapValue (some (.mapValue name)) }
        listInitialize (.childList newSymbolMapValue)
        listAddValue head newSymbolMapValue 1) m = .ok (.node b) m₁ ∧ Allocates [a, b] m m₁ ∧
      Moves (d + 1) head l (l ++ [symbolEntry name a b]) ↑[a, b] 0 0 m m₁ := by
  have hgain : ∀ c ∈ [a, b], c ∈ (ptr ::ₘ ↑m.supply : Multiset Addr) := by
    intro c hc
    rw [hsupply]
    exact Multiset.mem_cons_of_mem (List.mem_append_left supply hc)
  have hnodup : (ownedBy (d + 1) l + ↑[a, b]).Nodup := by
    refine Multiset.nodup_of_le (Multiset.add_le_add_left ?_) h.nodup
    rw [hsupply]
    exact (Multiset.coe_le.mpr (List.sublist_append_left [a, b] supply).subperm).trans
      (Multiset.le_cons_self _ _)
  have ha := hgain a List.mem_cons_self
  have hb := hgain b (List.mem_cons_of_mem a List.mem_cons_self)
  obtain ⟨-, hab, hdisj⟩ := Multiset.nodup_add.mp hnodup
  have hne : b ≠ a := by
    rintro rfl
    simp at hab
  have hdead : ∀ c ∈ [a, b], m.Dead c := fun c hc =>
    h.dead c (hsupply ▸ List.mem_append_left supply hc)
  -- the memory in which the symbol is not in the list yet
  obtain ⟨m₀, hm₀⟩ : ∃ m₀ : MapMemory V, { m with
    supply := b :: supply
    mallocs := m.mallocs + 1
    cells := Function.update m.cells a (some (.mapValue name))
    nodes := Cmocka.listInitialize (.childList a) m.nodes } = m₀ := ⟨_, rfl⟩
  have hnodes : m₀.nodes = Cmocka.listInitialize (.childList a) m.nodes := hm₀ ▸ rfl
  have hcells : m₀.cells = Function.update m.cells a (some (.mapValue name)) := hm₀ ▸ rfl
  have hplace : ∀ c, c ≠ .childList a → m₀.nodes c = m.nodes c := by
    intro c hc
    rw [hnodes, Cmocka.listInitialize, Function.update_of_ne hc]
  have hcell : ∀ c ≠ a, m₀.cells c = m.cells c := by
    intro c hc
    rw [hcells, Function.update_of_ne hc]
  have huntouched : Untouched head {a} m m₀ := by
    refine ⟨fun c _ hc => hplace c ?_, fun c hc => hcell c (mt Multiset.mem_singleton.mpr hc)⟩
    rintro rfl
    exact hc a rfl (Multiset.mem_singleton_self a)
  have howner : ∀ c, ∀ o ∈ c.owner, o ≠ a → c ≠ MapPtr.childList a := by
    rintro c o ho hoa rfl
    exact hoa (Option.some.inj ho).symm
  have hout : ∀ c ∈ ownedBy (d + 1) l, c ≠ a := by
    rintro c hc rfl
    exact Multiset.disjoint_left.mp hdisj hc List.mem_cons_self
  have howns : m₀.Owns (d + 1) head l := by
    refine h.owns.same (hplace head ?_) (fun c o ho hin => ?_) fun c hc => hcell c (hout c hc)
    · rintro rfl
      exact h.outside a rfl ha
    · exact hplace c (howner c o ho (hout o hin))
  have hdead₀ : m₀.Dead b := by
    obtain ⟨hn, hc, hcell'⟩ := hdead b (by simp)
    exact ⟨(hplace _ (howner _ b rfl hne)).trans hn, (hplace _ (howner _ b rfl hne)).trans hc,
      (hcell b hne).trans hcell'⟩
  have howned : owned (d + 1) (symbolEntry name a b : MapEntry V (d + 1)) = ↑[a, b] :=
    owned_symbolEntry name a b
  have hzero : 0 ∉ (↑[a, b] : Multiset Addr) := fun hz => h.nonzero (hgain 0 hz)
  have hhead : ∀ c ∈ head.owner, c ∉ (↑[a, b] : Multiset Addr) := fun c hc hin =>
    h.outside c hc (hgain c hin)
  have hsupply₀ : m₀.supply = b :: supply := hm₀ ▸ rfl
  have hlies : m₀.Lies (d + 1) a ((name, []) : MapContent V (d + 1)) := by
    refine lies_newSymbol (hdead a (by simp)) ?_ hnodes
    rw [hcells, Function.update_self]
  obtain ⟨m₁, hadd, hmoves, -, hsupply₁, hmallocs₁, hprinted₁⟩ :=
    listAddValue_moves (e := symbolEntry name a b) howns hsupply₀ hdead₀ hlies
      (by rwa [howned]) (by rwa [howned]) (by rwa [howned])
  rw [howned] at hmoves
  refine ⟨m₁, ?_, ⟨?_, ?_, ?_⟩, hmoves.owns, hmoves.account, hmoves.dead,
    fun c hc => absurd hc (Multiset.notMem_zero c), ?_⟩
  · rw [bind_of_ok (malloc_of hsupply)]
    refine (bind_of_ok (modify_apply _ _) _).trans ((bind_of_ok (modify_apply _ _) _).trans ?_)
    exact (congrArg (listAddValue head a 1) hm₀).trans hadd
  · rw [hsupply, hsupply₁]
    rfl
  · rw [hmallocs₁, ← hm₀]
    rfl
  · rw [hprinted₁, ← hm₀]
  · refine huntouched.trans hmoves.untouched (fun c hc => ?_) fun c hc => hc
    rw [Multiset.mem_singleton.mp hc]
    exact Multiset.mem_add.mpr (.inr List.mem_cons_self)

/-- Adding below a symbol that was there or is new is adding to the list. -/
def GoesOn (name : CString) (l before after : List (MapEntry V (d + 1))) (e : MapEntry V (d + 1)) :
    Prop :=
  ∀ (path : List CString) (value : V) (c : Int) (children : List (MapEntry V d)),
    toNodes d children = addAt path value c (toNodes d e.content.2) →
    toNodes (d + 1) (before ++ { e with content := (name, children) } :: after) =
      addAt (name :: path) value c (toNodes (d + 1) l)

/-- The symbol `add_symbol_value` goes on with. -/
theorem targetNode_moves {l : List (MapEntry V (d + 1))} {ptr : Addr} {value : V} (name : CString)
    (h : m.Ready (d + 1) head l ptr value) (hsupply : 2 ≤ m.supply.length) :
    ∃ m₁ before e after used, targetNode head name m = .ok e.at m₁ ∧ Allocates used m m₁ ∧
      used.length ≤ 2 ∧ Moves (d + 1) head l (before ++ e :: after) ↑used 0 0 m m₁ ∧
      e.content.1 = name ∧ GoesOn name l before after e := by
  rcases find_cases l name with ⟨hfind, hnone⟩ | ⟨before, e, after, rfl, hname, hfind, hsome⟩
  · -- there is no symbol of that name: one is added at the end
    obtain ⟨a, b, supply, hs⟩ : ∃ a b supply, m.supply = a :: b :: supply := by
      obtain ⟨a, rest, hs⟩ := List.exists_cons_of_length_pos (Nat.lt_of_lt_of_le Nat.two_pos hsupply)
      rw [hs, List.length_cons] at hsupply
      obtain ⟨b, supply, rfl⟩ := List.exists_cons_of_length_pos (Nat.lt_of_succ_lt_succ hsupply)
      exact ⟨a, b, supply, hs⟩
    obtain ⟨m₁, hadd, halloc, hmoves⟩ := newSymbol_moves name h hs
    refine ⟨m₁, l, symbolEntry name a b, [], [a, b], ?_, halloc, le_rfl, hmoves, rfl, ?_⟩
    · rw [targetNode, bind_of_ok (listFind_owns name h.owns h.bound), hfind]
      exact hadd
    · intro path value c children hchildren
      rw [addAt_cons, hnone, toNodes, List.map_append, List.map_singleton]
      dsimp only
      rw [← show toNodes d children = addAt path value c [] from hchildren]
      rfl
  · refine ⟨m, before, e, after, [], ?_, .refl m, Nat.zero_le 2, .refl h.owns, hname, ?_⟩
    · rw [targetNode, bind_of_ok (listFind_owns name h.owns h.bound), hfind]
      rfl
    · intro path value c children hchildren
      rw [addAt_cons, hsome]
      dsimp only
      rw [Found.put, ← hchildren, toNodes, List.map_append, List.map_cons]
      rfl

/-! ### Adding -/

/-- `add_symbol_value`, with the empty path for a list of values. -/
def addBelow (path : List CString) (childList : MapPtr) (value : Addr) (refcount : Int) :
    MapM V Unit :=
  if path = [] then do
    let _ ← listAddValue childList value refcount
    return ()
  else addSymbolValue path childList value refcount

/-- A step of `add_symbol_value`. -/
theorem addSymbolValue_cons (name : CString) (path : List CString) (head : MapPtr) (value : Addr)
    (refcount : Int) : addSymbolValue (V := V) (name :: path) head value refcount = (do
      let target ← targetNode head name
      let targetNode ← readNode target
      addBelow path (.childList targetNode.value) value refcount) := by
  rw [addSymbolValue]
  rfl

/-- The entry of a value. -/
def valueEntry (c : Int) (ptr : Addr) (value : V) (node : Addr) : MapEntry V 0 :=
  ⟨node, c, ptr, value⟩

theorem owned_valueEntry (c : Int) (ptr : Addr) (value : V) (node : Addr) :
    owned 0 (valueEntry c ptr value node) = ptr ::ₘ ↑[node] := Multiset.cons_swap node ptr 0

/-- The value itself, at the end of a list of values. -/
theorem addBelow_value {l : List (MapEntry V 0)} {ptr : Addr} {value : V} (c : Int)
    (h : m.Ready 0 head l ptr value) (hsupply : 1 ≤ m.supply.length) :
    ∃ m' l' used, addBelow [] head ptr c m = .ok () m' ∧ Allocates used m m' ∧
      Moves 0 head l l' (ptr ::ₘ ↑used) 0 0 m m' ∧
      toNodes 0 l' = addAt [] value c (toNodes 0 l) := by
  obtain ⟨a, supply, hs⟩ := List.exists_cons_of_length_pos hsupply
  have howned := owned_valueEntry c ptr value a
  have hle : (ptr ::ₘ ↑[a] : Multiset Addr) ≤ ptr ::ₘ ↑m.supply := gain_le hs
  obtain ⟨m', hadd, hmoves, -, hsupply', hmallocs, hprinted⟩ :=
    listAddValue_moves (e := valueEntry c ptr value a) h.owns hs
      (h.dead a (hs ▸ List.mem_cons_self)) h.lies
      (howned ▸ Multiset.nodup_of_le (Multiset.add_le_add_left hle) h.nodup)
      (howned ▸ fun hz => h.nonzero (Multiset.mem_of_le hle hz))
      (howned ▸ fun b hb hin => h.outside b hb (Multiset.mem_of_le hle hin))
  rw [howned] at hmoves
  refine ⟨m', l ++ [valueEntry c ptr value a], [a], ?_, ⟨hsupply' ▸ hs, hmallocs, hprinted⟩,
    hmoves, ?_⟩
  · rw [addBelow, if_pos rfl]
    exact bind_of_ok hadd _
  · rw [addAt_nil, toNodes, List.map_append, List.map_singleton]
    rfl

theorem addBelow_moves (path : List CString) {l : List (MapEntry V path.length)} {ptr : Addr}
    {value : V} (c : Int) (h : m.Ready path.length head l ptr value)
    (hsupply : 2 * path.length + 1 ≤ m.supply.length) :
    ∃ m' l' used, addBelow path head ptr c m = .ok () m' ∧ Allocates used m m' ∧
      Moves path.length head l l' (ptr ::ₘ ↑used) 0 0 m m' ∧
      toNodes path.length l' = addAt path value c (toNodes path.length l) := by
  induction path generalizing m head with
  | nil => exact addBelow_value c h hsupply
  | cons name path ih =>
      rw [List.length_cons] at hsupply
      obtain ⟨m₁, before, e, after, used, htarget, halloc, hlen, hmoves, rfl, hgoes⟩ :=
        targetNode_moves name h (by omega)
      have h₁ := h.next hmoves halloc
      obtain ⟨n, hn, hvalue, -⟩ := h₁.owns.entryNode
      have hsupply₁ : 2 * path.length + 1 ≤ m₁.supply.length := by
        have hlength := congrArg List.length halloc.supply
        rw [List.length_append] at hlength
        omega
      obtain ⟨m', children, used', hadd, halloc', hmoves', hnodes⟩ := ih h₁.children hsupply₁
      -- below the symbol, and with it in the list
      have hle : (ptr ::ₘ ↑used' : Multiset Addr) ≤ ptr ::ₘ ↑m₁.supply := gain_le halloc'.supply
      have hfresh := Multiset.nodup_of_le (Multiset.add_le_add_left hle) h₁.nodup
      have hfocus := hmoves'.focus h₁.owns hfresh (fun hz => h₁.nonzero (Multiset.mem_of_le hle hz))
        fun a ha hin => h₁.outside a ha (Multiset.mem_of_le hle hin)
      have haccount := hmoves.account
      rw [add_zero, add_zero] at haccount
      have hall := hmoves.trans hfocus (haccount ▸ hfresh) (haccount ▸ h₁.owns.outside)
      refine ⟨m', _, used ++ used', ?_, halloc.trans halloc', ?_, hgoes path value c children hnodes⟩
      · rw [addBelow, if_neg (List.cons_ne_nil _ _), addSymbolValue_cons, bind_of_ok htarget,
          bind_of_ok hn, hvalue]
        exact hadd
      · rw [← Multiset.coe_add, ← Multiset.add_cons]
        exact hall

/-- **`add_symbol_value`.** -/
theorem addSymbolValue_moves {path : List CString} {l : List (MapEntry V d)} {ptr : Addr} {value : V}
    (c : Int) (hpath : path.length = d) (hne : path ≠ []) (h : m.Ready d head l ptr value)
    (hsupply : 2 * d + 1 ≤ m.supply.length) :
    ∃ m' l' used, addSymbolValue path head ptr c m = .ok () m' ∧ Allocates used m m' ∧
      Moves d head l l' (ptr ::ₘ ↑used) 0 0 m m' ∧
      toNodes d l' = SymbolMap.addSymbolValue path value c (toNodes d l) := by
  subst hpath
  have hadd := addBelow_moves path c h hsupply
  rwa [addBelow, if_neg hne, addAt, if_neg hne] at hadd

end Cmocka.MapMemory
