import Cmocka.Expectations.MapRefinement
import Cmocka.Expectations.MapAdding

/-!
# Expectations — getting a value in memory

`get_symbol_value` on a map that lies in memory.  It hands out the address of a value; on the last
use the node goes and the value is the caller's from then on, before that the value stays in the map.
Every symbol on the way whose list became empty is freed.
-/

namespace Cmocka.MapMemory

open Runs SymbolMap

variable {V : Type} {d : Nat} {m m' m₁ m₂ : MapMemory V} {head : MapPtr}

/-! ### The count of a node -/

/-- The count of the first node is decremented. -/
theorem decrement_moves {l : List (MapEntry V d)} {e : MapEntry V d} (h : m.Owns d head (e :: l)) :
    ∃ m', onNodes (fun H => H.modify e.at fun n => { n with refcount := n.refcount - 1 }) m =
        .ok () m' ∧
      Moves d head (e :: l) ({ e with refcount := e.refcount - 1 } :: l) 0 0 0 m m' ∧ Calm m m' ∧
      ∀ a ≠ e.node, Kept m m' a := by
  obtain ⟨n, hn, hvalue, hcount⟩ := (h.node e List.mem_cons_self).node
  obtain ⟨m', hm'⟩ : ∃ m' : MapMemory V, { m with
    nodes := Function.update m.nodes e.at (some { n with refcount := n.refcount - 1 }) } = m' :=
    ⟨_, rfl⟩
  have hself : m'.nodes e.at = some { n with refcount := n.refcount - 1 } :=
    hm' ▸ Function.update_self _ _ _
  have hother : ∀ b ≠ e.at, m'.nodes b = m.nodes b := fun b hb =>
    hm' ▸ Function.update_of_ne hb _ _
  have hcells : m'.cells = m.cells := hm' ▸ rfl
  have hlinks : ∀ b, m'.nodes.nextOf b = m.nodes.nextOf b ∧
      m'.nodes.prevOf b = m.nodes.prevOf b := by
    intro b
    by_cases hb : b = e.at
    · rw [hb, NodeHeap.nextOf, NodeHeap.nextOf, NodeHeap.prevOf, NodeHeap.prevOf, hself, hn]
      exact ⟨rfl, rfl⟩
    · rw [NodeHeap.nextOf, NodeHeap.nextOf, NodeHeap.prevOf, NodeHeap.prevOf, hother b hb]
      exact ⟨rfl, rfl⟩
  have hring := h.ring.congr (fun b _ => (hlinks b).1) fun b _ => (hlinks b).2
  have hmem : e.at ∈ head :: (e :: l).map NodeEntry.at :=
    List.mem_cons_of_mem _ List.mem_cons_self
  have hlies : ∀ c ∈ e :: l, m'.Lies d c.ptr c.content := fun c hc =>
    h.lies_links (fun b hb _ _ _ => hother b fun he => hb (he ▸ hmem)) hcells hc
  have howned : ownedBy d ({ e with refcount := e.refcount - 1 } :: l) = ownedBy d (e :: l) := by
    rw [ownedBy_cons, ownedBy_cons, owned_eq, owned_eq]
  have hfirst := h.node e List.mem_cons_self
  have hchild : ∀ a, m'.nodes (.childList a) = m.nodes (.childList a) := fun a =>
    hother _ (childList_ne_node _ _)
  refine ⟨m', ?_, ⟨⟨hring, fun c hc => ?_, fun c hc => ?_, howned ▸ h.nodup, howned ▸ h.nonzero,
    howned ▸ h.outside⟩, ?_, fun a ha => absurd ha (Multiset.notMem_zero a), fun a ha =>
    absurd ha (Multiset.notMem_zero a), fun b _ hb => hother b ?_, fun a _ => congrFun hcells a⟩,
    hm' ▸ ⟨rfl, rfl, rfl⟩, fun a ha => ⟨hother _ fun he => ha (MapPtr.node.inj he), hchild a,
      congrFun hcells a⟩⟩
  · rw [← hm']
    refine onNodes_of ?_
    rw [NodeHeap.modify, hn]
    rfl
  · rcases List.mem_cons.mp hc with rfl | hc
    · refine ⟨⟨_, hself, hvalue, congrArg (· - 1) hcount⟩, (hchild _).trans hfirst.childList, ?_⟩
      exact (congrFun hcells _).trans hfirst.cell
    · have hne : c.at ≠ e.at := by
        intro he
        have hnot := (h.ring.not_mem_rest (l := [])) 
        exact hnot (he ▸ List.mem_map_of_mem hc)
      obtain ⟨⟨n', hn', hv, hcount'⟩, hnone, hcell⟩ := h.node c (List.mem_cons_of_mem e hc)
      exact ⟨⟨n', (hother _ hne).trans hn', hv, hcount'⟩, (hchild _).trans hnone,
        (congrFun hcells _).trans hcell⟩
  · rcases List.mem_cons.mp hc with rfl | hc
    · exact hlies e List.mem_cons_self
    · exact hlies c (List.mem_cons_of_mem e hc)
  · rw [howned, add_zero, add_zero]
  · rintro rfl
    refine hb e.node rfl ?_
    rw [add_zero]
    exact mem_ownedBy List.mem_cons_self (node_mem_owned e)

/-! ### The value -/

/-- What is handed out with a value: on the last use the value leaves the list. -/
structure Hands (d : Nat) (l' : List (MapEntry V d)) (returnValue : Int) (dropped : Multiset Addr)
    (ptr : Addr) (value : V) (m m' : MapMemory V) : Prop where
  lies : m.Lies 0 ptr value
  kept : Kept m m' ptr
  last : returnValue = 1 → dropped = {ptr}
  stays : returnValue ≠ 1 → dropped = 0 ∧ ptr ∈ ownedBy d l'

/-- The value handed out by `get_symbol_value`. -/
theorem takeFirst_moves {l : List (MapEntry V 0)} {c : Int} {value : V} {rest : List (MapNode V)}
    (h : m.Owns 0 head l) (htake : SymbolMap.takeFirst (toNodes 0 l) = some (c, value, rest)) :
    ∃ m' l' ptr dropped freed, takeFirst head m = .ok (c, ptr) m' ∧
      Moves 0 head l l' 0 dropped freed m m' ∧ Calm m m' ∧ toNodes 0 l' = rest ∧
      Hands 0 l' c dropped ptr value m m' := by
  cases l with
  | nil => cases htake
  | cons e l =>
      have he : e ∈ e :: l := List.mem_cons_self
      obtain ⟨n, hn, hvalue, hcount⟩ := (h.node e he).node
      have hread : takeFirst head m = _ := bind_of_ok (listFirst_owns h) _
      rw [List.head?_cons, Option.map_some] at hread
      dsimp only at hread
      rw [bind_of_ok (readNode_of hn), hcount, hvalue] at hread
      have hptr : e.ptr ∈ ownedBy 0 (e :: l) :=
        mem_ownedBy he (owned_eq e ▸ Multiset.mem_cons_of_mem (ptr_mem_below e.ptr e.content))
      have hne : e.ptr ≠ e.node := fun heq =>
        h.node_notMem_below he he (heq ▸ ptr_mem_below e.ptr e.content)
      obtain ⟨v, hv⟩ : ∃ v : V, e.content = v := ⟨_, rfl⟩
      have hvalues : toNodes 0 (e :: l) = .value e.refcount v :: toNodes 0 l := hv ▸ rfl
      rw [hvalues, SymbolMap.takeFirst] at htake
      have hlies : m.Lies 0 e.ptr v := hv ▸ h.lies e he
      split at htake
      next hone =>
        -- the last use: the node goes, and the value is handed out
        obtain ⟨rfl, rfl, rfl⟩ : e.refcount = c ∧ v = value ∧ toNodes 0 l = rest := by
          simpa using htake
        have hmiddle : m.Owns 0 head ([] ++ e :: l) := h
        obtain ⟨m', hremove, hmoves, hcalm⟩ := listRemoveFree_keeps hmiddle
        refine ⟨m', l, e.ptr, {e.ptr}, {e.node}, ?_, hmoves, hcalm, rfl, hlies,
          hmoves.kept _ (Multiset.mem_singleton_self _), fun _ => rfl, fun hc => ?_⟩
        · rw [hread, if_pos hone]
          exact bind_of_ok hremove _
        · exact absurd (by omega) hc
      next hone =>
        split at htake
        next hmany =>
          obtain ⟨rfl, rfl, rfl⟩ : e.refcount = c ∧ v = value ∧
              .value (e.refcount - 1) v :: toNodes 0 l = rest := by simpa using htake
          obtain ⟨m', hwrite, hmoves, hcalm, hkept⟩ := decrement_moves h
          refine ⟨m', { e with refcount := e.refcount - 1 } :: l, e.ptr, 0, 0, ?_, hmoves, hcalm,
            hv ▸ rfl, hlies, hkept _ hne, fun hc => ?_, fun _ => ⟨rfl, ?_⟩⟩
          · rw [hread, if_neg hone, if_pos hmany]
            exact bind_of_ok hwrite _
          · exact absurd (by omega) hone
          · have haccount := hmoves.account
            rw [add_zero, add_zero, add_zero] at haccount
            exact haccount ▸ hptr
        next hmany =>
          obtain ⟨rfl, rfl, rfl⟩ : e.refcount = c ∧ v = value ∧
              .value e.refcount v :: toNodes 0 l = rest := by simpa using htake
          refine ⟨m, e :: l, e.ptr, 0, 0, ?_, .refl h, .refl m, hvalues, hlies, ⟨rfl, rfl, rfl⟩,
            fun hc => absurd (by omega) hone, fun _ => ⟨rfl, hptr⟩⟩
          rw [hread, if_neg hone, if_neg hmany]
          rfl

/-! ### The symbols on the way -/

/-- No address is gained, so no list gets larger. -/
theorem Moves.card_le {l l' : List (MapEntry V d)} {dropped freed : Multiset Addr}
    (h : Moves d head l l' 0 dropped freed m m') : (ownedBy d l').card ≤ (ownedBy d l).card := by
  have hcard := congrArg Multiset.card h.account
  rw [add_zero, Multiset.card_add, Multiset.card_add] at hcard
  omega

/-- A symbol whose list is empty is taken out. -/
theorem close_moves {before after : List (MapEntry V (d + 1))} {e : MapEntry V (d + 1)}
    {cleanup : Addr → MapM V Unit} (h : m.Owns (d + 1) head (before ++ e :: after))
    (hbound : (ownedBy (d + 1) (before ++ e :: after)).card ≤ m.mallocs)
    (hc : Releases cleanup (d + 1) e.ptr ((e.content.1, []) : MapContent V (d + 1))) :
    ∃ m' freed, (do
        if ← listEmpty (.childList e.ptr) then listRemoveFree e.at (some cleanup)) m = .ok () m' ∧
      Moves (d + 1) head (before ++ e :: after)
        (if e.content.2.isEmpty then before ++ after else before ++ e :: after) 0 0 freed m m' ∧
      Calm m m' ∧ (e.content.2 ≠ [] → m' = m) := by
  have hempty := listEmpty_owns (h.children (List.mem_append_right _ List.mem_cons_self))
  by_cases hnil : e.content.2.isEmpty
  · have hcontent : e.content = (e.content.1, []) := Prod.ext rfl (List.isEmpty_iff.mp hnil)
    have hreleases : Releases cleanup (d + 1) e.ptr e.content := by
      rw [hcontent]
      exact hc
    obtain ⟨m', hremove, hmoves, hcalm⟩ := listRemoveFree_releases h hbound hreleases
    refine ⟨m', owned (d + 1) e, ?_, ?_, hcalm, fun hne => absurd (List.isEmpty_iff.mp hnil) hne⟩
    · rw [bind_of_ok hempty, if_pos hnil]
      exact hremove
    · rw [if_pos hnil]
      exact hmoves
  · refine ⟨m, 0, ?_, ?_, .refl m, fun _ => rfl⟩
    · rw [bind_of_ok hempty, if_neg hnil]
      rfl
    · rw [if_neg hnil]
      exact .refl h

/-- The texts printed. -/
structure Prints (texts : List CString) (m m' : MapMemory V) : Prop where
  supply : m'.supply = m.supply
  mallocs : m'.mallocs = m.mallocs
  printed : m'.printed = m.printed ++ texts

theorem Calm.prints (h : Calm m m') : Prints [] m m' :=
  ⟨h.supply, h.mallocs, h.printed.trans (List.append_nil _).symm⟩

theorem Prints.calm {texts : List CString} (h : Prints texts m m₁) (h' : Calm m₁ m') :
    Prints texts m m' :=
  ⟨h'.supply.trans h.supply, h'.mallocs.trans h.mallocs, h'.printed.trans h.printed⟩

/-- Printing does nothing to the lists. -/
theorem Moves.print {l : List (MapEntry V d)} (texts : List CString) (h : m.Owns d head l) :
    Moves d head l l 0 0 0 m { m with printed := texts } where
  owns := h.same rfl (fun _ _ _ _ => rfl) fun _ _ => rfl
  account := (Moves.refl h).account
  dead _ ha := absurd ha (Multiset.notMem_zero _)
  kept _ _ := ⟨rfl, rfl, rfl⟩
  untouched := ⟨fun _ _ _ => rfl, fun _ _ => rfl⟩

/-- What `get_symbol_value` hands out: nothing, or a value. -/
def HandsOut (d : Nat) (l' : List (MapEntry V d)) (returnValue : Int) (dropped : Multiset Addr)
    (m m' : MapMemory V) : Option Addr → Option V → Prop
  | none, none => returnValue = 0 ∧ dropped = 0
  | some ptr, some value => Hands d l' returnValue dropped ptr value m m'
  | _, _ => False

section HandsOut

variable {l' : List (MapEntry V d)} {returnValue : Int} {dropped : Multiset Addr}
  {output : Option Addr} {value : Option V}

theorem HandsOut.dropped_of_ne (h : HandsOut d l' returnValue dropped m m' output value)
    (hne : returnValue ≠ 1) : dropped = 0 := by
  cases output with
  | none =>
      cases value with
      | none => exact h.2
      | some value => exact h.elim
  | some ptr =>
      cases value with
      | none => exact h.elim
      | some value => exact (h.stays hne).1

theorem HandsOut.exists_of_ne (h : HandsOut d l' returnValue dropped m m' output value)
    (hne : returnValue ≠ 0) :
    ∃ ptr v, output = some ptr ∧ value = some v ∧ Hands d l' returnValue dropped ptr v m m' := by
  cases output with
  | none =>
      cases value with
      | none => exact absurd h.1 hne
      | some value => exact h.elim
  | some ptr =>
      cases value with
      | none => exact h.elim
      | some v => exact ⟨ptr, v, rfl, rfl, h⟩

end HandsOut

/-- `get_symbol_value`, with the empty path for a list of values. -/
def getBelow (path : List CString) (childList : MapPtr) : MapM V (Int × Option Addr) :=
  if path = [] then do
    let (returnValue, output) ← takeFirst childList
    return (returnValue, some output)
  else getSymbolValue path childList

/-- A step of `get_symbol_value` that finds the symbol. -/
theorem getSymbolValue_found {name : CString} {path : List CString} {target : MapPtr}
    {n : ListNode MapPtr} (hfind : listFind head name m = .ok (some target) m)
    (hn : readNode target m = .ok n m) (hptr : n.value ≠ 0) :
    getSymbolValue (name :: path) head m = (do
      let result ← getBelow path (.childList n.value)
      closeSymbol target (.childList n.value)
      return result) m := by
  rw [getSymbolValue, bind_of_ok hfind]
  refine (bind_of_ok hn _).trans ((bind_of_ok (assertNonNull_of hptr) _).trans ?_)
  by_cases hpath : path = []
  · rw [if_pos hpath, getBelow, if_pos hpath, bind_assoc]
    rfl
  · rw [if_neg hpath, getBelow, if_neg hpath]

/-- What was handed out below a symbol is handed out by the list, after the symbol was closed. -/
theorem HandsOut.close {children : List (MapEntry V d)} {l' : List (MapEntry V (d + 1))}
    {returnValue : Int} {dropped : Multiset Addr} {output : Option Addr} {value : Option V}
    (h : HandsOut d children returnValue dropped m m₁ output value)
    (hdropped : ∀ ptr ∈ dropped, Kept m m' ptr)
    (hstays : ∀ ptr ∈ ownedBy d children, m' = m₁ ∧ ptr ∈ ownedBy (d + 1) l') :
    HandsOut (d + 1) l' returnValue dropped m m' output value := by
  cases output with
  | none =>
      cases value with
      | none => exact h
      | some value => exact h.elim
  | some ptr =>
      cases value with
      | none => exact h.elim
      | some value =>
          obtain ⟨hlies, hkept, hlast, hstay⟩ := h
          refine ⟨hlies, ?_, hlast, fun hc => ⟨(hstay hc).1, (hstays ptr (hstay hc).2).2⟩⟩
          by_cases hc : returnValue = 1
          · exact hdropped ptr (hlast hc ▸ Multiset.mem_singleton_self ptr)
          · exact (hstays ptr (hstay hc).2).1 ▸ hkept

/-- The rest of the path, below a symbol. -/
theorem getBelow_moves {path : List CString} {l : List (MapEntry V d)} {r : GetResult V}
    (hpath : path.length = d) (h : m.Owns d head l) (hbound : (ownedBy d l).card ≤ m.mallocs)
    (hget : getAt path (toNodes d l) = some r) :
    ∃ m' l' output dropped freed, getBelow path head m = .ok (r.returnValue, output) m' ∧
      Moves d head l l' 0 dropped freed m m' ∧ Prints r.printed m m' ∧ toNodes d l' = r.list ∧
      HandsOut d l' r.returnValue dropped m m' output r.output := by
  induction path generalizing d m head r with
  | nil =>
      subst hpath
      obtain ⟨⟨c, value, rest⟩, htake, rfl⟩ := Option.map_eq_some_iff.mp hget
      obtain ⟨m', l', ptr, dropped, freed, hrun, hmoves, hcalm, hnodes, hands⟩ :=
        takeFirst_moves h htake
      refine ⟨m', l', some ptr, dropped, freed, ?_, hmoves, hcalm.prints, hnodes, hands⟩
      exact bind_of_ok hrun _
  | cons name path ih =>
      obtain ⟨d, rfl⟩ : ∃ d', d = d' + 1 := ⟨path.length, hpath.symm⟩
      have hcons : getBelow (V := V) (name :: path) head = getSymbolValue (name :: path) head :=
        if_neg (List.cons_ne_nil _ _)
      rw [getAt_cons] at hget
      rw [hcons]
      rcases find_cases l name with ⟨hfind, hnone⟩ | ⟨before, e, after, rfl, rfl, hfind, hsome⟩
      · rw [hnone] at hget
        obtain rfl := Option.some.inj hget
        refine ⟨{ m with printed := m.printed ++ [noEntries name] }, l, none, 0, 0, ?_, .print _ h,
          ⟨rfl, rfl, rfl⟩, rfl, rfl, rfl⟩
        rw [getSymbolValue, bind_of_ok (listFind_owns name h hbound), hfind]
        rfl
      · rw [hsome] at hget
        obtain ⟨r, hbelow, rfl⟩ := Option.map_eq_some_iff.mp hget
        have he : e ∈ before ++ e :: after := List.mem_append_right _ List.mem_cons_self
        have hbound' : (ownedBy d e.content.2).card ≤ m.mallocs := by
          refine le_trans ?_ hbound
          rw [ownedBy_symbol, Multiset.card_cons, Multiset.card_cons, Multiset.card_add]
          omega
        obtain ⟨m₁, children, output, dropped, freed, hrun, hmoves, hprints, hnodes, hands⟩ :=
          ih (Nat.succ.inj hpath) (h.children he) hbound' hbelow
        have hfocus := hmoves.focus h (by simpa using h.nodup) (Multiset.notMem_zero 0)
          fun a _ => Multiset.notMem_zero a
        obtain ⟨m', freed', hclose, hmoves', hcalm, hopen⟩ := close_moves hfocus.owns
          (hprints.mallocs ▸ hfocus.card_le.trans hbound)
          (freeSymbolMapValue_releases_empty e.ptr e.content.1)
        have hall := hfocus.trans hmoves' (by simpa using h.nodup) (by simpa using h.outside)
        refine ⟨m', _, output, dropped, _, ?_, hall, hprints.calm hcalm, ?_, ?_⟩
        · obtain ⟨n, hn, hvalue, -⟩ := h.entryNode
          have hptr : n.value ≠ 0 := hvalue ▸ h.ptr_ne_zero he
          have hname : listFind head e.content.1 m = .ok (some e.at) m := by
            rw [listFind_owns e.content.1 h hbound, hfind]
            rfl
          rw [getSymbolValue_found hname hn hptr, hvalue, bind_of_ok hrun]
          exact bind_of_ok hclose _
        · rw [Found.close, ← hnodes, toNodes, toNodes, List.isEmpty_map]
          dsimp only
          split
          · exact List.map_append
          · exact List.map_append
        · refine hands.close hall.kept fun ptr hptr => ?_
          have hne : children ≠ [] := by
            rintro rfl
            exact Multiset.notMem_zero _ hptr
          refine ⟨hopen hne, ?_⟩
          rw [if_neg (by simpa using hne), ownedBy_symbol]
          exact Multiset.mem_cons_of_mem
            (Multiset.mem_cons_of_mem (Multiset.mem_add.mpr (.inl hptr)))

/-- **`get_symbol_value`.** -/
theorem getSymbolValue_moves {path : List CString} {l : List (MapEntry V (d + 1))} {r : GetResult V}
    (hpath : path.length = d + 1) (h : m.Owns (d + 1) head l)
    (hbound : (ownedBy (d + 1) l).card ≤ m.mallocs)
    (hget : SymbolMap.getSymbolValue path (toNodes (d + 1) l) = some r) :
    ∃ m' l' output dropped freed, getSymbolValue path head m = .ok (r.returnValue, output) m' ∧
      Moves (d + 1) head l l' 0 dropped freed m m' ∧ Prints r.printed m m' ∧
      toNodes (d + 1) l' = r.list ∧
      HandsOut (d + 1) l' r.returnValue dropped m m' output r.output := by
  have hne : path ≠ [] := List.ne_nil_of_length_eq_add_one hpath
  rw [← getAt_of_ne_nil hne] at hget
  have hmoves := getBelow_moves hpath h hbound hget
  rwa [getBelow, if_neg hne] at hmoves

end Cmocka.MapMemory
