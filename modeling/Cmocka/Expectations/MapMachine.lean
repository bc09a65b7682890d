import Cmocka.Expectations.MapClearing

/-!
# Expectations — the maps of a test in memory

The two maps of a test live in one memory, and between two calls of the test, of its mocks or of the
runner nothing else does (`Stores`): the addresses at which something lies are those of the two
layouts.  Each call keeps this, whatever addresses `malloc` returns, as long as it returns none that
is in use; it replies and prints what the same call does on the lists of the model, and it does to
the layouts what that does to the lists.  So no call uses or frees what is not there, and after
`teardown_testing` nothing is left.
-/

namespace Cmocka

open Runs SymbolMap MapMemory

variable {V : Type}

/-! ### The maps of the model -/

/-- The number of names below the first in a path of the map. -/
def MapRoot.below : MapRoot → Nat
  | .globalFunctionResultMapHead => 0
  | .globalFunctionParameterMapHead => 1

/-- The other map. -/
def MapRoot.other : MapRoot → MapRoot
  | .globalFunctionResultMapHead => .globalFunctionParameterMapHead
  | .globalFunctionParameterMapHead => .globalFunctionResultMapHead

theorem MapRoot.other_ne (root : MapRoot) : root.other ≠ root := by
  cases root <;> decide

theorem MapRoot.eq_or_other (root root' : MapRoot) : root' = root ∨ root' = root.other := by
  cases root <;> cases root' <;> simp [MapRoot.other]

/-- The two maps. -/
abbrev Maps (V : Type) := MapRoot → List (MapNode V)

namespace Maps

/-- `add_symbol_value` on one of the maps. -/
def add (root : MapRoot) (symbolNames : List CString) (value : V) (count : Int) (maps : Maps V) :
    Maps V :=
  Function.update maps root (addSymbolValue symbolNames value count (maps root))

/-- `get_symbol_value` on one of the maps: what is returned, and what is printed. -/
def take (root : MapRoot) (symbolNames : List CString) (maps : Maps V) :
    Option (Maps V × (Int × Option V) × List CString) :=
  (getSymbolValue symbolNames (maps root)).map fun r => (Function.update maps root r.list,
    (r.returnValue, if r.returnValue = 0 then none else r.output), r.printed)

/-- `has_leftover_values`, of one of the maps. -/
def hasLeftover (location : V → SourceLocation) (root : MapRoot) (errorMessage : CString)
    (maps : Maps V) : Maps V × Bool × List CString :=
  let list := (removeAlwaysReturnValues (root.below + 1) (maps root)).1
  let (leftover, report) := checkForLeftoverValues location errorMessage (root.below + 1) list
  (Function.update maps root list, leftover != 0, report)

end Maps

/-- The call on the maps of the model: the maps after it, the reply, and what is printed. -/
def MapCall.spec (location : V → SourceLocation) :
    MapCall V → Maps V → Option (Maps V × MapReply V × List CString)
  | .willReturn function value count, maps =>
      some (maps.add .globalFunctionResultMapHead [function] value count, .done, [])
  | .mock function, maps =>
      (maps.take .globalFunctionResultMapHead [function]).map fun (maps, (rc, value), printed) =>
        (maps, .got rc value, printed)
  | .expectCheck function parameter value count, maps =>
      some (maps.add .globalFunctionParameterMapHead [function, parameter] value count, .done, [])
  | .checkExpected function parameter, maps =>
      (maps.take .globalFunctionParameterMapHead [function, parameter]).map
        fun (maps, (rc, value), printed) => (maps, .got rc value, printed)
  | .hasLeftoverValues resultMessage parameterMessage, maps =>
      let (maps, results, printed) :=
        maps.hasLeftover location .globalFunctionResultMapHead resultMessage
      let (maps, parameters, printed') :=
        maps.hasLeftover location .globalFunctionParameterMapHead parameterMessage
      some (maps, .leftover (results || parameters), printed ++ printed')

/-- The most allocations of a call. -/
def MapCall.mallocs : MapCall V → Nat
  | .willReturn _ _ _ => 4
  | .expectCheck _ _ _ _ => 6
  | _ => 0

/-! ### The two maps in one memory -/

namespace MapMemory

/-- A layout of each map. -/
abbrev Layout (V : Type) := ∀ root : MapRoot, List (MapEntry V (root.below + 1))

/-- The layouts, without addresses. -/
def Layout.maps (L : Layout V) : Maps V := fun root => toNodes (root.below + 1) (L root)

/-- The addresses of a layout of one of the maps. -/
abbrev Layout.ownedAt (L : Layout V) (root : MapRoot) : Multiset Addr :=
  ownedBy (root.below + 1) (L root)

/-- The addresses of both. -/
def Layout.held (L : Layout V) : Multiset Addr :=
  L.ownedAt .globalFunctionResultMapHead + L.ownedAt .globalFunctionParameterMapHead

/-- The layouts after a change to one of them. -/
def Layout.set (L : Layout V) (root : MapRoot) (l' : List (MapEntry V (root.below + 1))) :
    Layout V := Function.update L root l'

section Stores

variable {L : Layout V} {loose gained dropped freed : Multiset Addr} {m m' m₁ : MapMemory V}
  {root : MapRoot} {l' : List (MapEntry V (root.below + 1))}

/-- What both maps own is what the one and the other own. -/
theorem Layout.held_eq (L : Layout V) (root : MapRoot) :
    L.held = L.ownedAt root + L.ownedAt root.other := by
  cases root with
  | globalFunctionResultMapHead => rfl
  | globalFunctionParameterMapHead => exact add_comm _ _

@[simp] theorem Layout.set_self (L : Layout V) (root : MapRoot)
    (l' : List (MapEntry V (root.below + 1))) : L.set root l' root = l' :=
  Function.update_self _ _ _

theorem Layout.set_of_ne (L : Layout V) {root r : MapRoot} (l' : List (MapEntry V (root.below + 1)))
    (hr : r ≠ root) : L.set root l' r = L r :=
  Function.update_of_ne hr _ _

theorem Layout.held_set (L : Layout V) (root : MapRoot) (l' : List (MapEntry V (root.below + 1))) :
    (L.set root l').held = ownedBy (root.below + 1) l' + L.ownedAt root.other := by
  rw [held_eq _ root, ownedAt, ownedAt, set_self, set_of_ne L l' root.other_ne]

/-- The trees after one map changed. -/
theorem Layout.maps_set (L : Layout V) (root : MapRoot) (l' : List (MapEntry V (root.below + 1))) :
    (L.set root l').maps = Function.update L.maps root (toNodes (root.below + 1) l') := by
  funext r
  by_cases hr : r = root
  · subst hr
    rw [maps, set_self, Function.update_self]
  · rw [maps, set_of_ne L l' hr, Function.update_of_ne hr, maps]

/-- The memory holds both maps and, besides, `loose` addresses that are in the caller's hands. -/
structure Stores (L : Layout V) (loose : Multiset Addr) (m : MapMemory V) : Prop where
  owns : ∀ root, m.Owns (root.below + 1) (.root root) (L root)
  nodup : (L.held + loose).Nodup
  nonzero : 0 ∉ loose
  dead : ∀ a ∉ L.held + loose, m.Dead a
  bound : (L.held + loose).card ≤ m.mallocs

theorem Stores.bound_at (h : Stores L loose m) (root : MapRoot) :
    (L.ownedAt root).card ≤ m.mallocs := by
  refine le_trans ?_ h.bound
  rw [L.held_eq root, Multiset.card_add, Multiset.card_add]
  omega

/-- **A change to one of the maps**, in which `new` addresses were allocated and those of `loose` that
were not added to the map remain. -/
theorem Stores.moves {new remain : Multiset Addr} (h : Stores L loose m)
    (hmoves : Moves (root.below + 1) (.root root) (L root) l' gained dropped freed m m')
    (hsplit : loose + new = gained + remain) (hnodup : (L.held + loose + new).Nodup)
    (hzero : 0 ∉ new) (hmallocs : m'.mallocs = m.mallocs + new.card) :
    Stores (L.set root l') (remain + dropped) m' := by
  have haccount : L.held + loose + new = (L.set root l').held + (remain + dropped) + freed := by
    rw [L.held_set, L.held_eq root, add_assoc _ loose, hsplit]
    calc L.ownedAt root + L.ownedAt root.other + (gained + remain)
        = L.ownedAt root + gained + (L.ownedAt root.other + remain) := by abel
      _ = ownedBy (root.below + 1) l' + dropped + freed + (L.ownedAt root.other + remain) := by
          rw [hmoves.account]
      _ = _ := by abel
  have hle : (L.set root l').held + (remain + dropped) ≤ L.held + loose + new := by
    rw [haccount]
    exact Multiset.le_add_right _ _
  -- the change is apart from the other map
  have hapart : (L.ownedAt root + gained + L.ownedAt root.other).Nodup := by
    refine Multiset.nodup_of_le ?_ hnodup
    rw [add_assoc _ loose, hsplit, L.held_eq root, add_right_comm]
    exact Multiset.add_le_add_left (Multiset.le_add_right _ _)
  have hother : ∀ a ∈ L.ownedAt root.other, a ∉ L.ownedAt root + gained := fun a ha hin =>
    Multiset.disjoint_left.mp (Multiset.nodup_add.mp hapart).2.2 hin ha
  refine ⟨fun r => ?_, Multiset.nodup_of_le hle hnodup, fun hin => ?_, fun a ha => ?_, ?_⟩
  · rcases root.eq_or_other r with rfl | rfl
    · rw [Layout.set_self]
      exact hmoves.owns
    · rw [Layout.set_of_ne L l' root.other_ne]
      have hne : MapPtr.root root.other ≠ .root root := fun he =>
        root.other_ne (MapPtr.root.inj he)
      refine (h.owns _).same (hmoves.untouched.nodes _ hne fun a ha => ?_) (fun b a hb ha => ?_)
        fun a ha => hmoves.untouched.cells a (hother a ha)
      · cases ha
      · exact hmoves.untouched.place hb (hother a ha) fun hroot => by cases hroot
  · have hin' : 0 ∈ L.held + loose + new :=
      Multiset.mem_of_le hle (Multiset.mem_add.mpr (.inr hin))
    rcases Multiset.mem_add.mp hin' with hin' | hin'
    · rcases Multiset.mem_add.mp hin' with hin' | hin'
      · rcases Multiset.mem_add.mp hin' with hin' | hin'
        · exact (h.owns _).nonzero hin'
        · exact (h.owns _).nonzero hin'
      · exact h.nonzero hin'
    · exact hzero hin'
  · by_cases hfreed : a ∈ freed
    · exact hmoves.dead a hfreed
    · have hall : a ∉ L.held + loose + new := by
        rw [haccount, Multiset.mem_add, not_or]
        exact ⟨ha, hfreed⟩
      have hold : a ∉ L.held + loose := fun hin => hall (Multiset.mem_add.mpr (.inl hin))
      refine (hmoves.untouched.kept (fun hin => hall ?_) fun hroot => ?_).dead (h.dead a hold)
      · rw [add_assoc _ loose, hsplit, L.held_eq root]
        rcases Multiset.mem_add.mp hin with hin | hin
        · exact Multiset.mem_add.mpr (.inl (Multiset.mem_add.mpr (.inl hin)))
        · exact Multiset.mem_add.mpr (.inr (Multiset.mem_add.mpr (.inl hin)))
      · cases hroot
  · refine (Multiset.card_le_card hle).trans ?_
    rw [Multiset.card_add, hmallocs]
    exact Nat.add_le_add_right h.bound _

/-- The same, if nothing is allocated. -/
theorem Stores.moves_out (h : Stores L 0 m)
    (hmoves : Moves (root.below + 1) (.root root) (L root) l' 0 dropped freed m m')
    (hmallocs : m'.mallocs = m.mallocs) : Stores (L.set root l') dropped m' := by
  have hsplit : (0 : Multiset Addr) + 0 = 0 + 0 := rfl
  have hstores := h.moves hmoves hsplit (by simpa using h.nodup) (Multiset.notMem_zero 0) hmallocs
  rwa [zero_add] at hstores

/-! ### Adding -/

/-- `malloc` returns `n` addresses at least, none of which is in use. -/
structure Serves (m : MapMemory V) (n : Nat) : Prop where
  enough : n ≤ m.supply.length
  nodup : m.supply.Nodup
  nonzero : 0 ∉ m.supply
  dead : ∀ a ∈ m.supply, m.Dead a

/-- The addresses `malloc` will return are not in use. -/
theorem Stores.supply_nodup {n : Nat} (h : Stores L 0 m) (hs : m.Serves n) :
    (L.held + ↑m.supply).Nodup := by
  refine Multiset.nodup_add.mpr ⟨?_, hs.nodup, Multiset.disjoint_left.mpr ?_⟩
  · have hnodup := h.nodup
    rwa [add_zero] at hnodup
  · intro a ha hin
    rcases Multiset.mem_add.mp ha with ha | ha
    · exact (h.owns _).live ha (hs.dead a hin)
    · exact (h.owns _).live ha (hs.dead a hin)

/-- The caller allocates a structure and writes it. -/
theorem Stores.alloc {n : Nat} {ptr : Addr} {supply : List Addr} {value : V} (h : Stores L 0 m)
    (hs : m.Serves n) (hsupply : m.supply = ptr :: supply) (hmallocs : m₁.mallocs = m.mallocs + 1)
    (hnodes : m₁.nodes = m.nodes)
    (hcells : m₁.cells = Function.update m.cells ptr (some (.value value))) :
    Stores L {ptr} m₁ := by
  have hnodup : (L.held + {ptr}).Nodup := by
    refine Multiset.nodup_of_le (Multiset.add_le_add_left ?_) (h.supply_nodup hs)
    rw [hsupply]
    exact Multiset.singleton_le.mpr List.mem_cons_self
  have hptr : ptr ∉ L.held := fun hin =>
    Multiset.disjoint_right.mp (Multiset.nodup_add.mp hnodup).2.2 (Multiset.mem_singleton_self _) hin
  have hcell : ∀ a ≠ ptr, m₁.cells a = m.cells a := fun a ha => by
    rw [hcells, Function.update_of_ne ha]
  refine ⟨fun root => ?_, hnodup, fun hz => hs.nonzero ?_, fun a ha => ?_, ?_⟩
  · refine (h.owns root).same (by rw [hnodes]) (fun b a _ _ => by rw [hnodes]) fun a ha => hcell a ?_
    rintro rfl
    refine hptr ?_
    rw [L.held_eq root]
    exact Multiset.mem_add.mpr (.inl ha)
  · rw [hsupply, Multiset.mem_singleton.mp hz]
    exact List.mem_cons_self
  · obtain ⟨ha, hne⟩ := not_or.mp (mt Multiset.mem_add.mpr ha)
    obtain ⟨hn, hc, hd⟩ := h.dead a (by rwa [add_zero])
    exact ⟨by rwa [hnodes], by rwa [hnodes],
      (hcell a fun he => hne (Multiset.mem_singleton.mpr he)).trans hd⟩
  · rw [hmallocs, Multiset.card_add, Multiset.card_singleton]
    have hbound := h.bound
    rw [add_zero] at hbound
    exact Nat.add_le_add_right hbound 1

/-- **Adding** a new structure to one of the maps. -/
theorem addNew_stores (root : MapRoot) (symbolNames : List CString) (value : V) (count : Int)
    (h : Stores L 0 m) (hs : m.Serves (2 * (root.below + 1) + 2))
    (hnames : symbolNames.length = root.below + 1) :
    ∃ m' L', addNew root symbolNames value count m = .ok () m' ∧ Stores L' 0 m' ∧
      L'.maps = L.maps.add root symbolNames value count ∧ m'.printed = m.printed := by
  have henough := hs.enough
  obtain ⟨ptr, supply, hsupply⟩ := List.exists_cons_of_length_pos
    (Nat.lt_of_lt_of_le (Nat.succ_pos _) henough)
  obtain ⟨m₁, hm₁⟩ : ∃ m₁ : MapMemory V, { m with
    supply := supply
    mallocs := m.mallocs + 1
    cells := Function.update m.cells ptr (some (.value value)) } = m₁ := ⟨_, rfl⟩
  have hcells : m₁.cells = Function.update m.cells ptr (some (.value value)) := hm₁ ▸ rfl
  have hnodes : m₁.nodes = m.nodes := hm₁ ▸ rfl
  have hsupply₁ : m₁.supply = supply := hm₁ ▸ rfl
  have h₁ : Stores L {ptr} m₁ := h.alloc hs hsupply (hm₁ ▸ rfl) hnodes hcells
  have hgain : (ptr ::ₘ ↑m₁.supply : Multiset Addr) = ↑m.supply := by
    rw [hsupply, hsupply₁]
    rfl
  have hall := h.supply_nodup hs
  have hdead : ∀ a ∈ supply, a ≠ ptr ∧ m.Dead a := by
    refine fun a ha => ⟨?_, hs.dead a (hsupply ▸ List.mem_cons_of_mem ptr ha)⟩
    rintro rfl
    exact (List.nodup_cons.mp (hsupply ▸ hs.nodup)).1 ha
  have hptr := hs.dead ptr (hsupply ▸ List.mem_cons_self)
  have hready : m₁.Ready (root.below + 1) (.root root) (L root) ptr value := by
    refine ⟨h₁.owns root, h₁.bound_at root, ?_, ?_, fun a ha => (by cases ha), fun a ha => ?_, ?_⟩
    · rw [hgain]
      refine Multiset.nodup_of_le (Multiset.add_le_add_right ?_) hall
      rw [L.held_eq root]
      exact Multiset.le_add_right _ _
    · rw [hgain]
      exact hs.nonzero
    · obtain ⟨hne, hn, hc, hcell⟩ := hdead a (hsupply₁ ▸ ha)
      refine ⟨by rwa [hnodes], by rwa [hnodes], ?_⟩
      rwa [hcells, Function.update_of_ne hne]
    · exact ⟨by rw [hcells, Function.update_self], by rw [hnodes, hptr.node],
        by rw [hnodes, hptr.childList]⟩
  obtain ⟨m', l', used, hadd, halloc, hmoves, hmap⟩ := addSymbolValue_moves count hnames
    (List.ne_nil_of_length_eq_add_one hnames) hready (by
      rw [hsupply, List.length_cons] at henough
      rw [hsupply₁]
      omega)
  have hgained : (ptr ::ₘ ↑used : Multiset Addr) ≤ ↑m.supply := hgain ▸ gain_le halloc.supply
  have hsplit : ({ptr} : Multiset Addr) + ↑used = (ptr ::ₘ ↑used) + 0 := (add_zero _).symm
  have hnodup : (L.held + {ptr} + ↑used).Nodup := by
    rw [add_assoc]
    exact Multiset.nodup_of_le (Multiset.add_le_add_left hgained) hall
  have hstores := h₁.moves hmoves hsplit hnodup
    (fun hz => hs.nonzero (Multiset.mem_of_le hgained (Multiset.mem_cons_of_mem hz)))
    (halloc.mallocs.trans (congrArg (_ + ·) (Multiset.coe_card used).symm))
  rw [add_zero] at hstores
  refine ⟨m', L.set root l', ?_, hstores, ?_, ?_⟩
  · rw [addNew, bind_of_ok (malloc_of hsupply)]
    refine (bind_of_ok (modify_apply _ _) _).trans ?_
    exact (congrArg (addSymbolValue symbolNames (.root root) ptr count) hm₁).trans hadd
  · rw [L.maps_set, hmap]
    rfl
  · rw [halloc.printed, ← hm₁]

/-! ### Taking -/

/-- The caller frees a structure. -/
theorem Stores.free {ptr : Addr} (h : Stores L {ptr} m) (hlies : ∃ value, m.Lies 0 ptr value) :
    ∃ m', free ptr m = .ok () m' ∧ Stores L 0 m' ∧ Calm m m' := by
  obtain ⟨value, hcell, hnode, -⟩ := hlies
  obtain ⟨m', hfree, hr⟩ := free_released hcell hnode
  obtain ⟨hnodup, -, hdisj⟩ := Multiset.nodup_add.mp h.nodup
  have hptr : ptr ∉ L.held := fun hin =>
    Multiset.disjoint_right.mp hdisj (Multiset.mem_singleton_self _) hin
  have hheld : ∀ root, ∀ a ∈ L.ownedAt root, a ∉ ({ptr} : Multiset Addr) := by
    intro root a ha hin
    refine hptr ?_
    rw [← Multiset.mem_singleton.mp hin, L.held_eq root]
    exact Multiset.mem_add.mpr (.inl ha)
  refine ⟨m', hfree, ⟨fun root => ?_, ?_, Multiset.notMem_zero 0, fun a ha => ?_, ?_⟩, hr.calm⟩
  · refine (h.owns root).same (hr.nodes _ fun a ha => by cases ha) (fun b a hb ha => ?_)
      fun a ha => hr.cells a (hheld root a ha)
    refine hr.nodes b fun a' ha' => ?_
    rw [Option.mem_unique ha' hb]
    exact hheld root a ha
  · rwa [add_zero]
  · rw [add_zero] at ha
    by_cases hap : a = ptr
    · exact hap ▸ hr.dead ptr (Multiset.mem_singleton_self ptr)
    · have hne : a ∉ ({ptr} : Multiset Addr) := mt Multiset.mem_singleton.mp hap
      exact hr.stillDead hne (h.dead a fun hin => (Multiset.mem_add.mp hin).elim ha hne)
  · rw [hr.calm.mallocs]
    exact (Multiset.card_le_card (Multiset.add_le_add_left (Multiset.zero_le _))).trans h.bound

/-- **Taking** a value from one of the maps. -/
theorem takeValue_stores (root : MapRoot) (symbolNames : List CString) {maps : Maps V} {rc : Int}
    {value : Option V} {printed : List CString} (h : Stores L 0 m)
    (hnames : symbolNames.length = root.below + 1)
    (htake : L.maps.take root symbolNames = some (maps, (rc, value), printed)) :
    ∃ m' L', takeValue root symbolNames m = .ok (rc, value) m' ∧ Stores L' 0 m' ∧ L'.maps = maps ∧
      m'.printed = m.printed ++ printed := by
  obtain ⟨r, hget, hr⟩ := Option.map_eq_some_iff.mp htake
  obtain ⟨rfl, ⟨rfl, rfl⟩, rfl⟩ : Function.update L.maps root r.list = maps ∧
      (r.returnValue = rc ∧ (if r.returnValue = 0 then none else r.output) = value) ∧
      r.printed = printed := by simpa using hr
  obtain ⟨m₁, l', output, dropped, freed, hrun, hmoves, hprints, hmap, hands⟩ :=
    getSymbolValue_moves hnames (h.owns root) (h.bound_at root) hget
  have hstores := h.moves_out hmoves hprints.mallocs
  have hmaps : (L.set root l').maps = Function.update L.maps root r.list := by
    rw [L.maps_set, hmap]
  have hfirst : takeValue root symbolNames m = _ := bind_of_ok hrun _
  dsimp only at hfirst
  by_cases hzero : r.returnValue = 0
  · have hdropped : dropped = 0 := hands.dropped_of_ne (by rw [hzero]; decide)
    rw [hdropped] at hstores
    refine ⟨m₁, L.set root l', ?_, hstores, hmaps, hprints.printed⟩
    rw [hfirst, if_pos hzero, if_pos hzero, hzero]
    rfl
  · obtain ⟨ptr, v, rfl, hout, hands⟩ := hands.exists_of_ne hzero
    have hlies := hands.kept.value hands.lies
    rw [if_neg hzero, hout]
    rw [if_neg hzero] at hfirst
    have hread : takeValue root symbolNames m = _ :=
      hfirst.trans (bind_of_ok (readValue_of hlies.1) _)
    by_cases hone : r.returnValue = 1
    · rw [hands.last hone] at hstores
      obtain ⟨m', hfree, hstores', hcalm⟩ := hstores.free ⟨v, hlies⟩
      refine ⟨m', L.set root l', ?_, hstores', hmaps, hcalm.printed.trans hprints.printed⟩
      rw [hread, if_pos hone]
      exact bind_of_ok hfree _
    · rw [(hands.stays hone).1] at hstores
      refine ⟨m₁, L.set root l', ?_, hstores, hmaps, hprints.printed⟩
      rw [hread, if_neg hone]
      rfl

/-! ### The end of a test -/

theorem Stores.print (h : Stores L loose m) (texts : List CString) :
    Stores L loose (m.print texts) where
  owns root := (h.owns root).print texts
  nodup := h.nodup
  nonzero := h.nonzero
  dead a ha := ⟨(h.dead a ha).node, (h.dead a ha).childList, (h.dead a ha).cell⟩
  bound := h.bound

/-- `has_leftover_values` of one of the maps. -/
theorem hasLeftoverIn_stores (location : V → SourceLocation) (root : MapRoot)
    (errorMessage : CString) (h : Stores L 0 m) :
    ∃ m' L', hasLeftoverIn location root errorMessage (root.below + 1) m =
        .ok (L.maps.hasLeftover location root errorMessage).2.1 m' ∧ Stores L' 0 m' ∧
      L'.maps = (L.maps.hasLeftover location root errorMessage).1 ∧
      m'.printed = m.printed ++ (L.maps.hasLeftover location root errorMessage).2.2 := by
  obtain ⟨m₁, l', freed, hremove, hmoves, hcalm, hmap⟩ :=
    removeAlwaysReturnValues_moves (h.owns root) (h.bound_at root)
  have hstores := h.moves_out hmoves hcalm.mallocs
  have howns := hstores.owns root
  have hbound := hstores.bound_at root
  rw [Layout.set_self] at howns
  rw [Layout.ownedAt, Layout.set_self] at hbound
  have hcheck := checkForLeftoverValues_prints location errorMessage howns hbound
  rw [hmap] at hcheck
  refine ⟨m₁.print (L.maps.hasLeftover location root errorMessage).2.2, L.set root l', ?_,
    hstores.print _, ?_, ?_⟩
  · rw [hasLeftoverIn, bind_of_ok hremove, bind_of_ok hcheck]
    rfl
  · rw [L.maps_set, hmap]
    rfl
  · exact congrArg (· ++ _) hcalm.printed

end Stores

end MapMemory

/-! ### The calls -/

section Calls

variable {L : Layout V} {m : MapMemory V} {maps : Maps V} {reply : MapReply V}
  {printed : List CString}

/-- **A call in memory** does to the maps and replies what it does in the model. -/
theorem MapCall.run_stores (location : V → SourceLocation) (call : MapCall V) (h : Stores L 0 m)
    (hs : m.Serves call.mallocs) (hspec : call.spec location L.maps = some (maps, reply, printed)) :
    ∃ m' L', call.run location m = .ok reply m' ∧ Stores L' 0 m' ∧ L'.maps = maps ∧
      m'.printed = m.printed ++ printed := by
  cases call with
  | willReturn function value count =>
      cases hspec
      obtain ⟨m', L', hrun, hstores, hmaps, hprinted⟩ :=
        addNew_stores .globalFunctionResultMapHead [function] value count h hs rfl
      exact ⟨m', L', bind_of_ok hrun _, hstores, hmaps, by rw [hprinted, List.append_nil]⟩
  | mock function =>
      obtain ⟨⟨maps', ⟨rc, value⟩, texts⟩, htake, he⟩ := Option.map_eq_some_iff.mp hspec
      cases he
      obtain ⟨m', L', hrun, hstores, hmaps, hprinted⟩ :=
        takeValue_stores .globalFunctionResultMapHead [function] h rfl htake
      exact ⟨m', L', bind_of_ok hrun _, hstores, hmaps, hprinted⟩
  | expectCheck function parameter value count =>
      cases hspec
      obtain ⟨m', L', hrun, hstores, hmaps, hprinted⟩ :=
        addNew_stores .globalFunctionParameterMapHead [function, parameter] value count h hs rfl
      exact ⟨m', L', bind_of_ok hrun _, hstores, hmaps, by rw [hprinted, List.append_nil]⟩
  | checkExpected function parameter =>
      obtain ⟨⟨maps', ⟨rc, value⟩, texts⟩, htake, he⟩ := Option.map_eq_some_iff.mp hspec
      cases he
      obtain ⟨m', L', hrun, hstores, hmaps, hprinted⟩ :=
        takeValue_stores .globalFunctionParameterMapHead [function, parameter] h rfl htake
      exact ⟨m', L', bind_of_ok hrun _, hstores, hmaps, hprinted⟩
  | hasLeftoverValues resultMessage parameterMessage =>
      cases hspec
      obtain ⟨m₁, L₁, hrun, hstores, hmaps, hprinted⟩ :=
        hasLeftoverIn_stores location .globalFunctionResultMapHead resultMessage h
      obtain ⟨m', L', hrun', hstores', hmaps', hprinted'⟩ :=
        hasLeftoverIn_stores location .globalFunctionParameterMapHead parameterMessage hstores
      rw [hmaps] at hrun' hmaps' hprinted'
      refine ⟨m', L', (bind_of_ok hrun _).trans (bind_of_ok hrun' _), hstores', hmaps', ?_⟩
      rw [hprinted', hprinted, List.append_assoc]
      rfl

/-- Both maps have their shape. -/
def Maps.Shaped (maps : Maps V) : Prop := ∀ root, Shape (root.below + 1) (maps root)

theorem Maps.Shaped.set {root : MapRoot} {list : List (MapNode V)} (h : maps.Shaped)
    (hlist : Shape (root.below + 1) list) : Shaped (Function.update maps root list) := by
  intro r
  by_cases hr : r = root
  · subst hr
    rwa [Function.update_self]
  · rw [Function.update_of_ne hr]
    exact h r

/-- A lookup at the depth of a map answers, and keeps the shapes. -/
theorem Maps.Shaped.take (root : MapRoot) (path : Path (root.below + 1)) (h : maps.Shaped) :
    ∃ maps' reply printed, maps.take root path.1 = some (maps', reply, printed) ∧ maps'.Shaped := by
  rcases table_get (Nat.succ_le_succ (Nat.zero_le _)) path (h root) with
    ⟨-, name, -, hget⟩ | ⟨v, c, q, list', -, hget, hshape, -⟩
  · refine ⟨_, _, _, congrArg (Option.map _) hget, ?_⟩
    exact h.set (h root)
  · exact ⟨_, _, _, congrArg (Option.map _) hget, h.set hshape⟩

/-- On maps of their shape no call fails, and they keep it. -/
theorem MapCall.spec_shaped (location : V → SourceLocation) (call : MapCall V) (h : maps.Shaped) :
    ∃ maps' reply printed, call.spec location maps = some (maps', reply, printed) ∧
      maps'.Shaped := by
  cases call with
  | willReturn function value count =>
      exact ⟨_, _, _, rfl, h.set (shape_add le_rfl ⟨[function], rfl⟩ value count (h _))⟩
  | mock function =>
      obtain ⟨maps', reply, printed, htake, hshaped⟩ :=
        h.take .globalFunctionResultMapHead ⟨[function], rfl⟩
      exact ⟨maps', _, printed, congrArg (Option.map _) htake, hshaped⟩
  | expectCheck function parameter value count =>
      refine ⟨_, _, _, rfl, h.set ?_⟩
      exact shape_add (Nat.le_succ 1) ⟨[function, parameter], rfl⟩ value count (h _)
  | checkExpected function parameter =>
      obtain ⟨maps', reply, printed, htake, hshaped⟩ :=
        h.take .globalFunctionParameterMapHead ⟨[function, parameter], rfl⟩
      exact ⟨maps', _, printed, congrArg (Option.map _) htake, hshaped⟩
  | hasLeftoverValues resultMessage parameterMessage =>
      refine ⟨_, _, _, rfl, ?_⟩
      have hresults := h.set (removeAt_shape (h .globalFunctionResultMapHead))
      exact hresults.set (removeAt_shape (hresults .globalFunctionParameterMapHead))

end Calls

/-! ### Runs -/

/-- The calls of a test on the maps of the model: the maps, the replies, and what is printed. -/
def specCalls (location : V → SourceLocation) :
    List (MapCall V) → Maps V → Option (Maps V × List (MapReply V) × List CString)
  | [], maps => some (maps, [], [])
  | call :: calls, maps => do
      let (maps, reply, printed) ← call.spec location maps
      let (maps, replies, printed') ← specCalls location calls maps
      return (maps, reply :: replies, printed ++ printed')

namespace MapMemory

/-- In each of the calls `malloc` returns enough addresses, and none that is in use. -/
def Served (location : V → SourceLocation) : List (MapRequest V) → MapMemory V → Prop
  | [], _ => True
  | request :: requests, m =>
      Serves { m with supply := request.supply } request.call.mallocs ∧
        match runRequest location request m with
        | .ok _ m' => Served location requests m'
        | .error _ _ => True

instance (m : MapMemory V) (a : Addr) : Decidable (m.Dead a) :=
  decidable_of_iff ((m.nodes (.node a)).isNone ∧ (m.nodes (.childList a)).isNone ∧
    (m.cells a).isNone) <| by
    simp only [Option.isNone_iff_eq_none]
    exact ⟨fun h => ⟨h.1, h.2.1, h.2.2⟩, fun h => ⟨h.node, h.childList, h.cell⟩⟩

instance (m : MapMemory V) (n : Nat) : Decidable (m.Serves n) :=
  decidable_of_iff (n ≤ m.supply.length ∧ m.supply.Nodup ∧ 0 ∉ m.supply ∧
    ∀ a ∈ m.supply, m.Dead a)
    ⟨fun h => ⟨h.1, h.2.1, h.2.2.1, h.2.2.2⟩, fun h => ⟨h.enough, h.nodup, h.nonzero, h.dead⟩⟩

/-- Whether the addresses of a run are in use can be tried. -/
instance Served.decidable (location : V → SourceLocation) :
    (requests : List (MapRequest V)) → (m : MapMemory V) → Decidable (Served location requests m)
  | [], _ => .isTrue trivial
  | request :: requests, m =>
      match hrun : runRequest location request m with
      | .ok _ m' =>
          have := Served.decidable location requests m'
          decidable_of_iff (Serves { m with supply := request.supply } request.call.mallocs ∧
            Served location requests m') (by rw [Served, hrun])
      | .error _ _ =>
          decidable_of_iff (Serves { m with supply := request.supply } request.call.mallocs)
            (by rw [Served, hrun, and_true])

section Runs

variable {L : Layout V} {m m' : MapMemory V}

theorem Stores.serve (h : Stores L 0 m) (supply : List Addr) : Stores L 0 { m with supply } where
  owns root := (h.owns root).same rfl (fun _ _ _ _ => rfl) fun _ _ => rfl
  nodup := h.nodup
  nonzero := h.nonzero
  dead a ha := ⟨(h.dead a ha).node, (h.dead a ha).childList, (h.dead a ha).cell⟩
  bound := h.bound

/-- **A run in memory.** -/
theorem runRequests_stores (location : V → SourceLocation) (requests : List (MapRequest V))
    (h : Stores L 0 m) (hshaped : L.maps.Shaped) (hserved : Served location requests m) :
    ∃ m' L' replies printed, runRequests location requests m = .ok replies m' ∧ Stores L' 0 m' ∧
      specCalls location (requests.map MapRequest.call) L.maps = some (L'.maps, replies, printed) ∧
      m'.printed = m.printed ++ printed := by
  induction requests generalizing m L with
  | nil => exact ⟨m, L, [], [], rfl, h, rfl, (List.append_nil _).symm⟩
  | cons request requests ih =>
      obtain ⟨hserves, hserved⟩ := hserved
      obtain ⟨maps₁, reply, texts, hspec, hshaped₁⟩ := request.call.spec_shaped location hshaped
      obtain ⟨m₁, L₁, hrun, hstores, hmaps, hprinted⟩ :=
        request.call.run_stores location (h.serve request.supply) hserves hspec
      have hrequest : runRequest location request m = .ok reply m₁ :=
        (bind_of_ok (modify_apply _ _) _).trans hrun
      rw [hrequest] at hserved
      subst hmaps
      obtain ⟨m', L', replies, texts', hrest, hstores', hspecs, hprinted'⟩ :=
        ih hstores hshaped₁ hserved
      refine ⟨m', L', reply :: replies, texts ++ texts', ?_, hstores', ?_, ?_⟩
      · rw [runRequests, bind_of_ok hrequest, bind_of_ok hrest]
        rfl
      · rw [List.map_cons, specCalls, hspec, Option.bind_eq_bind, Option.bind_some]
        dsimp only
        rw [hspecs]
        rfl
      · rw [hprinted', hprinted, List.append_assoc]

/-! ### From the beginning of a test to its end -/

/-- No addresses. -/
def Layout.empty : Layout V := fun _ => []

/-- `initialize_testing` in a memory in which nothing lies. -/
theorem initializeTesting_stores (hdead : ∀ a, m.Dead a) :
    ∃ m', MapMemory.initializeTesting m = .ok () m' ∧ Stores Layout.empty 0 m' ∧
      m'.printed = m.printed := by
  obtain ⟨m', hm'⟩ : ∃ m' : MapMemory V, { m with
    nodes := Cmocka.listInitialize (.root .globalFunctionParameterMapHead)
      (Cmocka.listInitialize (.root .globalFunctionResultMapHead) m.nodes) } = m' := ⟨_, rfl⟩
  have hnodes : m'.nodes = Cmocka.listInitialize (.root .globalFunctionParameterMapHead)
      (Cmocka.listInitialize (.root .globalFunctionResultMapHead) m.nodes) := hm' ▸ rfl
  have hother : ∀ b, (∀ root, b ≠ .root root) → m'.nodes b = m.nodes b := fun b hb => by
    rw [hnodes, Cmocka.listInitialize, Cmocka.listInitialize, Function.update_of_ne (hb _),
      Function.update_of_ne (hb _)]
  have hring : ∀ root, m'.nodes.Rings (.root root) [] := by
    intro root
    cases root with
    | globalFunctionResultMapHead =>
        refine Rings.same (NodeHeap.rings_listInitialize _ m.nodes) fun b hb => ?_
        rw [List.mem_singleton.mp hb, hnodes]
        exact Function.update_of_ne (by simp) _ _
    | globalFunctionParameterMapHead =>
        rw [hnodes]
        exact NodeHeap.rings_listInitialize _ _
  refine ⟨m', congrArg (EStateM.Result.ok ()) hm', ⟨fun root => ?_, Multiset.nodup_zero,
    Multiset.notMem_zero 0, fun a _ => ?_, Nat.zero_le _⟩, hm' ▸ rfl⟩
  · exact ⟨hring root, fun e he => absurd he List.not_mem_nil,
      fun e he => absurd he List.not_mem_nil, Multiset.nodup_zero, Multiset.notMem_zero 0,
      fun a _ => Multiset.notMem_zero a⟩
  · obtain ⟨hn, hc, hcell⟩ := hdead a
    exact ⟨(hother _ fun root => by simp).trans hn, (hother _ fun root => by simp).trans hc,
      hm' ▸ hcell⟩

/-- `teardown_testing` frees every address. -/
theorem teardownTesting_dead (h : Stores L 0 m) :
    ∃ m', MapMemory.teardownTesting m = .ok () m' ∧ (∀ a, m'.Dead a) ∧ m'.printed = m.printed := by
  obtain ⟨m₁, hfree, hmoves, hcalm⟩ := listFree_symbols_moves
    (h.owns .globalFunctionResultMapHead) (h.bound_at .globalFunctionResultMapHead)
  have hstores := h.moves_out hmoves hcalm.mallocs
  obtain ⟨m', hfree', hmoves', hcalm'⟩ := listFree_symbols_moves
    (hstores.owns .globalFunctionParameterMapHead) (hstores.bound_at .globalFunctionParameterMapHead)
  have hstores' := hstores.moves_out hmoves' hcalm'.mallocs
  refine ⟨m', (bind_of_ok hfree _).trans hfree', fun a => hstores'.dead a ?_,
    hcalm'.printed.trans hcalm.printed⟩
  rw [add_zero, Layout.held_set]
  exact Multiset.notMem_zero a

end Runs

end MapMemory

/-- A memory in which nothing lies. -/
def MapMemory.blank : MapMemory Nat :=
  { nodes := fun _ => none, cells := fun _ => none, supply := [], mallocs := 0, printed := [] }

/-- A return value is used up, and an expected value, declared at addresses that are free again, is
left. -/
def oneLeft : List (MapRequest Nat) :=
  [⟨.willReturn "f".toList 7 1, [1, 2, 3, 4]⟩, ⟨.mock "f".toList, []⟩,
    ⟨.expectCheck "g".toList "p".toList 8 1, [4, 3, 2, 1, 5, 6]⟩,
    ⟨.hasLeftoverValues [] [], []⟩]

end Cmocka
