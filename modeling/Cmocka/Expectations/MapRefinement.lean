import Cmocka.Expectations.MapShape

/-!
# Expectations — a symbol map is a table of queues

`getAt_head` and `getAt_empty` say what `get_symbol_value` does at a path with a value and at a
path without one.  With `addAt`'s lemmas they give the refinement: over any sequence of operations
on paths of `d` names, started on the empty map, the map's queues and the results of the gets are
those of the abstract table (`run_refines`), and no assertion of `get_symbol_value` fails.
-/

namespace Cmocka.SymbolMap

open CountedQueue

variable {V : Type}

/-! ### Getting -/

/-- `get_symbol_value`, with the empty path for the queue itself. -/
def getAt (path : List CString) (list : List (MapNode V)) : Option (GetResult V) :=
  if path = [] then (takeFirst list).map fun (c, v, rest) => ⟨c, some v, rest, []⟩
  else getSymbolValue path list

theorem getAt_cons (name : CString) (path : List CString) (list : List (MapNode V)) :
    getAt (name :: path) list =
      match listFind name list with
      | none => some ⟨0, none, list, [noEntries name]⟩
      | some f => (getAt path f.children).map fun r => { r with list := f.close name r.list } := by
  rw [getAt, if_neg (by simp), getSymbolValue]
  cases listFind name list with
  | none => rfl
  | some f =>
      by_cases hp : path = []
      · simp [hp, getAt, Function.comp_def]
      · simp [hp, getAt]

theorem getAt_of_ne_nil {path : List CString} (h : path ≠ []) (list : List (MapNode V)) :
    getAt path list = getSymbolValue path list := if_neg h

theorem addAt_of_ne_nil {path : List CString} (h : path ≠ []) (v : V) (c : Int)
    (list : List (MapNode V)) : addAt path v c list = addSymbolValue path v c list := if_neg h

/-- **A failed get changes nothing**: at a path without a value it returns `0`, leaves the map as it
is, and reports one of the names. -/
theorem getAt_empty {d : Nat} {path : List CString} {list : List (MapNode V)} (hs : Shape d list)
    (hp : path.length = d) (hpne : path ≠ []) (hq : queue path list = []) :
    ∃ name ∈ path, getAt path list = some ⟨0, none, list, [noEntries name]⟩ := by
  induction path generalizing d list with
  | nil => exact absurd rfl hpne
  | cons name path ih =>
      subst hp
      rw [getAt_cons]
      cases hf : listFind name list with
      | none => exact ⟨name, by simp, rfl⟩
      | some f =>
          obtain ⟨hne, hsc⟩ := hs.found hf
          have hq' : queue path f.children = [] := by
            simpa [queue, childrenOf_of_find hf] using hq
          have hpath : path ≠ [] := by
            rintro rfl
            obtain ⟨node, rest, hcons⟩ := List.exists_cons_of_ne_nil hne
            obtain ⟨c, v, rfl⟩ := hsc node (by simp [hcons])
            simp [queue, hcons, entry?] at hq'
          obtain ⟨n, hn, hg⟩ := ih hsc rfl hpath hq'
          refine ⟨n, by simp [hn], ?_⟩
          have hclose : f.close name f.children = list := by
            rw [Found.close, if_neg (by simpa using hne)]
            exact (listFind_some hf).1.symm
          simp [hg, hclose]

/-- The queue of a list of values. -/
theorem queue_values {list : List (MapNode V)} (hs : Shape 0 list) {v : V} {c : Int}
    {q : List (V × Int)} (hq : queue [] list = (v, c) :: q) :
    ∃ rest, list = .value c v :: rest ∧ queue [] rest = q := by
  cases list with
  | nil => cases hq
  | cons node rest =>
      obtain ⟨c', v', rfl⟩ := hs node (by simp)
      simp only [queue, List.filterMap_cons, entry?, List.cons.injEq, Prod.mk.injEq] at hq
      obtain ⟨⟨rfl, rfl⟩, hq⟩ := hq
      exact ⟨rest, rfl, hq⟩

/-- The four regimes of the reference count are one use of the entry. -/
theorem takeFirst_value (c : Int) (v : V) (rest : List (MapNode V)) :
    takeFirst (.value c v :: rest) =
      some (c, v, ((spend c).map fun c' => MapNode.value c' v).toList ++ rest) := by
  by_cases h1 : c = 1
  · subst h1; simp [takeFirst]
  · by_cases h2 : -2 < c
    · have hsp : spend c = some (c - 1) := by rw [spend, if_neg h1, if_pos h2]
      simp [takeFirst, willReturnOnce, hsp, h2, show ¬ c - 1 = 0 by omega]
    · simp [takeFirst, willReturnOnce, spend_of_le (by omega : c ≤ -2), h2,
        show ¬ c - 1 = 0 by omega]

/-- The first value of a queue, taken. -/
theorem takeFirst_head {list : List (MapNode V)} (hs : Shape 0 list) {v : V} {c : Int}
    {q : List (V × Int)} (hq : queue [] list = (v, c) :: q) :
    ∃ list', takeFirst list = some (c, v, list') ∧ Shape 0 list' ∧
      queue [] list' = pop ((v, c) :: q) := by
  obtain ⟨rest, rfl, rfl⟩ := queue_values hs hq
  refine ⟨_, takeFirst_value c v rest, fun node hm => ?_, ?_⟩
  · rcases List.mem_append.mp hm with hm | hm
    · obtain ⟨c', -, rfl⟩ := Option.map_eq_some_iff.mp (Option.mem_toList.mp hm)
      exact ⟨c', v, rfl⟩
    · exact hs node (by simp [hm])
  · cases hsp : spend c <;> simp [queue, entry?, pop, hsp]

/-- **A get at a path with a value** outputs the head of its queue and the head's count, uses the
head once, and leaves every other queue alone. -/
theorem getAt_head {d : Nat} {path : List CString} {list : List (MapNode V)} (hs : Shape d list)
    (hp : path.length = d) {v : V} {c : Int} {q : List (V × Int)}
    (hq : queue path list = (v, c) :: q) :
    ∃ list', getAt path list = some ⟨c, some v, list', []⟩ ∧ Shape d list' ∧
      queue path list' = pop ((v, c) :: q) ∧
      ∀ path', path'.length = d → path' ≠ path → queue path' list' = queue path' list := by
  induction path generalizing d list with
  | nil =>
      subst hp
      obtain ⟨list', ht, hs', hq'⟩ := takeFirst_head hs hq
      refine ⟨list', by simp [getAt, ht], hs', hq', fun path' hl hne => ?_⟩
      exact absurd (List.length_eq_zero_iff.mp hl) hne
  | cons name path ih =>
      subst hp
      rw [getAt_cons]
      cases hf : listFind name list with
      | none =>
          have hn := childrenOf_eq_none.mpr (listFind_none hf)
          simp [queue, hn, queue_nil] at hq
      | some f =>
          obtain ⟨-, hsc⟩ := hs.found hf
          have hqc : queue path f.children = (v, c) :: q := by
            simpa [queue, childrenOf_of_find hf] using hq
          obtain ⟨children, hg, hs', hq', hother⟩ := ih hsc rfl hqc
          refine ⟨f.close name children, by simp [hg], ?_⟩
          -- the queues below `name` are those of `children`, also when it is dropped as empty
          have hbelow : ∀ p, queue (name :: p) (f.close name children) = queue p children := by
            intro p
            by_cases he : children = []
            · simp [Found.close, he, queue, childrenOf_remove_self hf hs.1, queue_nil]
            · simp [Found.close, he, queue, childrenOf_put_self hf]
          have hbeside : ∀ n p, n ≠ name →
              queue (n :: p) (f.close name children) = queue (n :: p) list := by
            intro n p hn
            by_cases he : children = []
            · simp [Found.close, he, queue, childrenOf_remove_of_ne hf hn]
            · simp [Found.close, he, queue, childrenOf_put_of_ne hf hn]
          refine ⟨?_, by rw [hbelow, hq'], fun path' hl hne => ?_⟩
          · by_cases he : children = []
            · simpa [Found.close, he] using hs.remove hf
            · simpa [Found.close, he] using hs.put hf he hs'
          · obtain ⟨n, p, rfl⟩ := List.exists_cons_of_length_eq_add_one hl
            by_cases hn : n = name
            · subst hn
              have hp' : p ≠ path := fun h => hne (by rw [h])
              rw [hbelow, hother p (by simpa using hl) hp']
              simp [queue, childrenOf_of_find hf]
            · exact hbeside n p hn

/-! ### Sequences of operations -/

/-- A path of `d` names. -/
abbrev Path (d : Nat) := {path : List CString // path.length = d}

/-- A reference count the registration macros accept. -/
abbrev Count := {c : Int // c ≠ 0}

/-- An operation on a map for paths of `d` names. -/
inductive MapOp (V : Type) (d : Nat) where
  | add (path : Path d) (value : V) (count : Count)
  | get (path : Path d)

/-- What a get gives back: the returned reference count and the value. -/
abbrev Answer (V : Type) := Int × Option V

/-- One operation of the source; `none` is a failed assertion.  A get answers, an add does not. -/
def MapOp.run {d : Nat} : MapOp V d → List (MapNode V) → Option (List (MapNode V) × List (Answer V))
  | .add path v c, list => some (addSymbolValue path.1 v c.1 list, [])
  | .get path, list =>
      (getSymbolValue path.1 list).map fun r => (r.list, [(r.returnValue, r.output)])

/-- A sequence of operations, with all answers. -/
def runOps {d : Nat} : List (MapOp V d) → List (MapNode V) →
    Option (List (MapNode V) × List (Answer V))
  | [], list => some (list, [])
  | op :: ops, list => do
      let (list, answer) ← op.run list
      let (list, answers) ← runOps ops list
      return (list, answer ++ answers)

/-- The abstract operation on a table of queues.  An add appends to the tail of its queue.  A get
answers with the head and its count, and the head is removed if the count was `1`, keeps one use
less if it was `2` or more, turns from `-1` into `-2`, and stays as it is at `-2` or below. -/
def MapOp.spec {d : Nat} : MapOp V d → Table (Path d) V → Table (Path d) V × List (Answer V)
  | .add path v c, t => (Function.update t path (t path ++ [(v, c.1)]), [])
  | .get path, t =>
      match t path with
      | [] => (t, [(0, none)])
      | (v, c) :: q =>
          (Function.update t path
            (if c = 1 then q
             else if 2 ≤ c then (v, c - 1) :: q
             else if c = -1 then (v, -2) :: q
             else (v, c) :: q),
            [(c, some v)])

/-- A sequence of abstract operations. -/
def specOps {d : Nat} : List (MapOp V d) → Table (Path d) V → Table (Path d) V × List (Answer V)
  | [], t => (t, [])
  | op :: ops, t =>
      let (t, answer) := op.spec t
      let (t, answers) := specOps ops t
      (t, answer ++ answers)

/-- The table of queues a map stands for. -/
def table (d : Nat) (list : List (MapNode V)) : Table (Path d) V := fun path => queue path.1 list

/-- All counts in the table are non-zero. -/
def NonZeroCounts {d : Nat} (t : Table (Path d) V) : Prop := ∀ path, NonZero (t path)

theorem Path.ne_nil {d : Nat} (hd : 1 ≤ d) (path : Path d) : path.1 ≠ [] := by
  rintro h
  have := path.2
  simp only [h, List.length_nil] at this
  omega

theorem shape_add {d : Nat} (hd : 1 ≤ d) (path : Path d) (v : V) (c : Int)
    {list : List (MapNode V)} (hs : Shape d list) : Shape d (addSymbolValue path.1 v c list) := by
  rw [← addAt_of_ne_nil (path.ne_nil hd)]
  exact addAt_shape path.2 v c hs

theorem table_add {d : Nat} (hd : 1 ≤ d) (path : Path d) (v : V) (c : Int)
    (list : List (MapNode V)) :
    table d (addSymbolValue path.1 v c list) = (table d list).push path v c := by
  rw [← addAt_of_ne_nil (path.ne_nil hd)]
  funext path'
  by_cases h : path' = path
  · subst h
    simp [table, queue_addAt_self]
  · rw [Table.push_of_ne _ h]
    exact queue_addAt_of_ne (path'.2.trans path.2.symm) (fun he => h (Subtype.ext he)) v c list

/-- What a get does to a map of the shape, in terms of its table. -/
theorem table_get {d : Nat} (hd : 1 ≤ d) (path : Path d) {list : List (MapNode V)}
    (hs : Shape d list) :
    (table d list path = [] ∧ ∃ name ∈ path.1,
      getSymbolValue path.1 list = some ⟨0, none, list, [noEntries name]⟩) ∨
    ∃ v c q list', table d list path = (v, c) :: q ∧
      getSymbolValue path.1 list = some ⟨c, some v, list', []⟩ ∧ Shape d list' ∧
      table d list' = (table d list).take path := by
  rw [← getAt_of_ne_nil (path.ne_nil hd)]
  rcases hq : queue path.1 list with _ | ⟨⟨v, c⟩, q⟩
  · exact .inl ⟨hq, getAt_empty hs path.2 (path.ne_nil hd) hq⟩
  · obtain ⟨list', hg, hs', hq', hother⟩ := getAt_head hs path.2 hq
    refine .inr ⟨v, c, q, list', hq, hg, hs', funext fun path' => ?_⟩
    by_cases h : path' = path
    · subst h
      rw [Table.take_self]
      simp [table, hq', hq]
    · rw [Table.take_of_ne _ h]
      exact hother path'.1 path'.2 fun he => h (Subtype.ext he)

/-- The head after a get, as the abstract operation writes it. -/
theorem pop_cons_eq {v : V} {c : Int} (hc : c ≠ 0) (q : List (V × Int)) :
    pop ((v, c) :: q) =
      if c = 1 then q
      else if 2 ≤ c then (v, c - 1) :: q
      else if c = -1 then (v, -2) :: q
      else (v, c) :: q := by
  simp only [pop]
  split_ifs with h1 h2 h3
  · simp [h1]
  · simp [spend_of_two_le h2]
  · simp [h3]
  · simp [spend_of_le (by omega : c ≤ -2)]

/-- **One operation, followed by the table.** -/
theorem run_refines_step {d : Nat} (hd : 1 ≤ d) (op : MapOp V d) {list : List (MapNode V)}
    (hs : Shape d list) (hz : NonZeroCounts (table d list)) :
    ∃ list' answer, op.run list = some (list', answer) ∧ Shape d list' ∧
      NonZeroCounts (table d list') ∧ op.spec (table d list) = (table d list', answer) := by
  cases op with
  | add path v c =>
      refine ⟨_, _, rfl, shape_add hd path v c.1 hs, ?_, ?_⟩
      · rw [table_add hd]
        intro path'
        by_cases h : path' = path
        · subst h
          rw [Table.push_self]
          exact (hz path').append fun e he => by
            rw [List.mem_singleton.mp he]; exact c.2
        · rw [Table.push_of_ne _ h]
          exact hz path'
      · rw [table_add hd]
        rfl
  | get path =>
      rcases table_get hd path hs with ⟨hq, name, -, hg⟩ | ⟨v, c, q, list', hq, hg, hs', ht⟩
      · exact ⟨list, [(0, none)], by simp [MapOp.run, hg], hs, hz, by simp [MapOp.spec, hq]⟩
      · have hc : c ≠ 0 := hz path (v, c) (by simp [hq])
        refine ⟨list', [(c, some v)], by simp [MapOp.run, hg], hs', ?_, ?_⟩
        · rw [ht]
          intro path'
          by_cases h : path' = path
          · subst h
            rw [Table.take_self]
            exact (hz path').pop
          · rw [Table.take_of_ne _ h]
            exact hz path'
        · simp only [MapOp.spec, hq]
          rw [← pop_cons_eq hc, ht, ← hq]
          rfl

/-- **The map refines the table**, over every sequence of operations. -/
theorem run_refines {d : Nat} (hd : 1 ≤ d) (ops : List (MapOp V d)) {list : List (MapNode V)}
    (hs : Shape d list) (hz : NonZeroCounts (table d list)) :
    ∃ list' answers, runOps ops list = some (list', answers) ∧ Shape d list' ∧
      NonZeroCounts (table d list') ∧ specOps ops (table d list) = (table d list', answers) := by
  induction ops generalizing list with
  | nil => exact ⟨list, [], rfl, hs, hz, rfl⟩
  | cons op ops ih =>
      obtain ⟨list₁, answer, hr, hs₁, hz₁, ha⟩ := run_refines_step hd op hs hz
      obtain ⟨list₂, answers, hr₂, hs₂, hz₂, ha₂⟩ := ih hs₁ hz₁
      refine ⟨list₂, answer ++ answers, ?_, hs₂, hz₂, ?_⟩
      · simp [runOps, hr, hr₂]
      · simp [specOps, ha, ha₂]

theorem shape_nil (d : Nat) : Shape d ([] : List (MapNode V)) := by
  cases d <;> simp [Shape, names]

theorem table_nil (d : Nat) : table d ([] : List (MapNode V)) = fun _ => [] :=
  funext fun path => queue_nil path.1

end Cmocka.SymbolMap
