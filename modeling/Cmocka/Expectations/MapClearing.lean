import Cmocka.Expectations.MapInvariant
import Cmocka.Expectations.MapGetting

/-!
# Expectations — the end of a test in memory

`remove_always_return_values`, `check_for_leftover_values` and the `list_free` of `teardown_testing`
on a map that lies in memory.  The first does to the laid-out lists what it does to the lists of the
model and frees what it takes out, the second changes nothing and reports what the model reports, and
the third frees every address of the map.
-/

namespace Cmocka.MapMemory

open Runs SymbolMap

variable {V : Type} {d : Nat} {m m' m₁ m₂ : MapMemory V} {head : MapPtr}

/-! ### `remove_always_return_values` -/

/-- A function that does to a list in memory what `f` does, and frees what it takes out. -/
def Removes (inner : MapPtr → MapM V Unit) (f : List (MapNode V) → List (MapNode V)) (d : Nat) :
    Prop :=
  ∀ (m : MapMemory V) (head : MapPtr) (l : List (MapEntry V d)), m.Owns d head l →
    (ownedBy d l).card ≤ m.mallocs → l ≠ [] →
    ∃ m' l' freed, inner head m = .ok () m' ∧ Moves d head l l' 0 0 freed m m' ∧ Calm m m' ∧
      toNodes d l' = f (toNodes d l)

theorem removeFirstAlways_cons (e : MapEntry V 0) (l : List (MapEntry V 0)) :
    (SymbolMap.removeFirstAlways (toNodes 0 (e :: l))).1 =
      if e.refcount < -1 then toNodes 0 l else toNodes 0 (e :: l) := by
  have hcount : refcount (toNode 0 e) = e.refcount := rfl
  rw [toNodes, List.map_cons, SymbolMap.removeFirstAlways, hcount]
  split <;> rfl

/-- The removal at the head of a list of values. -/
theorem removeFirstAlways_removes :
    Removes (V := V) removeFirstAlways (fun list => (SymbolMap.removeFirstAlways list).1) 0 := by
  intro m head l h hbound hne
  obtain ⟨e, l, rfl⟩ := List.exists_cons_of_ne_nil hne
  obtain ⟨n, hn, hnext⟩ := h.headNode
  have hmiddle : m.Owns 0 head ([] ++ e :: l) := h
  obtain ⟨n', hn', hvalue, hcount, -⟩ := hmiddle.entryNode
  have hread : removeFirstAlways head m =
      (if e.refcount < -1 then listRemoveFree e.at (some freeValue) else return ()) m := by
    rw [removeFirstAlways, bind_of_ok hn, hnext]
    refine (bind_of_ok hn' _).trans ?_
    rw [hcount]
    rfl
  by_cases hc : e.refcount < -1
  · obtain ⟨m', hremove, hmoves, hcalm⟩ :=
      listRemoveFree_releases hmiddle hbound (freeValue_releases e.ptr e.content)
    refine ⟨m', l, owned 0 e, ?_, hmoves, hcalm, ?_⟩
    · rw [hread, if_pos hc]
      exact hremove
    · exact ((removeFirstAlways_cons e l).trans (if_pos hc)).symm
  · refine ⟨m, e :: l, 0, ?_, .refl h, .refl m, ?_⟩
    · rw [hread, if_neg hc]
      rfl
    · exact ((removeFirstAlways_cons e l).trans (if_neg hc)).symm

/-- The body of the loop at an entry: what it keeps of the entry. -/
theorem removeRound_moves {inner : MapPtr → MapM V Unit}
    {f : List (MapNode V) → List (MapNode V) × List V}
    (hinner : Removes inner (fun list => (f list).1) d) (hf : (f []).1 = [])
    {before after : List (MapEntry V (d + 1))} {e : MapEntry V (d + 1)}
    (h : m.Owns (d + 1) head (before ++ e :: after))
    (hbound : (ownedBy (d + 1) (before ++ e :: after)).card ≤ m.mallocs) :
    ∃ m' kept freed, removeRound inner e.at e.ptr m = .ok () m' ∧
      Moves (d + 1) head (before ++ e :: after) (before ++ kept ++ after) 0 0 freed m m' ∧
      Calm m m' ∧
      toNodes (d + 1) kept = (SymbolMap.removeRound f (toNode (d + 1) e)).1.toList := by
  have he : e ∈ before ++ e :: after := List.mem_append_right _ List.mem_cons_self
  have hchild := h.children he
  obtain ⟨m₁, children, freed, hrun, hmoves, hcalm, hnodes⟩ : ∃ m₁ children freed,
      (if (!e.content.2.isEmpty) = true then inner (.childList e.ptr) else pure ()) m = .ok () m₁ ∧
        Moves d (.childList e.ptr) e.content.2 children 0 0 freed m m₁ ∧ Calm m m₁ ∧
        toNodes d children = (f (toNodes d e.content.2)).1 := by
    by_cases hnil : e.content.2 = []
    · refine ⟨m, e.content.2, 0, ?_, .refl hchild, .refl m, ?_⟩
      · rw [hnil]
        rfl
      · rw [hnil]
        exact hf.symm
    · rw [if_pos (by simpa using hnil)]
      refine hinner m _ _ hchild (le_trans ?_ hbound) hnil
      rw [ownedBy_symbol, Multiset.card_cons, Multiset.card_cons, Multiset.card_add]
      omega
  have hfocus := hmoves.focus h (by simpa using h.nodup) (Multiset.notMem_zero 0)
    fun a _ => Multiset.notMem_zero a
  obtain ⟨m', freed', hclose, hmoves', hcalm', -⟩ := close_moves hfocus.owns
    (hcalm.mallocs ▸ hfocus.card_le.trans hbound) (freeValue_releases_symbol e.ptr e.content.1)
  have hall := hfocus.trans hmoves' (by simpa using h.nodup) (by simpa using h.outside)
  obtain ⟨e', he'⟩ : ∃ e' : MapEntry V (d + 1), { e with content := (e.content.1, children) } = e' :=
    ⟨_, rfl⟩
  have hkept : (if children.isEmpty then before ++ after else before ++ e' :: after) =
      before ++ (if children.isEmpty then [] else [e']) ++ after := by
    split <;> simp
  refine ⟨m', if children.isEmpty then [] else [e'], freed + freed', ?_, ?_, hcalm.trans hcalm', ?_⟩
  · rw [removeRound, bind_of_ok (assertNonNull_of (h.ptr_ne_zero he))]
    refine (bind_of_ok (listEmpty_owns hchild) _).trans ((ite_bind_of_ok hrun).trans ?_)
    exact hclose
  · rw [← hkept, ← he']
    exact hall
  · have hnode : toNode (d + 1) e = .symbol e.refcount e.content.1 (toNodes d e.content.2) := rfl
    rw [hnode, removeRound_symbol, ← hnodes, ← he']
    cases children <;> rfl

/-- The loop, from an entry on. -/
theorem removeLoop_removes {inner : MapPtr → MapM V Unit}
    {f : List (MapNode V) → List (MapNode V) × List V}
    (hinner : Removes inner (fun list => (f list).1) d) (hf : (f []).1 = [])
    (before after : List (MapEntry V (d + 1))) (h : m.Owns (d + 1) head (before ++ after))
    (hbound : (ownedBy (d + 1) (before ++ after)).card ≤ m.mallocs) {bound : Nat}
    (hlt : after.length < bound) :
    ∃ m' after' freed,
      removeLoop inner head bound ((after.map NodeEntry.at).headD head) m = .ok () m' ∧
        Moves (d + 1) head (before ++ after) (before ++ after') 0 0 freed m m' ∧ Calm m m' ∧
        toNodes (d + 1) after' =
          (toNodes (d + 1) after).filterMap fun node => (SymbolMap.removeRound f node).1 := by
  induction after generalizing before m bound with
  | nil =>
      obtain ⟨bound, rfl⟩ := Nat.exists_eq_succ_of_ne_zero hlt.ne'
      exact ⟨m, [], 0, congrFun (if_pos rfl) m, .refl h, .refl m, rfl⟩
  | cons e after ih =>
      obtain ⟨bound, rfl⟩ := Nat.exists_eq_succ_of_ne_zero (Nat.ne_of_gt (Nat.zero_lt_of_lt hlt))
      have he : e ∈ before ++ e :: after := List.mem_append_right _ List.mem_cons_self
      obtain ⟨n, hn, hvalue, -, hnext⟩ := h.entryNode
      obtain ⟨m₁, kept, freed, hround, hmoves, hcalm, hkept⟩ := removeRound_moves hinner hf h hbound
      obtain ⟨m', after', freed', hloop, hmoves', hcalm', hnodes⟩ := ih (before ++ kept) hmoves.owns
        (hcalm.mallocs ▸ hmoves.card_le.trans hbound) (Nat.lt_of_succ_lt_succ hlt)
      have hall := hmoves.trans hmoves' (by simpa using h.nodup) (by simpa using h.outside)
      rw [List.append_assoc] at hall
      refine ⟨m', kept ++ after', _, ?_, hall, hcalm.trans hcalm', ?_⟩
      · rw [List.map_cons, List.headD_cons, removeLoop, if_neg (h.at_ne_head he), bind_of_ok hn,
          hvalue, hnext]
        exact (bind_of_ok hround _).trans hloop
      · refine List.map_append.trans ((congrArg₂ (· ++ ·) hkept hnodes).trans ?_)
        rw [toNodes, toNodes, List.map_cons, List.filterMap_cons]
        cases (SymbolMap.removeRound f (toNode (d + 1) e)).1 <;> rfl

/-- One level of `remove_always_return_values`. -/
theorem removeLevel_moves {l : List (MapEntry V (d + 1))}
    (hinner : Removes (V := V) (if d = 0 then removeFirstAlways else removeAlwaysReturnValues d)
      (fun list => (removeAt d list).1) d)
    (h : m.Owns (d + 1) head l) (hbound : (ownedBy (d + 1) l).card ≤ m.mallocs) :
    ∃ m' l' freed, removeAlwaysReturnValues (d + 1) head m = .ok () m' ∧
      Moves (d + 1) head l l' 0 0 freed m m' ∧ Calm m m' ∧
      toNodes (d + 1) l' = (removeAt (d + 1) (toNodes (d + 1) l)).1 := by
  obtain ⟨n, hn, hnext⟩ := h.headNode
  have hnil : (removeAt d ([] : List (MapNode V))).1 = [] := by rw [removeAt_nil]
  obtain ⟨m', l', freed, hloop, hmoves, hcalm, hnodes⟩ := removeLoop_removes hinner hnil [] l h
    hbound (Nat.lt_succ_of_le ((card_le_ownedBy l).trans hbound))
  refine ⟨m', l', freed, ?_, hmoves, hcalm, ?_⟩
  · rw [removeAlwaysReturnValues, bind_of_ok (get_apply m), bind_of_ok hn, hnext]
    exact hloop
  · rw [hnodes, removeAt_succ]

/-- **`remove_always_return_values`.** -/
theorem removeAlwaysReturnValues_moves {l : List (MapEntry V (d + 1))} (h : m.Owns (d + 1) head l)
    (hbound : (ownedBy (d + 1) l).card ≤ m.mallocs) :
    ∃ m' l' freed, removeAlwaysReturnValues (d + 1) head m = .ok () m' ∧
      Moves (d + 1) head l l' 0 0 freed m m' ∧ Calm m m' ∧
      toNodes (d + 1) l' =
        (SymbolMap.removeAlwaysReturnValues (d + 1) (toNodes (d + 1) l)).1 := by
  induction d generalizing m head with
  | zero => exact removeLevel_moves removeFirstAlways_removes h hbound
  | succ d ih => exact removeLevel_moves (fun m head l h hbound _ => ih h hbound) h hbound

/-! ### `check_for_leftover_values` -/

/-- The memory after texts were printed. -/
def print (m : MapMemory V) (texts : List CString) : MapMemory V :=
  { m with printed := m.printed ++ texts }

theorem print_nil (m : MapMemory V) : m.print [] = m := by
  rw [print, List.append_nil]

theorem print_print (m : MapMemory V) (texts texts' : List CString) :
    (m.print texts).print texts' = m.print (texts ++ texts') := by
  rw [print, print, print, List.append_assoc]

theorem printError_apply (text : CString) (m : MapMemory V) :
    printError text m = .ok () (m.print [text]) := rfl

theorem Owns.print {l : List (MapEntry V d)} (h : m.Owns d head l) (texts : List CString) :
    (m.print texts).Owns d head l := (Moves.print _ h).owns

/-- The notes on the values of a list, from an entry on. -/
theorem noteLoop_prints (location : V → SourceLocation) (before after : List (MapEntry V 0))
    (h : m.Owns 0 head (before ++ after)) {bound : Nat} (hlt : after.length < bound) :
    noteLoop location head bound ((after.map NodeEntry.at).headD head) m =
      .ok () (m.print ((toNodes 0 after).map (leftoverNote location))) := by
  induction after generalizing before m bound with
  | nil =>
      obtain ⟨bound, rfl⟩ := Nat.exists_eq_succ_of_ne_zero hlt.ne'
      refine (congrFun (if_pos rfl) m).trans ?_
      rw [toNodes, List.map_nil, List.map_nil, print_nil]
      rfl
  | cons e after ih =>
      obtain ⟨bound, rfl⟩ := Nat.exists_eq_succ_of_ne_zero (Nat.ne_of_gt (Nat.zero_lt_of_lt hlt))
      have he : e ∈ before ++ e :: after := List.mem_append_right _ List.mem_cons_self
      obtain ⟨n, hn, hvalue, -, hnext⟩ := h.entryNode
      have hread := readValue_of (h.lies e he).1
      have hrest := fun texts => ih (before ++ [e]) (by simpa using h.print texts)
        (Nat.lt_of_succ_lt_succ hlt)
      rw [List.map_cons, List.headD_cons, noteLoop, if_neg (h.at_ne_head he), bind_of_ok hn, hvalue,
        bind_of_ok hread, bind_of_ok (printError_apply _ _), hnext, hrest, print_print]
      rfl

/-- A report on the list of a symbol that leaves the memory as it is. -/
def Reports (report : CString → MapPtr → MapM V Unit)
    (texts : CString → List (MapNode V) → List CString) (mallocs d : Nat) : Prop :=
  ∀ (m : MapMemory V) (name : CString) (head : MapPtr) (l : List (MapEntry V d)),
    m.Owns d head l → (ownedBy d l).card ≤ mallocs → m.mallocs = mallocs →
      report name head m = .ok () (m.print (texts name (toNodes d l)))

/-- What `checkLoop` prints for a symbol. -/
def symbolReport (texts : CString → List (MapNode V) → List CString) : MapNode V → List CString
  | .value _ _ => []
  | .symbol _ name children => if children.isEmpty then [] else texts name children

/-- The loop, from a symbol on. -/
theorem checkLoop_prints {report : CString → MapPtr → MapM V Unit}
    {texts : CString → List (MapNode V) → List CString}
    (hreport : Reports report texts m.mallocs d) (before after : List (MapEntry V (d + 1)))
    (h : m.Owns (d + 1) head (before ++ after))
    (hbound : (ownedBy (d + 1) (before ++ after)).card ≤ m.mallocs) {bound : Nat}
    (hlt : after.length < bound) (count : Nat) :
    checkLoop report head bound ((after.map NodeEntry.at).headD head) count m =
      .ok (count + (toNodes (d + 1) after).countP hasValues)
        (m.print ((toNodes (d + 1) after).flatMap (symbolReport texts))) := by
  induction after generalizing before m bound count with
  | nil =>
      obtain ⟨bound, rfl⟩ := Nat.exists_eq_succ_of_ne_zero hlt.ne'
      refine (congrFun (if_pos rfl) m).trans ?_
      rw [toNodes, List.map_nil, List.flatMap_nil, print_nil]
      rfl
  | cons e after ih =>
      obtain ⟨bound, rfl⟩ := Nat.exists_eq_succ_of_ne_zero (Nat.ne_of_gt (Nat.zero_lt_of_lt hlt))
      have he : e ∈ before ++ e :: after := List.mem_append_right _ List.mem_cons_self
      obtain ⟨n, hn, hvalue, -, hnext⟩ := h.entryNode
      have hchild := h.children he
      have hptr : n.value ≠ 0 := hvalue ▸ h.ptr_ne_zero he
      have hname := readSymbolName_of (h.lies e he).1
      have hnode : toNode (d + 1) e = .symbol e.refcount e.content.1 (toNodes d e.content.2) := rfl
      have hempty : (toNodes d e.content.2).isEmpty = e.content.2.isEmpty := List.isEmpty_map
      rw [List.map_cons, List.headD_cons, checkLoop, if_neg (h.at_ne_head he), bind_of_ok hn,
        bind_of_ok (assertNonNull_of hptr), hvalue, bind_of_ok (listEmpty_owns hchild), hnext,
        toNodes, List.map_cons, hnode, List.flatMap_cons, List.countP_cons, symbolReport, hasValues,
        hempty]
      have hbound' : (ownedBy (d + 1) (before ++ [e] ++ after)).card ≤ m.mallocs := by
        simpa using hbound
      have hrest := fun texts => ih (m := m.print texts) hreport (before ++ [e])
        (by simpa using h.print texts) hbound' (Nat.lt_of_succ_lt_succ hlt)
      by_cases hnil : e.content.2.isEmpty
      · rw [if_neg (by simpa using hnil), if_pos hnil, if_neg (by simpa using hnil)]
        have hsame := hrest [] count
        rw [print_nil] at hsame
        exact hsame
      · rw [if_pos (by simpa using hnil), if_neg hnil, if_pos (by simpa using hnil),
          bind_of_ok hname]
        refine (bind_of_ok (hreport m _ _ _ hchild (le_trans ?_ hbound) rfl) _).trans ?_
        · rw [ownedBy_symbol, Multiset.card_cons, Multiset.card_cons, Multiset.card_add]
          omega
        · rw [hrest, print_print, Nat.add_right_comm]
          rfl

/-- The report on a symbol with names below it, or none. -/
def levelReport (location : V → SourceLocation) (errorMessage : CString) (d : Nat) (name : CString)
    (children : List (MapNode V)) : List CString :=
  if d = 0 then (errorMessage ++ ": ".toList ++ name ++ "\n".toList) ::
    children.map (leftoverNote location)
  else (name ++ ": ".toList) ::
    (SymbolMap.checkForLeftoverValues location errorMessage d children).2

theorem checkForLeftoverValues_succ (location : V → SourceLocation) (errorMessage : CString)
    (d : Nat) (list : List (MapNode V)) :
    SymbolMap.checkForLeftoverValues location errorMessage (d + 1) list =
      (list.countP hasValues, list.flatMap (symbolReport (levelReport location errorMessage d))) := by
  rw [SymbolMap.checkForLeftoverValues]
  refine congrArg (_, List.flatMap · list) (funext fun node => ?_)
  cases node with
  | value c v => rfl
  | symbol c name children => cases d <;> rfl

/-- The report on a list of values. -/
theorem reportValues_reports (location : V → SourceLocation) (errorMessage : CString)
    (mallocs : Nat) : Reports (fun symbolName childList => do
      printError (errorMessage ++ ": ".toList ++ symbolName ++ "\n".toList)
      let list ← readNode childList
      noteLoop location childList (mallocs + 1) list.next)
      (levelReport location errorMessage 0) mallocs 0 := by
  intro m name head l h hbound _
  have hprint := h.print [errorMessage ++ ": ".toList ++ name ++ "\n".toList]
  obtain ⟨n, hn, hnext⟩ := hprint.headNode
  have hnotes := noteLoop_prints location [] l hprint
    (Nat.lt_succ_of_le ((card_le_ownedBy l).trans hbound))
  refine (bind_of_ok (printError_apply _ _) _).trans ((bind_of_ok hn _).trans ?_)
  rw [hnext]
  exact hnotes.trans (by rw [print_print]; rfl)

/-- One level of `check_for_leftover_values`. -/
theorem checkLevel_prints (location : V → SourceLocation) (errorMessage : CString)
    {l : List (MapEntry V (d + 1))}
    (hreport : Reports (fun symbolName childList => if d = 0 then do
        printError (errorMessage ++ ": ".toList ++ symbolName ++ "\n".toList)
        let list ← readNode childList
        noteLoop location childList (m.mallocs + 1) list.next
      else do
        printError (symbolName ++ ": ".toList)
        let _ ← checkForLeftoverValues location errorMessage d childList
        return ()) (levelReport location errorMessage d) m.mallocs d)
    (h : m.Owns (d + 1) head l) (hbound : (ownedBy (d + 1) l).card ≤ m.mallocs) :
    checkForLeftoverValues location errorMessage (d + 1) head m =
      .ok (SymbolMap.checkForLeftoverValues location errorMessage (d + 1) (toNodes (d + 1) l)).1
        (m.print
          (SymbolMap.checkForLeftoverValues location errorMessage (d + 1) (toNodes (d + 1) l)).2) := by
  obtain ⟨n, hn, hnext⟩ := h.headNode
  have hloop := checkLoop_prints hreport [] l h hbound
    (Nat.lt_succ_of_le ((card_le_ownedBy l).trans hbound)) 0
  rw [checkForLeftoverValues, bind_of_ok (get_apply m), bind_of_ok hn, hnext,
    checkForLeftoverValues_succ]
  refine hloop.trans ?_
  rw [Nat.zero_add]

/-- **`check_for_leftover_values`** leaves the memory as it is. -/
theorem checkForLeftoverValues_prints (location : V → SourceLocation) (errorMessage : CString)
    {l : List (MapEntry V (d + 1))} (h : m.Owns (d + 1) head l)
    (hbound : (ownedBy (d + 1) l).card ≤ m.mallocs) :
    checkForLeftoverValues location errorMessage (d + 1) head m =
      .ok (SymbolMap.checkForLeftoverValues location errorMessage (d + 1) (toNodes (d + 1) l)).1
        (m.print
          (SymbolMap.checkForLeftoverValues location errorMessage (d + 1) (toNodes (d + 1) l)).2) := by
  induction d generalizing m head with
  | zero =>
      exact checkLevel_prints location errorMessage
        (reportValues_reports location errorMessage m.mallocs) h hbound
  | succ d ih =>
      refine checkLevel_prints location errorMessage (fun m' name head' l' h' hbound' hm => ?_) h
        hbound
      have hprint := h'.print [name ++ ": ".toList]
      have hbelow := ih hprint (hbound'.trans_eq hm.symm)
      refine (bind_of_ok (printError_apply _ _) _).trans ((bind_of_ok hbelow _).trans ?_)
      rw [print_print]
      rfl

/-! ### `teardown_testing` -/

/-- **`list_free`** of a map frees every address of it. -/
theorem listFree_symbols_moves {l : List (MapEntry V (d + 1))} (h : m.Owns (d + 1) head l)
    (hbound : (ownedBy (d + 1) l).card ≤ m.mallocs) :
    ∃ m', listFree head (freeSymbolMapValue d) m = .ok () m' ∧
      Moves (d + 1) head l [] 0 0 (ownedBy (d + 1) l) m m' ∧ Calm m m' :=
  listFree_moves h hbound fun e _ => freeSymbolMapValue_releases d e.ptr e.content

end Cmocka.MapMemory
