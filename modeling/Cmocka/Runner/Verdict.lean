import Cmocka.Runner.Origins

/-!
# Runner — the verdict on expectations

A test passes if its calls returned and nothing that has to be used is left after them.  The counts
left in the three structures say how often each expectation was met: `Books` relates them to what
was recorded, every call that returns keeps it, and at a pass the books are settled
(`Books.settled`).  What is recorded is what the calls did: `Performed` says it call by call, and
`passing_test_settled` puts the two together.
-/

namespace Cmocka

open Runs SymbolMap CountedQueue Ledger

/-! ### The books -/

/-- What is recorded of return values. -/
def Event.ofResults? : Event → Option Entry
  | .willReturn p _ n => some (.registered p n)
  | .mocked p => some (.used p)
  | _ => none

/-- What is recorded of parameter checks. -/
def Event.ofParameters? : Event → Option Entry
  | .expectCheck p _ _ n => some (.registered p n)
  | .checked p => some (.used p)
  | _ => none

/-- What is recorded of function calls. -/
def Event.ofCalls? : Event → Option Entry
  | .expectFunctionCall p _ n => some (.registered p n)
  | .called p => some (.used p)
  | _ => none

/-- The values of the result map and what remains of their counts. -/
def Globals.resultBag (s : Globals) : Multiset (ℕ × Int) :=
  (entries 1 s.globalFunctionResultMap).map fun e => (e.1.ptr, e.2)

/-- The events of the parameter map. -/
def Globals.parameterBag (s : Globals) : Multiset (ℕ × Int) :=
  (entries 2 s.globalFunctionParameterMap).map fun e => (e.1.ptr, e.2)

/-- The entries of the call-ordering list. -/
def Globals.callBag (s : Globals) : Multiset (ℕ × Int) :=
  (s.globalCallOrdering : Multiset (FuncOrderingValue × Int)).map fun e => (e.1.ptr, e.2)

/-- What was recorded since `s₀` accounts for the counts in the three structures. -/
structure Books (s₀ s : Globals) : Prop where
  results : Shape 1 s.globalFunctionResultMap
  parameters : Shape 2 s.globalFunctionParameterMap
  counts : ∀ e ∈ s.globalCallOrdering, e.2 ≠ 0
  balanced : ∃ log, s.trace = s₀.trace ++ log ∧
    Balanced s.nextPtr s.resultBag (log.filterMap Event.ofResults?) ∧
    Balanced s.nextPtr s.parameterBag (log.filterMap Event.ofParameters?) ∧
    Balanced s.nextPtr s.callBag (log.filterMap Event.ofCalls?)

section Entries

variable {next : ℕ} {bag bag' : Multiset (ℕ × Int)} {log events : List Event}
  {proj : Event → Option Entry}

theorem balanced_skip (h : Balanced next bag (log.filterMap proj))
    (he : events.filterMap proj = []) : Balanced next bag ((log ++ events).filterMap proj) := by
  rw [List.filterMap_append, he, List.append_nil]
  exact h

theorem balanced_register (h : Balanced next bag (log.filterMap proj)) {n : Int}
    (he : events.filterMap proj = [.registered next n]) :
    Balanced (next + 1) ((next, n) ::ₘ bag) ((log ++ events).filterMap proj) := by
  rw [List.filterMap_append, he]
  exact h.register n

theorem balanced_use (h : Balanced next bag (log.filterMap proj)) {p : ℕ} {c : Int}
    (hu : Uses p c bag bag') (hc : c ≠ 0) (he : events.filterMap proj = [.used p]) :
    Balanced next bag' ((log ++ events).filterMap proj) := by
  rw [List.filterMap_append, he]
  exact h.use hu hc

end Entries

/-! ### The calls -/

/-- A call is charged to one entry of the list. -/
theorem chargeCall_uses (before after : List (FuncOrderingValue × Int))
    (expected : FuncOrderingValue) (refcount : Int) :
    Uses expected refcount ((before ++ (expected, refcount) :: after : List _) : Multiset _)
      (chargeCall before expected refcount after : Multiset (FuncOrderingValue × Int)) := by
  refine ⟨(before ++ after : List _), ?_, ?_⟩
  · rw [Multiset.cons_coe]
    exact Multiset.coe_eq_coe.mpr List.perm_middle
  · rw [chargeCall, Multiset.coe_add, Multiset.coe_eq_coe, List.append_assoc]
    exact List.perm_append_comm_assoc _ _ _

theorem filterMap_freed_calls (released : List Addr) (p : Addr) :
    (released.map Event.freed ++ [Event.called p]).filterMap Event.ofResults? = [] ∧
    (released.map Event.freed ++ [Event.called p]).filterMap Event.ofParameters? = [] ∧
    (released.map Event.freed ++ [Event.called p]).filterMap Event.ofCalls? = [.used p] := by
  refine ⟨?_, ?_, ?_⟩ <;>
    simp [List.filterMap_append, List.filterMap_map, Function.comp_def, Event.ofResults?,
      Event.ofParameters?, Event.ofCalls?]

theorem results_add (function : CString) (v : SymbolValue) (c : Int)
    (list : List (MapNode SymbolValue)) :
    (entries 1 (addSymbolValue [function] v c list)).map (fun e => (e.1.ptr, e.2)) =
      (v.ptr, c) ::ₘ (entries 1 list).map fun e => (e.1.ptr, e.2) := by
  have hadd := entries_add (d := 1) (by decide) ⟨[function], rfl⟩ v c list
  exact (congrArg (Multiset.map _) hadd).trans (Multiset.map_cons _ _ _)

theorem parameters_add (function parameter : CString) (v : CheckParameterEvent) (c : Int)
    (list : List (MapNode CheckParameterEvent)) :
    (entries 2 (addSymbolValue [function, parameter] v c list)).map (fun e => (e.1.ptr, e.2)) =
      (v.ptr, c) ::ₘ (entries 2 list).map fun e => (e.1.ptr, e.2) := by
  have hadd := entries_add (d := 2) (by decide) ⟨[function, parameter], rfl⟩ v c list
  exact (congrArg (Multiset.map _) hadd).trans (Multiset.map_cons _ _ _)

theorem calls_add (e : FuncOrderingValue × Int) (list : List (FuncOrderingValue × Int)) :
    ((list ++ [e] : List _) : Multiset (FuncOrderingValue × Int)).map (fun e => (e.1.ptr, e.2)) =
      (e.1.ptr, e.2) ::ₘ
        (list : Multiset (FuncOrderingValue × Int)).map fun e => (e.1.ptr, e.2) := by
  rw [← Multiset.coe_add, Multiset.map_add, add_comm]
  rfl

/-- A charged entry does not come to `0`. -/
theorem chargeCall_ne_zero {before after : List (FuncOrderingValue × Int)}
    {expected : FuncOrderingValue} {refcount : Int}
    (h : ∀ e ∈ before ++ (expected, refcount) :: after, e.2 ≠ 0) :
    ∀ e ∈ chargeCall before expected refcount after, e.2 ≠ 0 := by
  intro e he
  simp only [chargeCall, List.mem_append, Option.mem_toList, Option.map_eq_some_iff] at he
  rcases he with (he | ⟨c, hs, rfl⟩) | he
  · exact h e (by simp [he])
  · exact spend_ne_zero hs (h (expected, refcount) (by simp))
  · exact h e (by simp [he])

/-- **A call that returns keeps the books.** -/
theorem Returns.books {op : Op} {s₀ s s' : Globals} (h : Returns op s s') (hb : Books s₀ s) :
    Books s₀ s' := by
  obtain ⟨hr, hp, hc, log, ht, hbr, hbp, hbc⟩ := hb
  cases h with
  | willReturn hcount =>
      refine ⟨shape_add (d := 1) (by decide) ⟨[_], rfl⟩ _ _ hr, hp, hc, log ++ [_],
        by rw [ht, List.append_assoc], ?_, (balanced_skip hbp rfl).mono (Nat.le_succ _),
        (balanced_skip hbc rfl).mono (Nat.le_succ _)⟩
      dsimp only [Globals.resultBag]
      rw [results_add]
      exact balanced_register hbr rfl
  | mock hg hv hz hi =>
      -- the entry that is used is the one `get_symbol_value` found
      obtain ⟨_, _, _, _, rfl⟩ := hi
      have hu := (entries_get (d := 1) (by decide) ⟨[_], rfl⟩ hg hv).map SymbolValue.ptr
      obtain ⟨hs, -⟩ := values_get (d := 1) (by decide) ⟨[_], rfl⟩ hr hg
      refine ⟨hs, hp, hc, log ++ _, by rw [ht, List.append_assoc], ?_, ?_, ?_⟩
      · exact balanced_use hbr hu hz (by split <;> rfl)
      · exact balanced_skip hbp (by split <;> rfl)
      · exact balanced_skip hbc (by split <;> rfl)
  | expectCheck =>
      refine ⟨hr, shape_add (d := 2) (by decide) ⟨[_, _], rfl⟩ _ _ hp, hc, log ++ [_],
        by rw [ht, List.append_assoc], (balanced_skip hbr rfl).mono (Nat.le_succ _), ?_,
        (balanced_skip hbc rfl).mono (Nat.le_succ _)⟩
      dsimp only [Globals.parameterBag]
      rw [parameters_add]
      exact balanced_register hbp rfl
  | checkExpected hg hv hz hi =>
      obtain ⟨_, _, _, _, rfl⟩ := hi
      have hu := (entries_get (d := 2) (by decide) ⟨[_, _], rfl⟩ hg hv).map CheckParameterEvent.ptr
      obtain ⟨hs, -⟩ := values_get (d := 2) (by decide) ⟨[_, _], rfl⟩ hp hg
      refine ⟨hr, hs, hc, log ++ _, by rw [ht, List.append_assoc], ?_, ?_, ?_⟩
      · exact balanced_skip hbr (by split <;> rfl)
      · exact balanced_use hbp hu hz (by split <;> rfl)
      · exact balanced_skip hbc (by split <;> rfl)
  | expectFunctionCall hcount =>
      refine ⟨hr, hp, ?_, log ++ [_], by rw [ht, List.append_assoc],
        (balanced_skip hbr rfl).mono (Nat.le_succ _), (balanced_skip hbp rfl).mono (Nat.le_succ _),
        ?_⟩
      · intro e he
        rcases List.mem_append.mp he with he | he
        · exact hc e he
        · rw [List.mem_singleton.mp he]
          exact hcount
      · dsimp only [Globals.callBag]
        rw [calls_add]
        exact balanced_register hbc rfl
  | functionCalled hl hf =>
      rename_i refcount before after expected released
      obtain ⟨her, hep, hec⟩ := filterMap_freed_calls released expected.ptr
      have hin : (expected, refcount) ∈ s.globalCallOrdering := by
        rw [hl]
        exact List.mem_append_right before List.mem_cons_self
      have hu := (chargeCall_uses before after expected refcount).map FuncOrderingValue.ptr
      rw [← hl] at hu
      exact ⟨hr, hp, chargeCall_ne_zero (hl ▸ hc), log ++ _, by rw [ht, List.append_assoc],
        balanced_skip hbr her, balanced_skip hbp hep, balanced_use hbc hu (hc _ hin) hec⟩
  | other cell hop hi =>
      obtain ⟨_, _, _, _, rfl⟩ := hi
      exact ⟨hr, hp, hc, log, ht, hbr, hbp, hbc⟩

/-- Before the first call the books are empty. -/
theorem books_start {s : Globals} (hr : s.globalFunctionResultMap = [])
    (hp : s.globalFunctionParameterMap = []) (hc : s.globalCallOrdering = []) : Books s s := by
  have hresults : s.resultBag = 0 := by simp [Globals.resultBag, hr]
  have hparameters : s.parameterBag = 0 := by simp [Globals.parameterBag, hp]
  have hcalls : s.callBag = 0 := by simp [Globals.callBag, hc]
  refine ⟨hr ▸ shape_nil 1, hp ▸ shape_nil 2, by simp [hc], [], (List.append_nil _).symm, ?_, ?_,
    ?_⟩
  · exact hresults ▸ balanced_nil _
  · exact hparameters ▸ balanced_nil _
  · exact hcalls ▸ balanced_nil _

theorem books_execOps {ops : List Op} {s₀ s s' : Globals} (h : execOps ops s = .ok () s')
    (hb : Books s₀ s) : Books s₀ s' :=
  execOps_invariant (I := fun _ s => Books s₀ s) (fun _ _ _ _ hb hr => hr.books hb) [] h hb

/-! ### The end of the test -/

/-- Where a map has nothing left over, its entries are all optional. -/
theorem optional_of_no_leftover {V : Type} {d : Nat} {list : List (MapNode V)}
    (hs : Shape (d + 1) list) {location : V → SourceLocation} {errorMessage : CString}
    (h : mapHasLeftover location errorMessage (d + 1) list = false) :
    ∀ e ∈ entries (d + 1) list, e.2 < -1 := by
  have hnil : (removeAt (d + 1) list).1 = [] := by
    rw [← checkForLeftoverValues_eq_zero (removeAt_shape hs) location errorMessage]
    rw [mapHasLeftover, bne_eq_false_iff_eq] at h
    exact h
  obtain ⟨dropped, he, -, hopt⟩ := entries_removeAt hs
  rw [he, hnil, entries_nil, add_zero]
  exact hopt

theorem optional_of_no_calls_left {s : Globals} (h : s.callsLeft = false) :
    ∀ e ∈ s.globalCallOrdering, e.2 < -1 := by
  have hnil : s.globalCallOrdering.filter (fun e => !(e.2 < -1)) = [] := by
    simpa [Globals.callsLeft, removeAlwaysReturnValuesFromList] using h
  intro e he
  simpa using List.filter_eq_nil_iff.mp hnil e he

/-- An expectation with count `n` was met `uses` times, as often as it has to be. -/
def Met (n : Int) (uses : ℕ) : Prop := (1 ≤ n → (uses : Int) = n) ∧ (n = -1 → 1 ≤ uses)

/-- The uses in a ledger are those recorded. -/
theorem count_filterMap_used {proj : Event → Option Entry} {used : ℕ → Event}
    (hused : ∀ e p, proj e = some (.used p) ↔ e = used p) (log : List Event) (p : ℕ) :
    (log.filterMap proj).count (.used p) = log.count (used p) := by
  induction log with
  | nil => rfl
  | cons e log ih =>
      rw [List.filterMap_cons, List.count_cons]
      by_cases he : e = used p
      · rw [(hused e p).mpr he]
        simp [he, ih]
      · have hne : proj e ≠ some (.used p) := fun h => he ((hused e p).mp h)
        cases hproj : proj e with
        | none => simp [he, ih]
        | some entry =>
            rw [hproj] at hne
            simp only [ne_eq, Option.some.injEq] at hne
            simp [he, hne, ih]

/-- Settled books: what is left is optional. -/
theorem met_of_optional {next : ℕ} {bag : Multiset (ℕ × Int)} {log : List Event}
    {proj : Event → Option Entry} {used : ℕ → Event}
    (hused : ∀ e p, proj e = some (.used p) ↔ e = used p)
    (hb : Balanced next bag (log.filterMap proj)) (hopt : ∀ e ∈ bag, e.2 < -1) {e : Event} {p : ℕ}
    {n : Int} (he : e ∈ log) (hproj : proj e = some (.registered p n)) :
    Met n (log.count (used p)) := by
  rw [← count_filterMap_used hused]
  exact hb.settled hopt (List.mem_filterMap.mpr ⟨e, he, hproj⟩)

/-- An expectation that is recorded was met, as the log has it. -/
def MetIn (log : List Event) : Event → Prop
  | .willReturn p _ n => Met n (log.count (.mocked p))
  | .expectCheck p _ _ n => Met n (log.count (.checked p))
  | .expectFunctionCall p _ n => Met n (log.count (.called p))
  | _ => True

/-- **Settled books**: where nothing is left, every expectation that is recorded was met. -/
theorem Books.settled {s₀ s : Globals} (h : Books s₀ s) (hleft : s.anyLeft = false) :
    ∀ e ∈ s₀.logSince s, MetIn (s₀.logSince s) e := by
  obtain ⟨hr, hp, -, log, ht, hbr, hbp, hbc⟩ := h
  simp only [Globals.anyLeft, Bool.or_eq_false_iff] at hleft
  obtain ⟨⟨hleftr, hleftp⟩, hleftc⟩ := hleft
  rw [logSince_of_append ht]
  intro e he
  cases e with
  | willReturn p function n =>
      refine met_of_optional (fun e p => ?_) hbr (fun e he => ?_) he rfl
      · cases e <;> simp [Event.ofResults?]
      · obtain ⟨e', he', rfl⟩ := Multiset.mem_map.mp he
        exact optional_of_no_leftover hr hleftr e' he'
  | expectCheck p function parameter n =>
      refine met_of_optional (fun e p => ?_) hbp (fun e he => ?_) he rfl
      · cases e <;> simp [Event.ofParameters?]
      · obtain ⟨e', he', rfl⟩ := Multiset.mem_map.mp he
        exact optional_of_no_leftover hp hleftp e' he'
  | expectFunctionCall p function n =>
      refine met_of_optional (fun e p => ?_) hbc (fun e he => ?_) he rfl
      · cases e <;> simp [Event.ofCalls?]
      · obtain ⟨e', he', rfl⟩ := Multiset.mem_map.mp he
        exact optional_of_no_calls_left hleftc e' (Multiset.mem_coe.mp he')
  | _ => trivial

/-! ### What the calls did -/

/-- Releases say nothing about the verdict. -/
def Event.isMark : Event → Bool
  | .freed _ => false
  | _ => true

/-- What was recorded since `s`, without the releases. -/
def Globals.marksSince (s s' : Globals) : List Event := (s.logSince s').filter Event.isMark

/-- What one call did in a run from `start` whose log is `log`, taking `s` to `s'` after the calls
`done`.  A call that declares an expectation is recorded with its count at an address of its own,
and the expectation was met.  A call that uses one is recorded with the address of the call that
declared it: a `_mock` returns the value declared for its function, a `_check_expected` calls the
check function declared for its parameter, which returns true, and a call of a function is one that
was expected of it. -/
inductive Performed (done : List Op) (start : Globals) (log : List Event) (s s' : Globals) :
    Op → Prop where
  | willReturn {function file : CString} {line : Int} {name : Option CString}
      {value : CMockaValueData} {count : Int}
      (hmarks : start.marksSince s' =
        start.marksSince s ++ [.willReturn s.nextPtr function count])
      (hunused : NextUnused done start s) (hmet : Met count (log.count (.mocked s.nextPtr))) :
      Performed done start log s s' (.willReturn function file line name value count)
  | mock {function file file' : CString} {line line' : Int} {name name' : Option CString}
      {value : CMockaValueData} {count : Int} {p : Addr}
      (hmade : MadeAt done start (.willReturn function file' line' name' value count) p)
      (hname : name = none ∨ name' = name)
      (hvalue : Cmocka.mock function file line name s = .ok value s')
      (hmarks : start.marksSince s' = start.marksSince s ++ [.mocked p]) :
      Performed done start log s s' (.mock function file line name)
  | expectCheck {function parameter file : CString} {line : Int}
      {checkFunction : CheckParameterValue} {checkData : CMockaValueData} {count : Int}
      (hmarks : start.marksSince s' =
        start.marksSince s ++ [.expectCheck s.nextPtr function parameter count])
      (hunused : NextUnused done start s) (hmet : Met count (log.count (.checked s.nextPtr))) :
      Performed done start log s s'
        (.expectCheck function parameter file line checkFunction checkData count)
  | checkExpected {function parameter file file' : CString} {line line' : Int}
      {checkFunction : CheckParameterValue} {checkData value : CMockaValueData} {count : Int}
      {p : Addr}
      (hmade : MadeAt done start
        (.expectCheck function parameter file' line' checkFunction checkData count) p)
      (hcheck : (checkFunction value checkData).2 = .returned true)
      (hmarks : start.marksSince s' =
        start.marksSince s ++ [.checkCalled p value (.returned true), .checked p]) :
      Performed done start log s s' (.checkExpected function parameter file line value)
  | expectFunctionCall {function file : CString} {line count : Int}
      (hmarks : start.marksSince s' =
        start.marksSince s ++ [.expectFunctionCall s.nextPtr function count])
      (hunused : NextUnused done start s) (hmet : Met count (log.count (.called s.nextPtr))) :
      Performed done start log s s' (.expectFunctionCall function file line count)
  | functionCalled {function file file' : CString} {line line' count : Int} {p : Addr}
      (hmade : MadeAt done start (.expectFunctionCall function file' line' count) p)
      (hmarks : start.marksSince s' = start.marksSince s ++ [.called p]) :
      Performed done start log s s' (.functionCalled function file line)
  | other {op : Op} (hop : op.isExpectation = false)
      (hmarks : start.marksSince s' = start.marksSince s) :
      Performed done start log s s' op

theorem marksSince_append {start s s' : Globals} {before events : List Event}
    (hs : s.trace = start.trace ++ before) (hs' : s'.trace = s.trace ++ events) :
    start.marksSince s' = start.marksSince s ++ events.filter Event.isMark := by
  rw [Globals.marksSince, Globals.marksSince, logSince_of_append hs,
    logSince_of_append (hs'.trans (by rw [hs, List.append_assoc])), List.filter_append]

theorem filter_freed_isMark (ptrs : List Addr) :
    (ptrs.map Event.freed).filter Event.isMark = [] := by
  simp [List.filter_eq_nil_iff, Event.isMark]

/-- **A call that returns** in a run at whose end every expectation was met. -/
theorem performed_of_exec {done : List Op} {op : Op} {start s s' : Globals}
    {log before : List Event}
    (hs : Sourced done start s) (ho : op.exec s = .ok () s')
    (ht : s.trace = start.trace ++ before)
    (hmet : ∀ events, s'.trace = s.trace ++ events → ∀ e ∈ events, MetIn log e) :
    Performed done start log s s' op := by
  have hlast : ∀ {e}, s'.trace = s.trace ++ [e] → MetIn log e := fun he =>
    hmet _ he _ (List.mem_singleton_self _)
  have hmark : ∀ {e}, s'.trace = s.trace ++ [e] → e.isMark = true →
      start.marksSince s' = start.marksSince s ++ [e] := by
    intro e he hisMark
    rw [marksSince_append ht he, List.filter_cons_of_pos hisMark, List.filter_nil]
  cases Op.exec_ok ho with
  | willReturn hc =>
      exact .willReturn (hmark rfl rfl) hs.unused (hlast rfl)
  | @mock _ _ f file line name r v hg hv hz hi hname hrun =>
      obtain ⟨-, ⟨c, hmem⟩, -⟩ := found_value hs.results hg hv
      obtain ⟨file', line', n, hmade⟩ := hs.values f v c hmem
      refine .mock hmade (typeMatches_iff.mp hname) hrun ?_
      rw [marksSince_append ht hi.trace_eq]
      split <;> rfl
  | expectCheck =>
      exact .expectCheck (hmark rfl rfl) hs.unused (hlast rfl)
  | @checkExpected _ _ f p file line value r check hg hv hz hi hcheck =>
      obtain ⟨-, ⟨c, hmem⟩, -⟩ := found_check hs.parameters hg hv
      obtain ⟨file', line', n, hmade⟩ := hs.checks (f, p) check c hmem
      refine .checkExpected hmade hcheck ?_
      rw [marksSince_append ht hi.trace_eq]
      split <;> rfl
  | expectFunctionCall hc =>
      exact .expectFunctionCall (hmark rfl rfl) hs.unused (hlast rfl)
  | functionCalled hl hf =>
      rename_i refcount before' after expected released
      obtain ⟨file', line', n, hmade⟩ := hs.calls expected refcount (by simp [hl])
      refine .functionCalled (hf ▸ hmade) ?_
      rw [marksSince_append ht rfl, List.filter_append, filter_freed_isMark]
      rfl
  | other cell hop hi =>
      refine .other hop ?_
      rw [marksSince_append ht (hi.trace_eq.trans (List.append_nil _).symm)]
      exact List.append_nil _

/-- **Verdict soundness for expectations.**  If `cmocka_run_one_test_or_fixture` returns `0` for a
test, whatever calls it makes and whether it returns or stops, then none of its calls failed, and
every expectation it declared was met: each of its calls did what `Performed` says of it. -/
theorem passing_test_settled {functionName : CString} {f : UserFn} {state : Addr}
    {heapCheckPoint : Option BlockNode} {s s' : Globals} {run : CallbackRun}
    (hstop : s.globalStopTest = false)
    (h : cmockaRunOneTestOrFixture functionName (some f) none none state heapCheckPoint s =
      .ok run s') (hrc : run.rc = 0) :
    ∃ s₁, execOps f.script.ops (s.atBody f state heapCheckPoint) = .ok () s₁ ∧
      ∀ done op rest, f.script.ops = done ++ op :: rest →
        ∃ s₂ s₃, execOps done (s.atBody f state heapCheckPoint) = .ok () s₂ ∧
          op.exec s₂ = .ok () s₃ ∧
          Performed done (s.atBody f state heapCheckPoint)
            ((s.atBody f state heapCheckPoint).logSince s₁) s₂ s₃ op := by
  obtain ⟨checkPoint, s₀, s₂, rc, ending, i, h₀, hj, rfl, -⟩ := runOne_callback rfl h
  rw [hrc] at hj
  have hstop₀ : s₀.globalStopTest = false := by
    have hi := inert_takeCheckPoint heapCheckPoint s
    rw [h₀] at hi
    exact hi.quiet.stop.trans hstop
  -- both ways through `setjmp` look at what is left before they pass
  obtain ⟨s₁, hbody, hleft⟩ := setjmp_passed (s := s₀.entering state) rfl hstop₀ hj
  have hatBody : s.atBody f state heapCheckPoint = (s₀.entering state).calling f := by
    rw [Globals.atBody, h₀]
    rfl
  rw [← hatBody] at hbody
  have hbooks := books_start (s := s.atBody f state heapCheckPoint) rfl rfl rfl
  have hmet := (books_execOps hbody hbooks).settled hleft
  refine ⟨s₁, hbody, fun done op rest hops => ?_⟩
  rw [hops] at hbody
  obtain ⟨s₂, hd, hrest⟩ := execOps_append.mp hbody
  obtain ⟨_, s₃, ho, hrest⟩ := bind_eq_ok.mp hrest
  obtain ⟨-, -, -, before, ht, -⟩ := books_execOps hd hbooks
  refine ⟨s₂, s₃, hd, ho, performed_of_exec ((sourced_start rfl rfl rfl).execOps hd) ho ht ?_⟩
  -- what the call recorded is in the log of the run
  intro events hevents e he
  obtain ⟨later, hlater, -⟩ := ((keeps_execOps rest).ok hrest).trace
  refine hmet e ?_
  rw [logSince_of_append (hlater.trans (by rw [hevents, ht, List.append_assoc, List.append_assoc]))]
  exact List.mem_append_right _ (List.mem_append_left _ he)

/-- A value returned twice, a parameter checked at least once and a function called once, before the
test stops. -/
def mockingTest : UserFn where
  addr := 0x401000
  script :=
    { ops :=
        [.willReturn "f".toList "t.c".toList 1 (some "int".toList) 5 2,
          .expectCheck "f".toList "x".toList "t.c".toList 2
            (fun value data => ([], .returned (value == data))) 7 (-1),
          .expectFunctionCall "g".toList "t.c".toList 3 1,
          .mock "f".toList "t.c".toList 4 (some "int".toList),
          .checkExpected "f".toList "x".toList "t.c".toList 5 7,
          .functionCalled "g".toList "t.c".toList 6,
          .mock "f".toList "t.c".toList 7 (some "int".toList)]
      ending := .stop }

/-- `mockingTest` passes, and each of its expectations was met. -/
theorem mockingTest_settled :
    ∃ run s' s₁, cmockaRunOneTestOrFixture "test".toList (some mockingTest) none none 0 none
        (Globals.initial .lp64) = .ok run s' ∧ run.rc = 0 ∧
      execOps mockingTest.script.ops ((Globals.initial .lp64).atBody mockingTest 0 none) =
        .ok () s₁ ∧
      (((Globals.initial .lp64).atBody mockingTest 0 none).logSince s₁).count (.mocked 1) = 2 ∧
      1 ≤ (((Globals.initial .lp64).atBody mockingTest 0 none).logSince s₁).count (.checked 2) ∧
      (((Globals.initial .lp64).atBody mockingTest 0 none).logSince s₁).count (.called 3) = 1 := by
  obtain ⟨run, h, hrc⟩ := eq_ok_of_map (r := cmockaRunOneTestOrFixture "test".toList
    (some mockingTest) none none 0 none (Globals.initial .lp64)) (f := CallbackRun.rc) (b := 0)
    (by decide +kernel)
  obtain ⟨s₁, hbody, hperformed⟩ := passing_test_settled rfl h hrc
  refine ⟨run, _, s₁, h, hrc, hbody, ?_, ?_, ?_⟩
  · obtain ⟨s₂, s₃, hd, -, hp⟩ := hperformed [] _ _ rfl
    cases hd
    cases hp with
    | willReturn hmarks hunused hmet => exact Int.ofNat_inj.mp (hmet.1 (by decide))
    | other hop => cases hop
  · obtain ⟨s₂, s₃, hd, -, hp⟩ := hperformed [_] _ _ rfl
    cases hd
    cases hp with
    | expectCheck hmarks hunused hmet => exact hmet.2 rfl
    | other hop => cases hop
  · obtain ⟨s₂, s₃, hd, -, hp⟩ := hperformed [_, _] _ _ rfl
    cases hd
    cases hp with
    | expectFunctionCall hmarks hunused hmet => exact Int.ofNat_inj.mp (hmet.1 (by decide))
    | other hop => cases hop

end Cmocka
