import Mathlib.Tactic.Abel
import Cmocka.Runner.Callback

/-!
# Runner — who releases what

Every value stored by `_will_return` and every event stored by `_expect_check` is one allocation.
It can be released after its last use, by the mismatch branch of `_mock`, by the removal of
optional values, or by `teardown_testing`.  `Accounts` is the invariant: what the maps hold was
registered and not released, and what was registered and is in no map was released once, but for
the addresses in `lost`.  Every call keeps it, with two exceptions.  An event whose check function
ends the test on its last use is in no map any more and is never released: it is lost.  And a
`_mock` that finds a value of another type releases it whatever its count: if the value was to be
used again it stays in the map, and the invariant is broken.
-/

namespace Cmocka

open Runs SymbolMap Ledger

/-! ### The invariant -/

/-- What was recorded since `s`. -/
def Globals.logSince (s s' : Globals) : List Event := s'.trace.drop s.trace.length

/-- The entry an event makes in the ledger. -/
def Event.ledger? : Event → Option Entry
  | .willReturn p _ n => some (.registered p n)
  | .expectCheck p _ _ n => some (.registered p n)
  | .checkCalled p _ _ => some (.used p)
  | .freed p => some (.released p)
  | _ => none

/-- The addresses of the values in the two maps. -/
def Globals.held (s : Globals) : Multiset ℕ :=
  (valuesOf (entries 1 s.globalFunctionResultMap)).map SymbolValue.ptr +
    (valuesOf (entries 2 s.globalFunctionParameterMap)).map CheckParameterEvent.ptr

/-- A check function was called with the event at `p` since `s₀`, and did not come back. -/
def Abandoned (s₀ s : Globals) (p : Addr) : Prop :=
  ∃ value outcome, .checkCalled p value outcome ∈ s₀.logSince s ∧ outcome.returns = false

/-- The releases recorded since `s₀` account for the values in the maps, and for those in `lost`. -/
structure Accounts (s₀ : Globals) (lost : Multiset ℕ) (s : Globals) : Prop where
  results : Shape 1 s.globalFunctionResultMap
  parameters : Shape 2 s.globalFunctionParameterMap
  calls : s.globalCallOrdering = []
  owned : ∃ log, s.trace = s₀.trace ++ log ∧
    Owned s.nextPtr (lost + s.held) (log.filterMap Event.ledger?)
  abandoned : ∀ p ∈ lost, Abandoned s₀ s p

theorem logSince_of_append {s s' : Globals} {log : List Event} (h : s'.trace = s.trace ++ log) :
    s.logSince s' = log := by
  rw [Globals.logSince, h, List.drop_left]

/-- What was recorded stays recorded. -/
theorem Abandoned.mono {s₀ s s' : Globals} {p : Addr} (h : Abandoned s₀ s p) {log events : List Event}
    (hs : s.trace = s₀.trace ++ log) (hs' : s'.trace = s.trace ++ events) : Abandoned s₀ s' p := by
  obtain ⟨value, outcome, hmem, hout⟩ := h
  rw [logSince_of_append hs] at hmem
  refine ⟨value, outcome, ?_, hout⟩
  rw [logSince_of_append (hs'.trans (by rw [hs, List.append_assoc]))]
  exact List.mem_append_left events hmem

/-- The releases in the ledger are those recorded. -/
theorem count_ledger_released (log : List Event) (p : ℕ) :
    (log.filterMap Event.ledger?).count (.released p) = log.count (.freed p) := by
  induction log with
  | nil => rfl
  | cons e log ih => cases e <;> simp [List.filterMap_cons, Event.ledger?, List.count_cons, ih]

theorem mem_ledger_released {log : List Event} {p : ℕ} :
    .released p ∈ log.filterMap Event.ledger? ↔ .freed p ∈ log := by
  rw [← List.count_pos_iff, count_ledger_released, List.count_pos_iff]

theorem filterMap_ledger_freed (ptrs : List ℕ) :
    (ptrs.map Event.freed).filterMap Event.ledger? = ptrs.map .released := by
  rw [List.filterMap_map, ← List.filterMap_eq_map]
  rfl

namespace Accounts

variable {s₀ s s' : Globals} {lost lost' : Multiset ℕ}

/-- Nothing in a map was released. -/
theorem not_freed (h : Accounts s₀ lost s) {p : ℕ} (hp : p ∈ s.held) :
    .freed p ∉ s₀.logSince s := by
  obtain ⟨log, ht, ho⟩ := h.owned
  rw [logSince_of_append ht, ← mem_ledger_released]
  exact (ho.held p (Multiset.mem_add.mpr (.inr hp))).2

theorem not_freed_result (h : Accounts s₀ lost s) {e : SymbolValue × Int}
    (he : e ∈ entries 1 s.globalFunctionResultMap) : .freed e.1.ptr ∉ s₀.logSince s :=
  h.not_freed (Multiset.mem_add.mpr (.inl
    (Multiset.mem_map_of_mem _ (Multiset.mem_map_of_mem Prod.fst he))))

theorem not_freed_parameter (h : Accounts s₀ lost s) {e : CheckParameterEvent × Int}
    (he : e ∈ entries 2 s.globalFunctionParameterMap) : .freed e.1.ptr ∉ s₀.logSince s :=
  h.not_freed (Multiset.mem_add.mpr (.inr
    (Multiset.mem_map_of_mem _ (Multiset.mem_map_of_mem Prod.fst he))))

theorem count_freed_le (h : Accounts s₀ lost s) (p : ℕ) :
    (s₀.logSince s).count (.freed p) ≤ 1 := by
  obtain ⟨log, ht, ho⟩ := h.owned
  rw [logSince_of_append ht, ← count_ledger_released]
  exact ho.count_le_one p

/-- When nothing is held or lost, everything registered was released once. -/
theorem count_freed (h : Accounts s₀ 0 s) (he : s.held = 0) {e : Event} {p : ℕ} {n : Int}
    (hm : e ∈ s₀.logSince s) (hl : e.ledger? = some (.registered p n)) :
    (s₀.logSince s).count (.freed p) = 1 := by
  obtain ⟨log, ht, ho⟩ := h.owned
  rw [logSince_of_append ht] at hm ⊢
  rw [← count_ledger_released]
  refine ho.gone p n (List.mem_filterMap.mpr ⟨e, hm, hl⟩) ?_
  simp [he]

/-- States that agree on the maps, the list, the trace and the next address. -/
theorem congr (h : Accounts s₀ lost s)
    (hr : s'.globalFunctionResultMap = s.globalFunctionResultMap)
    (hp : s'.globalFunctionParameterMap = s.globalFunctionParameterMap)
    (hc : s'.globalCallOrdering = s.globalCallOrdering) (hn : s'.nextPtr = s.nextPtr)
    (ht : s'.trace = s.trace) : Accounts s₀ lost s' := by
  have hheld : s'.held = s.held := by rw [Globals.held, hr, hp, Globals.held]
  refine ⟨hr ▸ h.results, hp ▸ h.parameters, hc.trans h.calls, ?_, ?_⟩
  · rw [ht, hn, hheld]
    exact h.owned
  · intro p hp
    obtain ⟨log, htr, -⟩ := h.owned
    exact (h.abandoned p hp).mono htr (ht.trans (List.append_nil _).symm)

theorem withFlags (h : Accounts s₀ lost s) (running skip stop : Bool) :
    Accounts s₀ lost (s.withFlags running skip stop) := h.congr rfl rfl rfl rfl rfl

/-- **Releasing**: what leaves the maps is released or lost. -/
theorem release (h : Accounts s₀ lost s) (hr : Shape 1 s'.globalFunctionResultMap)
    (hp : Shape 2 s'.globalFunctionParameterMap) (hc : s'.globalCallOrdering = [])
    (hn : s'.nextPtr = s.nextPtr) {events : List Event} (ht : s'.trace = s.trace ++ events)
    {released : List ℕ} (hev : events.filterMap Event.ledger? = released.map .released)
    (hheld : lost + s.held = released + (lost' + s'.held))
    (hlost : ∀ p ∈ lost', p ∈ lost ∨ Abandoned s₀ s p) : Accounts s₀ lost' s' := by
  obtain ⟨log, htr, ho⟩ := h.owned
  refine ⟨hr, hp, hc, ⟨log ++ events, by rw [ht, htr, List.append_assoc], ?_⟩, fun p hp => ?_⟩
  · rw [List.filterMap_append, hev, hn]
    exact ho.release hheld
  · exact ((hlost p hp).elim (h.abandoned p) id).mono htr ht

/-- **Registering** the next address. -/
theorem register (h : Accounts s₀ lost s) (hr : Shape 1 s'.globalFunctionResultMap)
    (hp : Shape 2 s'.globalFunctionParameterMap) (hc : s'.globalCallOrdering = [])
    (hn : s'.nextPtr = s.nextPtr + 1) {e : Event} (ht : s'.trace = s.trace ++ [e]) {n : Int}
    (hev : e.ledger? = some (.registered s.nextPtr n)) (hheld : s'.held = s.nextPtr ::ₘ s.held) :
    Accounts s₀ lost s' := by
  obtain ⟨log, htr, ho⟩ := h.owned
  refine ⟨hr, hp, hc, ⟨log ++ [e], by rw [ht, htr, List.append_assoc], ?_⟩,
    fun p hp => (h.abandoned p hp).mono htr ht⟩
  have hone : [e].filterMap Event.ledger? = [.registered s.nextPtr n] := by
    simp [hev]
  rw [List.filterMap_append, hone, hn, hheld, Multiset.add_cons]
  exact ho.register n

/-- **Calling** the check function of an event in the map. -/
theorem call (h : Accounts s₀ lost s) {check : CheckParameterEvent} {c : Int}
    (hin : (check, c) ∈ entries 2 s.globalFunctionParameterMap) (value : CMockaValueData)
    (outcome : CheckOutcome) :
    Accounts s₀ lost { s with trace := s.trace ++ [.checkCalled check.ptr value outcome] } := by
  obtain ⟨log, htr, ho⟩ := h.owned
  have hheld : check.ptr ∈ lost + s.held := Multiset.mem_add.mpr (.inr (Multiset.mem_add.mpr
    (.inr (Multiset.mem_map_of_mem _ (Multiset.mem_map_of_mem Prod.fst hin)))))
  refine ⟨h.results, h.parameters, h.calls, ⟨log ++ [.checkCalled check.ptr value outcome],
    (congrArg (· ++ _) htr).trans (List.append_assoc _ _ _), ?_⟩,
    fun p hp => (h.abandoned p hp).mono htr rfl⟩
  rw [List.filterMap_append]
  exact ho.use hheld

/-- The call of a check function that does not come back. -/
theorem abandoned_call (h : Accounts s₀ lost s) (p : Addr) (value : CMockaValueData)
    {outcome : CheckOutcome} (hout : outcome.returns = false) :
    Abandoned s₀ { s with trace := s.trace ++ [.checkCalled p value outcome] } p := by
  obtain ⟨log, htr, -⟩ := h.owned
  refine ⟨value, outcome, ?_, hout⟩
  rw [logSince_of_append ((congrArg (· ++ _) htr).trans (List.append_assoc _ _ _))]
  exact List.mem_append_right log (List.mem_singleton_self _)

end Accounts

theorem Inert.accounts {s₀ s s' : Globals} {lost : Multiset ℕ} (hi : Inert s s')
    (h : Accounts s₀ lost s) : Accounts s₀ lost s' := by
  obtain ⟨_, _, _, _, rfl⟩ := hi
  exact h.congr rfl rfl rfl rfl rfl

/-! ### One call -/

/-- The call is one on the result map or the parameter map. -/
def Op.onMaps : Op → Bool
  | .willReturn .. | .mock .. | .expectCheck .. | .checkExpected .. => true
  | _ => false

/-- The call is a `_mock` that finds a value of another type which is not at its last use. -/
def Op.mismatches (s : Globals) : Op → Bool
  | .mock function _ _ name =>
      match getSymbolValue [function] s.globalFunctionResultMap with
      | some ⟨returnValue, some symbol, _, _⟩ =>
          returnValue != 0 && returnValue != 1 && !typeMatches name symbol
      | _ => false
  | _ => false

/-- The event a `_check_expected` passes to its check function, and the value it passes with it. -/
def Op.passed (s : Globals) : Op → Option (CheckParameterEvent × CMockaValueData)
  | .checkExpected functionName parameterName _ _ value =>
      match getSymbolValue [functionName, parameterName] s.globalFunctionParameterMap with
      | some ⟨returnValue, some check, _, _⟩ =>
          if returnValue = 0 then none else some (check, value)
      | _ => none
  | _ => none

/-- The check function the call passes an event to, if any, comes back. -/
def Op.CheckReturns (s : Globals) (op : Op) : Prop :=
  ∀ check value, op.passed s = some (check, value) → (check.outcome value).returns = true

theorem FailsFrom.final {α : Type} {r : EStateM.Result Exit Globals α} {s : Globals}
    (h : FailsFrom r s) : Inert s (final r) := by
  obtain ⟨e, s', rfl, hi, -⟩ := h
  exact hi

theorem final_discard {α : Type} (x : CM α) (s : Globals) :
    final ((do let _ ← x : CM Unit) s) = final (x s) := by
  rw [bind_apply]
  cases x s <;> rfl

section Calls

variable {s₀ s : Globals} {lost : Multiset ℕ}

/-- What a get on the result map leaves, when what it uses up is released. -/
theorem Accounts.mocked (h : Accounts s₀ lost s) {function : CString} {r : GetResult SymbolValue}
    (hg : getSymbolValue [function] s.globalFunctionResultMap = some r) {s' : Globals}
    (hm : s'.globalFunctionResultMap = r.list)
    (hp : s'.globalFunctionParameterMap = s.globalFunctionParameterMap)
    (hc : s'.globalCallOrdering = s.globalCallOrdering) (hn : s'.nextPtr = s.nextPtr)
    {events : List Event} (ht : s'.trace = s.trace ++ events)
    (hev : events.filterMap Event.ledger? = ((lastUse r).map SymbolValue.ptr).map .released) :
    Accounts s₀ lost s' := by
  obtain ⟨hs, hv⟩ := values_get (d := 1) (by decide) ⟨[function], rfl⟩ h.results hg
  refine h.release (hm ▸ hs) (hp ▸ h.parameters) (hc.trans h.calls) hn ht hev ?_ fun _ => .inl
  simp only [Globals.held, valuesOf, hm, hp, hv, Multiset.map_add, Multiset.map_coe]
  abel

/-- The same for the parameter map, where the event used up may be lost instead. -/
theorem Accounts.checked {s' : Globals} {lost' : Multiset ℕ} (h : Accounts s₀ lost s)
    {functionName parameterName : CString} {r : GetResult CheckParameterEvent}
    (released : List ℕ)
    (hg : getSymbolValue [functionName, parameterName] s.globalFunctionParameterMap = some r)
    (hm : s'.globalFunctionParameterMap = r.list)
    (hr : s'.globalFunctionResultMap = s.globalFunctionResultMap)
    (hc : s'.globalCallOrdering = s.globalCallOrdering) (hn : s'.nextPtr = s.nextPtr)
    {events : List Event} (ht : s'.trace = s.trace ++ events)
    (hev : events.filterMap Event.ledger? = released.map .released)
    (hlost : ((lastUse r).map CheckParameterEvent.ptr : Multiset ℕ) + lost = released + lost')
    (habandoned : ∀ p ∈ lost', p ∈ lost ∨ Abandoned s₀ s p) : Accounts s₀ lost' s' := by
  obtain ⟨hs, hv⟩ := values_get (d := 2) (by decide) ⟨[functionName, parameterName], rfl⟩
    h.parameters hg
  refine h.release (hr ▸ h.results) (hm ▸ hs) (hc.trans h.calls) hn ht hev ?_ habandoned
  rw [← add_assoc (released : Multiset ℕ), ← hlost]
  simp only [Globals.held, valuesOf, hm, hr, hv, Multiset.map_add, Multiset.map_coe]
  abel

theorem accounts_willReturn (functionName file : CString) (line : Int) (name : Option CString)
    (value : CMockaValueData) (count : Int) (h : Accounts s₀ lost s) :
    Accounts s₀ lost (final (willReturn functionName file line name value count s)) := by
  rcases willReturn_cases functionName file line name value count s with ⟨-, he⟩ | ⟨-, hf⟩
  · rw [he]
    refine h.register (shape_add (d := 1) (by decide) ⟨[functionName], rfl⟩ _ _ h.results)
      h.parameters
      h.calls rfl rfl rfl ?_
    have hadd := entries_add (d := 1) (by decide) ⟨[functionName], rfl⟩
      (returnValueOf s file line name value) count s.globalFunctionResultMap
    simp only [Globals.held, Runs.final, hadd]
    simp [returnValueOf]
  · refine hf.final.accounts ⟨h.results, h.parameters, h.calls, ?_, h.abandoned⟩
    obtain ⟨log, ht, ho⟩ := h.owned
    exact ⟨log, ht, ho.mono (Nat.le_succ _)⟩

theorem accounts_mock (function file : CString) (line : Int) (name : Option CString)
    (hm : (Op.mock function file line name).mismatches s = false) (h : Accounts s₀ lost s) :
    Accounts s₀ lost (final (mock function file line name s)) := by
  rcases mock_cases function file line name s with
    ⟨-, hf⟩ | ⟨r, hg, ⟨hno, hf⟩ | ⟨v, hv, hz, ⟨-, s', he, hi⟩ | ⟨hty, hf⟩⟩⟩
  · exact hf.final.accounts h
  · refine hf.final.accounts (h.mocked hg rfl rfl rfl rfl (List.append_nil _).symm ?_)
    rcases hno with hno | hno <;> simp [lastUse, hno]
  · rw [he]
    refine hi.accounts (h.mocked hg rfl rfl rfl rfl rfl ?_)
    by_cases h1 : r.returnValue = 1
    · simp [lastUse, h1, hv, Event.ledger?]
    · simp [lastUse, h1, Event.ledger?]
  · -- the mismatch branch
    have h1 : r.returnValue = 1 := by
      obtain ⟨c, o, list, printed⟩ := r
      cases hv
      simpa [Op.mismatches, hg, hz, hty] using hm
    refine hf.final.accounts (h.mocked hg rfl rfl rfl rfl rfl ?_)
    simp [lastUse, h1, hv, Event.ledger?]

theorem accounts_expectCheck (function parameter file : CString) (line : Int)
    (checkFunction : CheckParameterValue) (checkData : CMockaValueData) (count : Int)
    (h : Accounts s₀ lost s) :
    Accounts s₀ lost
      (final (expectCheck function parameter file line checkFunction checkData count s)) := by
  rw [expectCheck_apply]
  refine h.register h.results 
    (shape_add (d := 2) (by decide) ⟨[function, parameter], rfl⟩ _ _ h.parameters) h.calls
    rfl rfl rfl ?_
  have hadd := entries_add (d := 2) (by decide) ⟨[function, parameter], rfl⟩
    (checkOf s parameter file line checkFunction checkData) count s.globalFunctionParameterMap
  simp only [Globals.held, Runs.final, hadd]
  simp [checkOf]

/-- The event found is in the map. -/
theorem found_mem {functionName parameterName : CString} {r : GetResult CheckParameterEvent}
    (hg : getSymbolValue [functionName, parameterName] s.globalFunctionParameterMap = some r)
    {check : CheckParameterEvent} (hv : r.output = some check) :
    (check, r.returnValue) ∈ entries 2 s.globalFunctionParameterMap := by
  obtain ⟨rest, hb, -⟩ :=
    entries_get (d := 2) (by decide) ⟨[functionName, parameterName], rfl⟩ hg hv
  rw [hb]
  exact Multiset.mem_cons_self _ _

theorem accounts_checkExpected (functionName parameterName file : CString) (line : Int)
    (value : CMockaValueData) (h : Accounts s₀ lost s) :
    ∃ lost', Accounts s₀ lost' (final (checkExpected functionName parameterName file line value s)) ∧
      ((Op.checkExpected functionName parameterName file line value).CheckReturns s →
        lost' = lost) := by
  rcases checkExpected_cases functionName parameterName file line value s with
    ⟨-, hf⟩ | ⟨r, hg, ⟨hno, hf⟩ | ⟨check, hv, hz, ⟨-, s', he, hi⟩ | ⟨-, hf⟩⟩⟩
  · exact ⟨lost, hf.final.accounts h, fun _ => rfl⟩
  · refine ⟨lost, hf.final.accounts (h.checked [] hg rfl rfl rfl rfl (List.append_nil _).symm rfl ?_
      fun _ => .inl), fun _ => rfl⟩
    rcases hno with hno | hno <;> simp [lastUse, hno]
  · have hcall := h.call (found_mem hg hv) value (.returned true)
    rw [he]
    refine ⟨lost, hi.accounts (hcall.checked _ hg rfl rfl rfl rfl (List.append_cons _ _ _) ?_ rfl
      fun _ => .inl), fun _ => rfl⟩
    by_cases h1 : r.returnValue = 1
    · simp [lastUse, h1, hv, Event.ledger?]
    · simp [lastUse, h1, Event.ledger?]
  · have hcall := h.call (found_mem hg hv) value (check.outcome value)
    cases hret : (check.outcome value).returns with
    | true =>
        refine ⟨lost, hf.final.accounts (hcall.checked _ hg rfl rfl rfl rfl (List.append_cons _ _ _)
          ?_ rfl fun _ => .inl), fun _ => rfl⟩
        by_cases h1 : r.returnValue = 1
        · simp [lastUse, h1, hv, hret, Event.ledger?]
        · simp [lastUse, h1]
    | false =>
        -- the event is in no map any more and is not released
        refine ⟨(lastUse r).map CheckParameterEvent.ptr + lost,
          hf.final.accounts (hcall.checked [] hg rfl rfl rfl rfl (List.append_cons _ _ _) ?_ (by simp)
            fun p hp => ?_), fun hall => ?_⟩
        · simp [hret]
        · rw [Multiset.mem_add] at hp
          refine hp.symm.imp_right fun hp => ?_
          have hp : p = check.ptr := by
            rw [lastUse, hv] at hp
            split at hp
            · simpa using hp
            · simp at hp
          rw [hp]
          exact h.abandoned_call check.ptr value hret
        · have hpassed : (Op.checkExpected functionName parameterName file line value).passed s =
              some (check, value) := by
            obtain ⟨c, o, list, printed⟩ := r
            cases hv
            simpa [Op.passed, hg] using hz
          cases (hall check value hpassed).symm.trans hret

/-- **One call** keeps the account; an event is lost only if its check function does not come
back. -/
theorem accounts_op {op : Op} (hop : op.onMaps = true) (hm : op.mismatches s = false)
    (h : Accounts s₀ lost s) :
    ∃ lost', Accounts s₀ lost' (final (op.exec s)) ∧ (op.CheckReturns s → lost' = lost) := by
  cases op with
  | willReturn f file line name value count =>
      exact ⟨lost, accounts_willReturn f file line name value count h, fun _ => rfl⟩
  | mock f file line name =>
      refine ⟨lost, ?_, fun _ => rfl⟩
      rw [Op.exec, final_discard]
      exact accounts_mock f file line name hm h
  | expectCheck f p file line check data count =>
      exact ⟨lost, accounts_expectCheck f p file line check data count h, fun _ => rfl⟩
  | checkExpected f p file line value => exact accounts_checkExpected f p file line value h
  | _ => cases hop

end Calls

/-! ### The calls of a callback -/

/-- The calls `ops`, made from `start`, get to the call `op` in state `s`. -/
def Reaches (ops : List Op) (start : Globals) (op : Op) (s : Globals) : Prop :=
  ∃ done rest, ops = done ++ op :: rest ∧ execOps done start = .ok () s

theorem Reaches.cons {op op' : Op} {ops : List Op} {s s₁ s₂ : Globals}
    (he : op.exec s = .ok () s₁) (h : Reaches ops s₁ op' s₂) : Reaches (op :: ops) s op' s₂ := by
  obtain ⟨done, rest, rfl, hd⟩ := h
  exact ⟨op :: done, rest, rfl, (bind_of_ok he _).trans hd⟩

theorem Reaches.of_prefix {done ops : List Op} {op : Op} {start s : Globals}
    (hd : done <+: ops) (h : Reaches done start op s) : Reaches ops start op s := by
  obtain ⟨rest, rfl⟩ := hd
  obtain ⟨done', rest', rfl, he⟩ := h
  exact ⟨done', rest' ++ rest, by simp, he⟩

/-- **A run of calls** keeps the account. -/
theorem accounts_execOps {s₀ s : Globals} {lost : Multiset ℕ} {ops : List Op}
    (hops : ∀ op ∈ ops, op.onMaps = true)
    (hm : ∀ op s₁, Reaches ops s op s₁ → op.mismatches s₁ = false) (h : Accounts s₀ lost s) :
    ∃ lost', Accounts s₀ lost' (final (execOps ops s)) ∧
      ((∀ op s₁, Reaches ops s op s₁ → op.CheckReturns s₁) → lost' = lost) := by
  induction ops generalizing s lost with
  | nil => exact ⟨lost, h, fun _ => rfl⟩
  | cons op ops ih =>
      have hfirst : Reaches (op :: ops) s op s := ⟨[], ops, rfl, rfl⟩
      obtain ⟨lost₁, h₁, hl₁⟩ := accounts_op (hops op (by simp)) (hm op s hfirst) h
      cases he : op.exec s with
      | error e s₁ =>
          rw [execOps, bind_of_error he]
          rw [he] at h₁
          exact ⟨lost₁, h₁, fun hall => hl₁ (hall op s hfirst)⟩
      | ok u s₁ =>
          rw [he] at h₁
          obtain ⟨lost₂, h₂, hl₂⟩ := ih (fun op' hop' => hops op' (by simp [hop']))
            (fun op' s₂ hr => hm op' s₂ (hr.cons he)) h₁
          rw [execOps, bind_of_ok he]
          refine ⟨lost₂, h₂, fun hall => ?_⟩
          rw [hl₂ fun op' s₂ hr => hall op' s₂ (hr.cons he), hl₁ (hall op s hfirst)]

/-! ### The end of the test -/

section End

variable {s₀ s : Globals} {lost : Multiset ℕ}

theorem Accounts.dropOptionals (h : Accounts s₀ lost s) : Accounts s₀ lost s.dropOptionals := by
  have hr := values_remove h.results
  have hp := values_remove h.parameters
  refine h.release (removeAt_shape h.results) (removeAt_shape h.parameters) ?_ rfl rfl
    (filterMap_ledger_freed _) ?_ fun _ => .inl
  · simp [Globals.dropOptionals, h.calls, removeAlwaysReturnValuesFromList]
  · rw [Globals.held, hr, hp, Multiset.map_add, Multiset.map_add, Multiset.map_coe,
      Multiset.map_coe, ← Multiset.coe_add, ← Multiset.coe_add, h.calls]
    simp only [Globals.held, Globals.dropOptionals, removeAlwaysReturnValuesFromList,
      List.filter_nil, List.map_nil, Multiset.coe_nil]
    abel

theorem held_tearDown (s : Globals) : s.tearDown.held = 0 := by
  simp [Globals.held, Globals.tearDown, valuesOf]

theorem Accounts.tearDown (h : Accounts s₀ lost s) : Accounts s₀ lost s.tearDown := by
  refine h.release (shape_nil 1) (shape_nil 2) rfl rfl rfl (filterMap_ledger_freed _) ?_
    fun _ => .inl
  rw [held_tearDown, Globals.tornDown, h.calls, List.map_nil, List.append_nil, ← Multiset.coe_add,
    ← Multiset.map_coe, ← Multiset.map_coe, freed_eq_entries, freed_eq_entries, Globals.held]
  abel

end End

/-! ### A run of a callback -/

/-- The states at and between the calls of a callback, and those `has_leftover_values` leaves after
them. -/
inductive Moment (ops : List Op) (start : Globals) : Globals → Prop where
  | calls {done : List Op} (h : done <+: ops) : Moment ops start (final (execOps done start))
  | leftover {done : List Op} (h : done <+: ops) :
      Moment ops start (final (hasLeftoverValues (final (execOps done start))))

section Run

variable {functionName : CString} {testFunc setupFunc teardownFunc : Option UserFn} {f : UserFn}
  {kind : CallbackKind} {state : Addr} {heapCheckPoint : Option BlockNode} {s s' : Globals}
  {run : CallbackRun}

theorem accounts_atBody (s : Globals) (f : UserFn) (state : Addr)
    (heapCheckPoint : Option BlockNode) : Accounts s 0 (s.atBody f state heapCheckPoint) := by
  have hi := inert_takeCheckPoint heapCheckPoint s
  refine ⟨shape_nil 1, shape_nil 2, rfl, ⟨[_], congrArg (· ++ [_]) hi.trace_eq, ?_⟩,
    fun p hp => absurd hp (Multiset.notMem_zero p)⟩
  have hheld : (s.atBody f state heapCheckPoint).held = 0 := by
    simp [Globals.held, Globals.atBody, Globals.calling, Globals.entering, valuesOf]
  rw [hheld]
  exact owned_nil _

theorem accounts_moment {ops : List Op} (hops : ∀ op ∈ ops, op.onMaps = true) {start s₁ : Globals}
    (hm : ∀ op s₁, Reaches ops start op s₁ → op.mismatches s₁ = false)
    (h₀ : Accounts s 0 start) (h : Moment ops start s₁) : ∃ lost, Accounts s lost s₁ := by
  have hcalls : ∀ {done}, done <+: ops → ∃ lost, Accounts s lost (final (execOps done start)) := by
    intro done hd
    obtain ⟨lost, ha, -⟩ := accounts_execOps (fun op hop => hops op (hd.subset hop))
      (fun op s₂ hr => hm op s₂ (hr.of_prefix hd)) h₀
    exact ⟨lost, ha⟩
  cases h with
  | calls hd => exact hcalls hd
  | leftover hd =>
      obtain ⟨lost, ha⟩ := hcalls hd
      obtain ⟨s₂, he, hi⟩ := hasLeftoverValues_spec (final (execOps _ start))
      rw [he]
      exact ⟨lost, hi.accounts ha.dropOptionals⟩

/-- **At the end of the run** nothing is held, and nothing is lost if all check functions came
back. -/
theorem accounts_end (hcb : theCallback testFunc setupFunc teardownFunc = some (f, kind))
    (hops : ∀ op ∈ f.script.ops, op.onMaps = true)
    (hm : ∀ op s₁, Reaches f.script.ops (s.atBody f state heapCheckPoint) op s₁ →
      op.mismatches s₁ = false)
    (h : cmockaRunOneTestOrFixture functionName testFunc setupFunc teardownFunc state
      heapCheckPoint s = .ok run s') :
    ∃ lost, Accounts s lost s' ∧ s'.held = 0 ∧
      ((∀ op s₁, Reaches f.script.ops (s.atBody f state heapCheckPoint) op s₁ →
        op.CheckReturns s₁) → lost = 0) := by
  obtain ⟨lost, hbody, hlost⟩ := accounts_execOps hops hm
    (accounts_atBody s f state heapCheckPoint)
  obtain ⟨checkPoint, s₀, s₁, rc, ending, i, h₀, hj, -, rfl⟩ := runOne_callback hcb h
  rw [Globals.atBody, h₀] at hbody
  have hend : Accounts s lost s₁ := callback_keeps Inert.accounts
    (fun running skip stop ha => ha.withFlags running skip stop) Accounts.dropOptionals hbody hj
  have htorn := hend.tearDown
  refine ⟨lost, ?_, held_tearDown s₁, hlost⟩
  exact htorn.release htorn.results htorn.parameters htorn.calls rfl rfl List.map_nil.symm
    (by simp; rfl) fun _ => .inl

/-! ### Parameter checks -/

/-- The call is one on the parameter map. -/
def Op.isCheck : Op → Bool
  | .expectCheck .. | .checkExpected .. => true
  | _ => false

theorem Op.isCheck.onMaps {op : Op} (h : op.isCheck = true) :
    op.onMaps = true ∧ ∀ s, op.mismatches s = false := by
  cases op with
  | expectCheck => exact ⟨rfl, fun _ => rfl⟩
  | checkExpected => exact ⟨rfl, fun _ => rfl⟩
  | _ => cases h

/-- A check event is registered, or its check function is called. -/
def Event.isCheck : Event → Bool
  | .expectCheck .. | .checkCalled .. => true
  | _ => false

/-- What a call has to record of check events: the event it registers, with its count, or the call
of a check function with its outcome. -/
def Op.checks (s : Globals) : Op → List Event
  | .expectCheck function parameter _ _ _ _ count =>
      [.expectCheck s.nextPtr function parameter count]
  | op => (op.passed s).toList.map fun (check, value) =>
      .checkCalled check.ptr value (check.outcome value)

/-- What the calls `ops` have to record of check events, up to the first that fails. -/
def checksMade : List Op → Globals → List Event
  | [], _ => []
  | op :: ops, s => op.checks s ++
      match op.exec s with
      | .ok _ s₁ => checksMade ops s₁
      | .error _ _ => []

/-- What was recorded of check events since `s₀` is `made`. -/
def Recorded (s₀ : Globals) (made : List Event) (s : Globals) : Prop :=
  ∃ log, s.trace = s₀.trace ++ log ∧ log.filter Event.isCheck = made

theorem Recorded.append {s₀ s s' : Globals} {made events : List Event} (h : Recorded s₀ made s)
    (ht : s'.trace = s.trace ++ events) :
    Recorded s₀ (made ++ events.filter Event.isCheck) s' := by
  obtain ⟨log, hlog, rfl⟩ := h
  exact ⟨log ++ events, by rw [ht, hlog, List.append_assoc], List.filter_append _ _⟩

/-- What is no check event does not count. -/
theorem Recorded.skip {s₀ s s' : Globals} {made events : List Event} (h : Recorded s₀ made s)
    (ht : s'.trace = s.trace ++ events) (hnone : ∀ e ∈ events, e.isCheck = false) :
    Recorded s₀ made s' := by
  have happ := h.append ht
  rwa [List.filter_eq_nil_iff.mpr (by simpa using hnone), List.append_nil] at happ

theorem filter_freed_isCheck (ptrs : List Addr) :
    ∀ e ∈ ptrs.map Event.freed, e.isCheck = false := by
  intro e he
  obtain ⟨p, -, rfl⟩ := List.mem_map.mp he
  rfl

/-- A `_check_expected` records the call of the check function it makes. -/
theorem recorded_checkExpected (functionName parameterName file : CString) (line : Int)
    (value : CMockaValueData) {s₀ s : Globals} {made : List Event} (h : Recorded s₀ made s) :
    Recorded s₀ (made ++ (Op.checkExpected functionName parameterName file line value).checks s)
      (final (checkExpected functionName parameterName file line value s)) := by
  have hfails : ∀ {r : EStateM.Result Exit Globals Unit} {s₁ : Globals} {events : List Event},
      FailsFrom r s₁ → s₁.trace = s.trace ++ events →
      Recorded s₀ (made ++ events.filter Event.isCheck) (final r) := fun hf ht =>
    h.append (hf.final.trace_eq.trans ht)
  rcases checkExpected_cases functionName parameterName file line value s with
    ⟨hg, hf⟩ | ⟨r, hg, ⟨hno, hf⟩ | ⟨check, hv, hz, ⟨hc, s', he, hi⟩ | ⟨-, hf⟩⟩⟩
  · have hnone := hfails hf (List.append_nil _).symm
    simpa [Op.checks, Op.passed, hg] using hnone
  · have hnone := hfails hf (List.append_nil _).symm
    obtain ⟨c, o, list, printed⟩ := r
    rcases hno with rfl | rfl
    · simpa [Op.checks, Op.passed, hg] using hnone
    · cases o <;> simpa [Op.checks, Op.passed, hg] using hnone
  · obtain ⟨c, o, list, printed⟩ := r
    cases hv
    have hone := h.append hi.trace_eq
    rw [he]
    by_cases h1 : c = 1 <;>
      simpa [Op.checks, Op.passed, hg, hz, hc, h1, Event.isCheck, List.filter_cons] using hone
  · obtain ⟨c, o, list, printed⟩ := r
    cases hv
    have hone := hfails hf rfl
    by_cases h1 : (check.outcome value).returns = true ∧ c = 1 <;>
      simpa [Op.checks, Op.passed, hg, hz, h1, Event.isCheck, List.filter_cons] using hone

/-- **A run of calls** records the check events it registers and the check functions it calls. -/
theorem recorded_execOps {ops : List Op} (hops : ∀ op ∈ ops, op.isCheck = true) {s₀ s : Globals}
    {made : List Event} (h : Recorded s₀ made s) :
    Recorded s₀ (made ++ checksMade ops s) (final (execOps ops s)) := by
  induction ops generalizing s made with
  | nil => exact (List.append_nil made).symm ▸ h
  | cons op ops ih =>
      have hstep : Recorded s₀ (made ++ op.checks s) (final (op.exec s)) := by
        cases op with
        | expectCheck f p file line check data n =>
            have ht : (final ((Op.expectCheck f p file line check data n).exec s)).trace =
                s.trace ++ [.expectCheck s.nextPtr f p n] := rfl
            exact h.append ht
        | checkExpected f p file line value => exact recorded_checkExpected f p file line value h
        | _ => cases hops _ List.mem_cons_self
      rw [checksMade, ← List.append_assoc]
      cases he : op.exec s with
      | error e s₁ =>
          rw [execOps, bind_of_error he, List.append_nil]
          rwa [he] at hstep
      | ok u s₁ =>
          rw [execOps, bind_of_ok he]
          rw [he] at hstep
          exact ih (fun op' hop' => hops op' (List.mem_cons_of_mem op hop')) hstep

/-- **What the log of a run says of check events** is what the calls of the callback did. -/
theorem recorded_end (hcb : theCallback testFunc setupFunc teardownFunc = some (f, kind))
    (hops : ∀ op ∈ f.script.ops, op.isCheck = true)
    (h : cmockaRunOneTestOrFixture functionName testFunc setupFunc teardownFunc state
      heapCheckPoint s = .ok run s') :
    Recorded s (checksMade f.script.ops (s.atBody f state heapCheckPoint)) s' := by
  have hstart : Recorded s [] (s.atBody f state heapCheckPoint) :=
    ⟨[_], congrArg (· ++ [_]) (inert_takeCheckPoint heapCheckPoint s).trace_eq, rfl⟩
  have hbody := recorded_execOps hops hstart
  obtain ⟨checkPoint, s₀, s₁, rc, ending, i, h₀, hj, -, rfl⟩ := runOne_callback hcb h
  rw [List.nil_append, Globals.atBody, h₀] at hbody
  have hend := callback_keeps (I := Recorded s _)
    (fun hi hr => hr.skip (hi.trace_eq.trans (List.append_nil _).symm) (by simp))
    (fun _ _ _ hr => hr) (fun hr => hr.skip rfl (filter_freed_isCheck _)) hbody hj
  have htorn : Recorded s _ s₁.tearDown := hend.skip rfl (filter_freed_isCheck _)
  rw [Globals.atBody, h₀]
  exact htorn.skip rfl (by simp [Event.isCheck])

/-- No check function is called with an event that was released. -/
theorem Accounts.called_in_time {s₀ s : Globals} {lost : Multiset ℕ} (h : Accounts s₀ lost s)
    {before after : List Event} {p : Addr} {value : CMockaValueData} {outcome : CheckOutcome}
    (hlog : s₀.logSince s = before ++ .checkCalled p value outcome :: after) :
    .freed p ∉ before := by
  obtain ⟨log, ht, ho⟩ := h.owned
  rw [logSince_of_append ht] at hlog
  subst hlog
  rw [← mem_ledger_released]
  exact ho.inTime _ _ _ (List.filterMap_append ..) p rfl

/-- What was lost is an event whose check function did not come back. -/
theorem Accounts.nothing_lost {s₀ s : Globals} {lost : Multiset ℕ} (h : Accounts s₀ lost s)
    (hall : ∀ p value outcome, .checkCalled p value outcome ∈ s₀.logSince s →
      outcome.returns = true) : lost = 0 := by
  refine Multiset.eq_zero_of_forall_notMem fun p hp => ?_
  obtain ⟨value, outcome, hmem, hout⟩ := h.abandoned p hp
  cases hout.symm.trans (hall p value outcome hmem)

/-- **Ownership of check events.**  In a run of a callback whose calls are `_expect_check` and
`_check_expected`, however it ends: no event is released twice, no check function is called with an
event that was released before, none is in the parameter map after its release, and if every check
function that was called came back, each event has been released exactly once when the run is over.
What the log says of registrations and check functions is what the calls did. -/
theorem check_events_owned
    (hcb : theCallback testFunc setupFunc teardownFunc = some (f, kind))
    (hops : ∀ op ∈ f.script.ops, op.isCheck = true)
    (h : cmockaRunOneTestOrFixture functionName testFunc setupFunc teardownFunc state
      heapCheckPoint s = .ok run s') :
    (s.logSince s').filter Event.isCheck =
      checksMade f.script.ops (s.atBody f state heapCheckPoint) ∧
    (∀ p, (s.logSince s').count (.freed p) ≤ 1) ∧
    (∀ before p value outcome after,
      s.logSince s' = before ++ .checkCalled p value outcome :: after → .freed p ∉ before) ∧
    (∀ s₁, Moment f.script.ops (s.atBody f state heapCheckPoint) s₁ ∨ s₁ = s' →
      ∀ e ∈ entries 2 s₁.globalFunctionParameterMap, .freed e.1.ptr ∉ s.logSince s₁) ∧
    ((∀ p value outcome, .checkCalled p value outcome ∈ s.logSince s' →
        outcome.returns = true) →
      ∀ p function parameter n, .expectCheck p function parameter n ∈ s.logSince s' →
        (s.logSince s').count (.freed p) = 1) := by
  have hmaps : ∀ op ∈ f.script.ops, op.onMaps = true := fun op hop =>
    (Op.isCheck.onMaps (hops op hop)).1
  have hm : ∀ op s₁, Reaches f.script.ops (s.atBody f state heapCheckPoint) op s₁ →
      op.mismatches s₁ = false := by
    rintro op s₁ ⟨done, rest, he, -⟩
    exact (Op.isCheck.onMaps (hops op (by simp [he]))).2 s₁
  have hstart := accounts_atBody s f state heapCheckPoint
  obtain ⟨lost, hend, hheld, -⟩ := accounts_end hcb hmaps hm h
  refine ⟨?_, hend.count_freed_le, fun before p value outcome after => hend.called_in_time, ?_, ?_⟩
  · obtain ⟨log, ht, hlog⟩ := recorded_end hcb hops h
    rwa [logSince_of_append ht]
  · rintro s₁ (hs₁ | rfl) e he
    · obtain ⟨lost₁, h₁⟩ := accounts_moment hmaps hm hstart hs₁
      exact h₁.not_freed_parameter he
    · exact hend.not_freed_parameter he
  · intro hall p function parameter n hmem
    obtain rfl := hend.nothing_lost hall
    exact hend.count_freed hheld hmem rfl

/-- A parameter expected once and checked. -/
def checkingTest : UserFn where
  addr := 0x401000
  script :=
    { ops :=
        [.expectCheck "f".toList "x".toList "t.c".toList 1 (fun _ _ => ([], .returned true)) 5 1,
          .checkExpected "f".toList "x".toList "t.c".toList 2 5]
      ending := .ret 0 }

/-- The event of `checkingTest` is passed to its check function, and released once. -/
theorem checkingTest_released :
    ∃ run s', cmockaRunOneTestOrFixture "test".toList (some checkingTest) none none 0 none
        (Globals.initial .lp64) = .ok run s' ∧
      .checkCalled 1 5 (.returned true) ∈ (Globals.initial .lp64).logSince s' ∧
      ((Globals.initial .lp64).logSince s').count (.freed 1) = 1 := by
  obtain ⟨run, h⟩ := eq_ok_of_isSome (r := cmockaRunOneTestOrFixture "test".toList
    (some checkingTest) none none 0 none (Globals.initial .lp64)) (by decide +kernel)
  obtain ⟨hmade, -, -, -, hreleased⟩ := check_events_owned rfl (by decide) h
  have hchecks : checksMade checkingTest.script.ops ((Globals.initial .lp64).atBody checkingTest 0
      none) = [.expectCheck 1 "f".toList "x".toList 1, .checkCalled 1 5 (.returned true)] := by
    decide +kernel
  rw [hchecks] at hmade
  have hmem : ∀ {e}, e ∈ (Globals.initial .lp64).logSince (final (cmockaRunOneTestOrFixture
      "test".toList (some checkingTest) none none 0 none (Globals.initial .lp64))) ∧
      e.isCheck = true ↔
      e ∈ [Event.expectCheck 1 "f".toList "x".toList 1, .checkCalled 1 5 (.returned true)] := by
    intro e
    rw [← hmade, List.mem_filter]
  refine ⟨run, _, h, (hmem.mpr (by simp)).1, hreleased ?_ 1 "f".toList "x".toList 1
    (hmem.mpr (by simp)).1⟩
  intro p value outcome hcalled
  have hone := hmem.mp ⟨hcalled, rfl⟩
  simp only [List.mem_cons, reduceCtorEq, Event.checkCalled.injEq, List.not_mem_nil, or_false,
    false_or] at hone
  rw [hone.2.2]
  rfl

/-! ### Return values -/

/-- The call is a `_mock`, or a `_will_return` with a count it accepts. -/
def Op.isReturn : Op → Bool
  | .willReturn _ _ _ _ _ count => count != 0
  | .mock .. => true
  | _ => false

theorem Op.isReturn.onMaps {op : Op} (h : op.isReturn = true) : op.onMaps = true := by
  cases op with
  | willReturn => rfl
  | mock => rfl
  | _ => cases h

theorem Op.isReturn.checkReturns {op : Op} (h : op.isReturn = true) (s : Globals) :
    op.CheckReturns s := by
  intro check value hp
  cases op with
  | willReturn => cases hp
  | mock => cases hp
  | _ => cases h

theorem execOps_concat {done : List Op} {op : Op} {start s : Globals}
    (h : execOps done start = .ok () s) :
    final (execOps (done ++ [op]) start) = final (op.exec s) := by
  induction done generalizing start with
  | nil =>
      cases h
      exact final_discard _ _
  | cons first done ih =>
      obtain ⟨_, s₁, h₁, h₂⟩ := bind_eq_ok.mp h
      rw [List.cons_append, execOps, bind_of_ok h₁]
      exact ih h₂

/-- **The mismatch branch releases a value that stays in the map**, unless it is at its last use. -/
theorem mismatches_dangling {op : Op} {s : Globals} (h : op.mismatches s = true) :
    ∃ e ∈ entries 1 (final (op.exec s)).globalFunctionResultMap,
      (final (op.exec s)).trace = s.trace ++ [.freed e.1.ptr] := by
  cases op with
  | mock function file line name =>
      rw [Op.exec, final_discard]
      simp only [Op.mismatches] at h
      split at h
      next c symbol list printed hg =>
        simp only [Bool.and_eq_true, bne_iff_ne, Bool.not_eq_true'] at h
        obtain ⟨⟨h0, h1⟩, hty⟩ := h
        -- the entry stays in the queue with a lower count
        obtain ⟨rest, -, hu⟩ := entries_get (d := 1) (by decide) ⟨[function], rfl⟩ hg rfl
        obtain ⟨c', hs⟩ : ∃ c', CountedQueue.spend c = some c' := by
          unfold CountedQueue.spend
          rw [if_neg h1]
          split <;> exact ⟨_, rfl⟩
        rcases mock_cases function file line name s with
          ⟨hn, -⟩ | ⟨r, hg', ⟨hno, -⟩ | ⟨v, hv, -, ⟨hty', -⟩ | ⟨-, hf⟩⟩⟩
        · cases hg.symm.trans hn
        · cases hg.symm.trans hg'
          exact absurd hno (by simp [h0])
        · cases hg.symm.trans hg'
          cases hv
          cases hty.symm.trans hty'
        · cases hg.symm.trans hg'
          cases hv
          obtain ⟨_, _, _, _, he⟩ := hf.final
          rw [he]
          exact ⟨(symbol, c'), by simp [hu, hs], rfl⟩
      next => cases h
  | _ => cases h

/-- **Ownership of return values.**  In a run of a callback whose calls are `_will_return` and
`_mock`, however it ends, no value is in the result map after its release and each value has been
released exactly once when the run is over, if and only if no `_mock` of the run finds a value of
another type that is not at its last use. -/
theorem return_values_owned_iff
    (hcb : theCallback testFunc setupFunc teardownFunc = some (f, kind))
    (hops : ∀ op ∈ f.script.ops, op.isReturn = true)
    (h : cmockaRunOneTestOrFixture functionName testFunc setupFunc teardownFunc state
      heapCheckPoint s = .ok run s') :
    ((∀ s₁, Moment f.script.ops (s.atBody f state heapCheckPoint) s₁ ∨ s₁ = s' →
        ∀ e ∈ entries 1 s₁.globalFunctionResultMap, .freed e.1.ptr ∉ s.logSince s₁) ∧
      ∀ p function n, .willReturn p function n ∈ s.logSince s' →
        (s.logSince s').count (.freed p) = 1) ↔
    ∀ op s₁, Reaches f.script.ops (s.atBody f state heapCheckPoint) op s₁ →
      op.mismatches s₁ = false := by
  have hmaps : ∀ op ∈ f.script.ops, op.onMaps = true := fun op hop =>
    Op.isReturn.onMaps (hops op hop)
  have hstart := accounts_atBody s f state heapCheckPoint
  constructor
  · rintro ⟨hdangling, -⟩ op s₁ ⟨done, rest, he, hd⟩
    by_contra hmis
    obtain ⟨e, hmem, ht⟩ := mismatches_dangling (Bool.eq_true_of_not_eq_false hmis)
    rw [← execOps_concat hd] at hmem ht
    refine hdangling _ (.inl (.calls ⟨rest, by simp [he]⟩)) e hmem ?_
    -- the trace only grew up to here
    obtain ⟨calls, hcalls, -⟩ := ((keeps_execOps done).ok hd).trace
    obtain ⟨log, hlog, -⟩ := hstart.owned
    rw [hcalls, hlog, List.append_assoc, List.append_assoc] at ht
    rw [logSince_of_append ht]
    simp
  · intro hm
    obtain ⟨lost, hend, hheld, hlost⟩ := accounts_end hcb hmaps hm h
    obtain rfl := hlost fun op s₁ hr => by
      obtain ⟨done, rest, he, -⟩ := hr
      exact Op.isReturn.checkReturns (hops op (by simp [he])) s₁
    refine ⟨?_, fun p function n hmem => hend.count_freed hheld hmem rfl⟩
    rintro s₁ (hs₁ | rfl) e he
    · obtain ⟨lost₁, h₁⟩ := accounts_moment hmaps hm hstart hs₁
      exact h₁.not_freed_result he
    · exact hend.not_freed_result he

/-- Two values of a type, of which `requested` is asked for. -/
def returningTest (requested : CString) : UserFn where
  addr := 0x401000
  script :=
    { ops :=
        [.willReturn "f".toList "t.c".toList 1 (some "int".toList) 5 2,
          .mock "f".toList "t.c".toList 2 (some requested)]
      ending := .ret 0 }

/-- Asked for by its type, the value is released once. -/
theorem returningTest_released :
    ∃ run s', cmockaRunOneTestOrFixture "test".toList (some (returningTest "int".toList)) none none
        0 none (Globals.initial .lp64) = .ok run s' ∧
      ((Globals.initial .lp64).logSince s').count (.freed 1) = 1 := by
  obtain ⟨run, h⟩ := eq_ok_of_isSome (r := cmockaRunOneTestOrFixture "test".toList
    (some (returningTest "int".toList)) none none 0 none (Globals.initial .lp64))
    (by decide +kernel)
  refine ⟨run, _, h, ((return_values_owned_iff rfl (by decide) h).mpr ?_).2 1 "f".toList 2
    (by decide +kernel)⟩
  rintro op s₁ ⟨done, rest, he, hd⟩
  match done, he with
  | [], he =>
      cases he
      rfl
  | [_], he =>
      cases he
      cases hd
      decide +kernel
  | [_, _], he => cases he
  | _ :: _ :: _ :: _, he => cases he

/-- Asked for by another type, the value is released by `_mock` while it is in the map, and once
more by `teardown_testing`. -/
theorem returningTest_released_twice :
    ∃ run s', cmockaRunOneTestOrFixture "test".toList (some (returningTest "char *".toList)) none
        none 0 none (Globals.initial .lp64) = .ok run s' ∧
      .willReturn 1 "f".toList 2 ∈ (Globals.initial .lp64).logSince s' ∧
      ((Globals.initial .lp64).logSince s').count (.freed 1) = 2 := by
  obtain ⟨run, h⟩ := eq_ok_of_isSome (r := cmockaRunOneTestOrFixture "test".toList
    (some (returningTest "char *".toList)) none none 0 none (Globals.initial .lp64))
    (by decide +kernel)
  exact ⟨run, _, h, by decide +kernel, by decide +kernel⟩

end Run

end Cmocka
