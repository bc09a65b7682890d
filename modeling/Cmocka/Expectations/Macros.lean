import Cmocka.Model.Macros
import Cmocka.Expectations.Streams

/-!
# Expectations — storing and retrieving macros

A value that is alone in its queue is given out as often as its count allows (`runTimes_ok`), unless
`_mock` is asked for a type name and the value was stored without one or with another.  Of the pairs
the documentation names, this happens to the pointer macros that do not take a type
(`documented_pair_works_iff`): `mock_ptr_type` always asks for its type, and only
`will_return_ptr_type` stores one.
-/

namespace Cmocka

open SymbolMap CountedQueue Runs

variable {function : CString} {s : Globals} {stored name : Option CString}
  {value : CMockaValueData} {c : Int} {q : List ((Option CString × CMockaValueData) × Int)}

/-! ### One call -/

/-- `_mock` with a value at the front of the queue. -/
theorem mock_front (hs : Shape 1 s.globalFunctionResultMap)
    (hq : s.valueQueues function = ((stored, value), c) :: q) (hc : c ≠ 0) (file : CString)
    (line : Int) (name : Option CString) :
    ((name = none ∨ stored = name) ∧ ∃ s', mock function file line name s = .ok value s' ∧
      Shape 1 s'.globalFunctionResultMap ∧ s'.valueQueues = s.valueQueues.take function) ∨
    (¬(name = none ∨ stored = name) ∧ ∀ v s', mock function file line name s ≠ .ok v s') := by
  have hcases := mock_cases function file line name s
  rcases queuesOf_get valueView le_rfl functionPath_injective function hs with
    ⟨hempty, -⟩ | ⟨v, c', q', list', hg, hs', hfront, htake⟩
  · rw [Globals.valueQueues, hempty] at hq
    cases hq
  · change getSymbolValue [function] _ = _ at hg
    rw [Globals.valueQueues, hfront] at hq
    cases hq
    rcases hcases with ⟨hn, -⟩ | ⟨r, hr, ⟨hr', -⟩ | ⟨v', hv', -, hm⟩⟩
    · cases hg.symm.trans hn
    · cases hg.symm.trans hr
      simp [hc] at hr'
    · cases hg.symm.trans hr
      cases hv'
      rcases hm with ⟨hm, s', he, hinert⟩ | ⟨hm, hf⟩
      · obtain ⟨_, _, _, _, rfl⟩ := hinert
        exact .inl ⟨typeMatches_iff.mp hm, _, he, hs', htake⟩
      · refine .inr ⟨?_, hf.not_ok⟩
        intro hname
        have hmatch := typeMatches_iff.mpr hname
        rw [hm] at hmatch
        cases hmatch

/-! ### As many calls as the count allows -/

/-- A value with this count can be retrieved `n` times. -/
def Allows (count : Int) (n : Nat) : Prop := count < 0 ∨ (n : Int) ≤ count

theorem Allows.spend {n : Nat} (hc : c ≠ 0) (h : Allows c (n + 1)) :
    (c = 1 ∧ n = 0) ∨ ∃ c', spend c = some c' ∧ c' ≠ 0 ∧ Allows c' n := by
  unfold Allows at h
  by_cases h1 : c = 1
  · exact .inl ⟨h1, by omega⟩
  · refine .inr ?_
    by_cases h2 : -2 < c
    · refine ⟨c - 1, by rw [CountedQueue.spend, if_neg h1, if_pos h2], by omega, ?_⟩
      unfold Allows
      omega
    · refine ⟨c, by rw [CountedQueue.spend, if_neg h1, if_neg h2], hc, ?_⟩
      unfold Allows
      omega

/-- **A value alone in its queue is given out as often as its count allows.** -/
theorem runTimes_ok (retrieve : RetrieveMacro) (file : CString) (line : Int)
    (hname : retrieve.name = none ∨ stored = retrieve.name) {n : Nat}
    (hs : Shape 1 s.globalFunctionResultMap)
    (hq : s.valueQueues function = [((stored, value), c)]) (hc : c ≠ 0) (hn : Allows c n) :
    ∃ s', retrieve.runTimes function file line n s = .ok (List.replicate n value) s' := by
  induction n generalizing s c with
  | zero => exact ⟨s, rfl⟩
  | succ n ih =>
      rcases mock_front hs hq hc file line retrieve.name with
        ⟨-, s₁, hmock, hs₁, hq₁⟩ | ⟨hno, -⟩
      · have hqueue : s₁.valueQueues function = pop [((stored, value), c)] := by
          rw [hq₁, Table.take_self, hq]
        rcases hn.spend hc with ⟨rfl, rfl⟩ | ⟨c', hspend, hc', hn'⟩
        · exact ⟨s₁, bind_of_ok hmock _⟩
        · have hpop : pop [((stored, value), c)] = [((stored, value), c')] := by
            rw [pop, hspend]
            rfl
          obtain ⟨s₂, hrest⟩ := ih hs₁ (hqueue.trans hpop) hc' hn'
          refine ⟨s₂, ?_⟩
          rw [RetrieveMacro.runTimes, RetrieveMacro.run, bind_of_ok hmock, bind_of_ok hrest]
          rfl
      · exact absurd hname hno

/-! ### The documented pairs -/

/-- The macros that store a pointer without a type name. -/
def StoreMacro.untypedPtr : StoreMacro → Bool
  | .willReturnPtr | .willReturnPtrCount _ | .willReturnPtrAlways | .willReturnPtrMaybe => true
  | _ => false

/-- The type names of a documented pair agree, except for untyped pointers. -/
theorem Documented.names_iff {store : StoreMacro} {retrieve : RetrieveMacro}
    (h : Documented store retrieve) :
    (retrieve.name = none ∨ store.name = retrieve.name) ↔ store.untypedPtr = false := by
  cases h <;> simp [StoreMacro.name, RetrieveMacro.name, StoreMacro.untypedPtr]

/-- What is stored when the queue of the function is empty. -/
theorem store_ok (store : StoreMacro) (hcount : store.count ≠ 0)
    (hs : Shape 1 s.globalFunctionResultMap) (hq : s.valueQueues function = []) (file : CString)
    (line : Int) (value : CMockaValueData) :
    ∃ s₁, store.run function file line value s = .ok () s₁ ∧ Shape 1 s₁.globalFunctionResultMap ∧
      s₁.valueQueues function = [((store.name, value), store.count)] := by
  rcases willReturn_cases function file line store.name value store.count s with
    ⟨-, h⟩ | ⟨hzero, -⟩
  · refine ⟨_, h, shape_add le_rfl (functionPath function) _ _ hs, ?_⟩
    have hadd := queuesOf_add valueView le_rfl functionPath_injective function
      (returnValueOf s file line store.name value) store.count s.globalFunctionResultMap
    refine (congrFun hadd function).trans ?_
    rw [Table.push_self]
    change s.valueQueues function ++ _ = _
    rw [hq]
    rfl
  · exact absurd hzero hcount

/-- **A documented pair works exactly when it is not an untyped pointer.** -/
theorem documented_pair_works_iff (store : StoreMacro) (retrieve : RetrieveMacro)
    (hdocumented : Documented store retrieve) (hcount : store.count ≠ 0) (s : Globals)
    (function : CString) (hs : Shape 1 s.globalFunctionResultMap)
    (hempty : s.valueQueues function = []) (value : CMockaValueData) (file : CString) (line : Int)
    (file' : CString) (line' : Int) :
    (∀ n, Allows store.count n → ∃ s', (do
        store.run function file line value
        retrieve.runTimes function file' line' n) s = .ok (List.replicate n value) s') ↔
      store.untypedPtr = false := by
  obtain ⟨s₁, hstore, hs₁, hq₁⟩ := store_ok store hcount hs hempty file line value
  rw [← hdocumented.names_iff]
  constructor
  · intro h
    have hone : Allows store.count 1 := by
      unfold Allows
      omega
    obtain ⟨s', hrun⟩ := h 1 hone
    rw [bind_of_ok hstore] at hrun
    obtain ⟨v, s₂, hmock, -⟩ := bind_eq_ok.mp hrun
    rcases mock_front hs₁ hq₁ hcount file' line' retrieve.name with ⟨hname, -⟩ | ⟨-, hfails⟩
    · exact hname
    · exact absurd hmock (hfails v s₂)
  · intro hname n hn
    obtain ⟨s', hrun⟩ := runTimes_ok retrieve file' line' hname hs₁ hq₁ hcount hn
    exact ⟨s', by rw [bind_of_ok hstore, hrun]⟩

/-- A typed pointer, stored and retrieved. -/
theorem typed_pointer_retrieved :
    ∃ s', (do
      (StoreMacro.willReturnPtrType "char *".toList).run "f".toList "t.c".toList 1 0x1000
      (RetrieveMacro.mockPtrType "char *".toList).runTimes "f".toList "t.c".toList 2 1)
        (Globals.initial .lp64) = .ok [0x1000] s' :=
  (documented_pair_works_iff (.willReturnPtrType "char *".toList) (.mockPtrType "char *".toList)
    (.ptrType _) (by decide) (Globals.initial .lp64) "f".toList (shape_nil 1)
    (congrFun (queuesOf_nil valueView) "f".toList) 0x1000 "t.c".toList 1 "t.c".toList
    2).mpr rfl 1 (.inr (by decide))

/-- A pointer stored by `will_return_ptr` cannot be retrieved. -/
theorem untyped_pointer_refused :
    ¬∃ s', (do
      StoreMacro.willReturnPtr.run "f".toList "t.c".toList 1 0x1000
      (RetrieveMacro.mockPtrType "char *".toList).runTimes "f".toList "t.c".toList 2 1)
        (Globals.initial .lp64) = .ok [0x1000] s' := by
  have hrefused : value (((do
      StoreMacro.willReturnPtr.run "f".toList "t.c".toList 1 0x1000
      (RetrieveMacro.mockPtrType "char *".toList).runTimes "f".toList "t.c".toList 2 1) :
        CM (List CMockaValueData)) (Globals.initial .lp64)) = none := by decide +kernel
  rintro ⟨s', h⟩
  rw [h] at hrefused
  cases hrefused

end Cmocka
