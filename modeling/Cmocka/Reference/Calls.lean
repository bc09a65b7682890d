import Cmocka.Reference.Bench
import Cmocka.Expectations.Streams
import Cmocka.Expectations.CallOrdering
import Cmocka.Runner.Blocks
import Cmocka.Runner.Formats

/-!
# Reference — the calls of a callback

A state holds a bench (`Globals.On`) if its maps are tables of the queued values and checks, its
call-ordering list has the expected calls, and its memory the live blocks.  Every call does to the
state what `Bench.step` does to the bench (`Op.exec_step`), and so do the calls of a callback
(`execOps_run`).
-/

namespace Cmocka

open Runs SymbolMap CountedQueue CallOrder

/-- The state holds what is on the bench. -/
structure Globals.On (s : Globals) (b : Bench) : Prop where
  results : Shape 1 s.globalFunctionResultMap
  parameters : Shape 2 s.globalFunctionParameterMap
  values : s.valueQueues = b.values.queues
  checks : s.checkQueues = b.checks.queues
  calls : s.callEntries = b.calls
  blocks : s.Has b.blocks
  state : s.stateCell = b.state

/-- The memory of the state is that of the bench. -/
structure Globals.Holding (s : Globals) (b : Bench) : Prop where
  blocks : s.Has b.blocks
  state : s.stateCell = b.state

section Calls

variable {p : Platform} {s s' : Globals} {b b' : Bench} {op : Op}

/-- The blocks are where they were. -/
theorem SameMemory.has (h : SameMemory s s') {t : BlockTable} (hs : s.Has t) : s'.Has t := by
  rw [Globals.Has, h.platform, h.heap]
  exact hs

theorem Globals.On.holding (h : s.On b) (hs : SameMemory s s') : s'.Holding b :=
  ⟨hs.has h.blocks, hs.state.trans h.state⟩

/-! ### Calls that return, and calls that fail -/

/-- What a call comes to, from a state that holds a bench. -/
def Obeys (p : Platform) (b : Bench) (op : Op) (s : Globals) : Prop :=
  (∃ b' s', b.step p op = some b' ∧ op.exec s = .ok () s' ∧ s'.On b') ∨
    b.step p op = none ∧ ∃ s', op.exec s = .error (s.exitOf .fail) s' ∧ s'.Holding b

/-- A call on the expectations leaves the memory alone. -/
theorem apart_op (h : op.isExpectation = true) : Apart op.exec := by
  cases op with
  | willReturn f file line name value count => exact apart_willReturn _ _ _ _ _ _
  | mock f file line name => exact (apart_mock _ _ _ _).bind fun _ => .pure _
  | expectCheck f q file line check data count => exact apart_expectCheck _ _ _ _ _ _ _
  | checkExpected f q file line value => exact apart_checkExpected _ _ _ _ _
  | expectFunctionCall f file line count => exact apart_expectFunctionCall _ _ _ _
  | functionCalled f file line => exact apart_functionCalled _ _ _
  | _ => cases h

/-- A call on the expectations that does not return. -/
theorem Obeys.fails (hop : op.isExpectation = true) (hon : s.On b) (hstep : b.step p op = none)
    (hno : ∀ s', op.exec s ≠ .ok () s') : Obeys p b op s := by
  refine .inr ⟨hstep, ?_⟩
  cases hrun : op.exec s with
  | ok u s' => exact absurd hrun (hno s')
  | error e s' =>
      obtain ⟨hsame, hdefined⟩ := (apart_op hop).error hrun
      have he := (Op.exec_error hrun).2.resolve_right hdefined
      exact ⟨s', by rw [he], hon.holding hsame⟩

/-- A call on the expectations that returns. -/
theorem Obeys.returns (hop : op.isExpectation = true) (hon : s.On b)
    (hstep : b.step p op = some b') (hrun : op.exec s = .ok () s')
    (hb : b'.blocks = b.blocks ∧ b'.state = b.state)
    (hr : Shape 1 s'.globalFunctionResultMap) (hq : Shape 2 s'.globalFunctionParameterMap)
    (hvalues : s'.valueQueues = b'.values.queues) (hchecks : s'.checkQueues = b'.checks.queues)
    (hcalls : s'.callEntries = b'.calls) : Obeys p b op s := by
  have hsame := (apart_op hop).ok hrun
  refine .inl ⟨b', s', hstep, hrun, hr, hq, hvalues, hchecks, hcalls, ?_, ?_⟩
  · rw [hb.1]
    exact hsame.has hon.blocks
  · rw [hb.2]
    exact hsame.state.trans hon.state

/-! ### Return values -/

/-- `_will_return` puts a value on the shelf. -/
theorem willReturn_obeys (functionName file : CString) (line : Int) (name : Option CString)
    (value : CMockaValueData) (count : Int) (hon : s.On b) :
    Obeys p b (.willReturn functionName file line name value count) s := by
  rcases willReturn_cases functionName file line name value count s with ⟨hc, he⟩ | ⟨hc, hf⟩
  · refine .returns rfl hon (if_neg hc) he ⟨rfl, rfl⟩
      (shape_add le_rfl (functionPath functionName) _ _ hon.results) hon.parameters ?_ hon.checks
      hon.calls
    rw [Shelf.queues_put, ← hon.values]
    exact queuesOf_add valueView le_rfl functionPath_injective functionName _ _ _
  · exact .fails rfl hon (if_pos hc) (hf.not_ok ())

/-- `_mock` takes the next value of its function. -/
theorem mock_obeys (function file : CString) (line : Int) (name : Option CString) (hon : s.On b) :
    Obeys p b (.mock function file line name) s := by
  have hqueue : b.values.queue function = s.valueQueues function :=
    (congrFun hon.values function).symm
  have hdiscard (hf : ∀ value s', mock function file line name s ≠ .ok value s') :
      ∀ s', (Op.mock function file line name).exec s ≠ .ok () s' := by
    intro s' h
    obtain ⟨value, s₁, h₁, -⟩ := bind_eq_ok.mp h
    exact hf value s₁ h₁
  have hcases := mock_cases function file line name s
  rcases queuesOf_get valueView le_rfl functionPath_injective function hon.results with
    ⟨hq, printed, hg⟩ | ⟨v, c, q, list', hg, hs, hq, ht⟩
  · change getSymbolValue [function] _ = _ at hg
    have hstep : b.step p (.mock function file line name) = none := by
      rw [Bench.step, hqueue, Globals.valueQueues, hq]
    refine .fails rfl hon hstep (hdiscard ?_)
    rcases hcases with ⟨-, hf⟩ | ⟨r, hr, ⟨-, hf⟩ | ⟨v, hv, -⟩⟩
    · exact hf.not_ok
    · exact hf.not_ok
    · cases hg.symm.trans hr
      cases hv
  · change getSymbolValue [function] _ = _ at hg
    have hstep : b.step p (.mock function file line name) =
        if c ≠ 0 ∧ (name = none ∨ v.name = name) then
          some { b with values := b.values.use function } else none := by
      rw [Bench.step, hqueue, Globals.valueQueues, hq]
      rfl
    rcases hcases with ⟨hn, -⟩ | ⟨r, hr, ⟨hr', hf⟩ | ⟨v', hv', hc, hm⟩⟩
    · cases hg.symm.trans hn
    · cases hg.symm.trans hr
      -- a count of `0` reads as no value
      have hc : c = 0 := by simpa using hr'
      exact .fails rfl hon (hstep.trans (if_neg fun h => h.1 hc)) (hdiscard hf.not_ok)
    · cases hg.symm.trans hr
      cases hv'
      rcases hm with ⟨hm, s', he, m, e, o, h, rfl⟩ | ⟨hm, hf⟩
      · refine .returns rfl hon (hstep.trans (if_pos ⟨hc, typeMatches_iff.mp hm⟩))
          (bind_of_ok he _) ⟨rfl, rfl⟩ hs hon.parameters ?_ hon.checks hon.calls
        rw [Shelf.queues_use, ← hon.values]
        exact ht
      · refine .fails rfl hon (hstep.trans (if_neg ?_)) (hdiscard hf.not_ok)
        rintro ⟨-, hname⟩
        rw [typeMatches_iff.mpr hname] at hm
        cases hm

/-! ### Parameter checks -/

/-- A check that accepts returns true. -/
theorem accepts_iff {outcome : CheckOutcome} :
    outcome.accepts = true ↔ outcome = .returned true := by
  cases outcome with
  | returned succeeded => simp [CheckOutcome.accepts]
  | failed file line => simp [CheckOutcome.accepts]

/-- `_expect_check` puts a check on the shelf. -/
theorem expectCheck_obeys (function parameter file : CString) (line : Int)
    (checkFunction : CheckParameterValue) (checkData : CMockaValueData) (count : Int)
    (hon : s.On b) :
    Obeys p b (.expectCheck function parameter file line checkFunction checkData count) s := by
  refine .returns rfl hon rfl (expectCheck_apply _ _ _ _ _ _ _ s) ⟨rfl, rfl⟩ hon.results
    (shape_add (by decide) (parameterPath (function, parameter)) _ _ hon.parameters) hon.values ?_
    hon.calls
  rw [Shelf.queues_put, ← hon.checks]
  exact queuesOf_add checkView (by decide) parameterPath_injective (function, parameter) _ _ _

/-- `_check_expected` takes the next check of its parameter. -/
theorem checkExpected_obeys (functionName parameterName file : CString) (line : Int)
    (value : CMockaValueData) (hon : s.On b) :
    Obeys p b (.checkExpected functionName parameterName file line value) s := by
  have hqueue : b.checks.queue (functionName, parameterName) =
      s.checkQueues (functionName, parameterName) := (congrFun hon.checks _).symm
  have hcases := checkExpected_cases functionName parameterName file line value s
  rcases queuesOf_get checkView (by decide) parameterPath_injective (functionName, parameterName)
    hon.parameters with ⟨hq, printed, hg⟩ | ⟨check, c, q, list', hg, hs, hq, ht⟩
  · change getSymbolValue [functionName, parameterName] _ = _ at hg
    have hstep : b.step p (.checkExpected functionName parameterName file line value) = none := by
      rw [Bench.step, hqueue, Globals.checkQueues, hq]
    refine .fails rfl hon hstep ?_
    rcases hcases with ⟨-, hf⟩ | ⟨r, hr, ⟨-, hf⟩ | ⟨v, hv, -⟩⟩
    · exact hf.not_ok ()
    · exact hf.not_ok ()
    · cases hg.symm.trans hr
      cases hv
  · change getSymbolValue [functionName, parameterName] _ = _ at hg
    have hstep : b.step p (.checkExpected functionName parameterName file line value) =
        if c ≠ 0 ∧ (check.outcome value).accepts then
          some { b with checks := b.checks.use (functionName, parameterName) } else none := by
      rw [Bench.step, hqueue, Globals.checkQueues, hq]
      rfl
    rcases hcases with ⟨hn, -⟩ | ⟨r, hr, ⟨hr', hf⟩ | ⟨check', hv', hc, hm⟩⟩
    · cases hg.symm.trans hn
    · cases hg.symm.trans hr
      have hc : c = 0 := by simpa using hr'
      exact .fails rfl hon (hstep.trans (if_neg fun h => h.1 hc)) (hf.not_ok ())
    · cases hg.symm.trans hr
      cases hv'
      rcases hm with ⟨hm, s', he, m, e, o, h, rfl⟩ | ⟨hm, hf⟩
      · refine .returns rfl hon (hstep.trans (if_pos ⟨hc, accepts_iff.mpr hm⟩)) he ⟨rfl, rfl⟩
          hon.results hs hon.values ?_ hon.calls
        rw [Shelf.queues_use, ← hon.checks]
        exact ht
      · exact .fails rfl hon (hstep.trans (if_neg fun h => hm (accepts_iff.mp h.2))) (hf.not_ok ())

/-! ### Call ordering -/

/-- `_expect_function_call` adds to the expected calls. -/
theorem expectFunctionCall_obeys (functionName file : CString) (line : Int) (count : Int)
    (hon : s.On b) : Obeys p b (.expectFunctionCall functionName file line count) s := by
  rcases expectFunctionCall_cases functionName file line count s with ⟨hc, he⟩ | ⟨hc, hf⟩
  · refine .returns rfl hon (if_neg hc) he ⟨rfl, rfl⟩ hon.results hon.parameters hon.values
      hon.checks ?_
    exact (List.map_append ..).trans (congrArg (· ++ _) hon.calls)
  · exact .fails rfl hon (if_pos hc) (hf.not_ok ())

/-- `_function_called` is the call expected next, or an optional one before it. -/
theorem functionCalled_obeys (function file : CString) (line : Int) (hon : s.On b) :
    Obeys p b (.functionCalled function file line) s := by
  have hstep : b.step p (.functionCalled function file line) =
      (charge function s.callEntries).map fun calls => { b with calls } := by
    rw [hon.calls]
    rfl
  rcases functionCalled_cases function file line s with
    ⟨hscan, hf⟩ | ⟨before, expected, refcount, after, hscan, ⟨hname, released, he⟩ | ⟨hname, hf⟩⟩
  · refine .fails rfl hon (hstep.trans ?_) (hf.not_ok ())
    rw [Globals.callEntries, charge_of_scan_none hscan]
    rfl
  · have hcharge := (charge_of_scan_some hscan).trans (if_pos hname)
    exact .returns rfl hon (hstep.trans (congrArg (Option.map _) hcharge)) he ⟨rfl, rfl⟩
      hon.results hon.parameters hon.values hon.checks rfl
  · refine .fails rfl hon (hstep.trans ?_) (hf.not_ok ())
    rw [Globals.callEntries, charge_of_scan_some hscan, if_neg hname]
    rfl

/-! ### Calls of the allocator -/

theorem toOp_of_alloc {a : AllocOp} (h : op.alloc? = some a) : op = a.toOp := by
  cases op <;> cases h <;> rfl

theorem step_of_alloc {a : AllocOp} (h : op.alloc? = some a) : b.step p op = b.alloc p a := by
  cases op <;> cases h <;> rfl

theorem BlockTable.alloc_none {t : BlockTable} {location : SourceLocation} {libc : Option Addr}
    {bytes : List (BitVec 8)} (h : (t.alloc p location libc bytes).1 = none) :
    (t.alloc p location libc bytes).2 = t := by
  cases libc with
  | none => rw [alloc_eq_none (.inr rfl)]
  | some block =>
      by_cases hfits : p.Fits bytes.length
      · rw [alloc_eq_some hfits] at h
        cases h
      · rw [alloc_eq_none (.inl hfits)]

/-- A call that does not answer leaves the table as it was. -/
theorem BlockTable.step_none {t : BlockTable} {a : AllocOp} (h : (t.step p a).1 = none) :
    (t.step p a).2 = t := by
  cases a with
  | malloc size file line libc => exact alloc_none h
  | calloc n size file line libc =>
      rw [BlockTable.step] at h ⊢
      split at h
      · cases h
      · rw [if_neg ‹_›]
        exact alloc_none h
  | realloc ptr size file line libc =>
      rw [BlockTable.step] at h ⊢
      split at h
      · rw [if_pos ‹_›]
        exact alloc_none h
      · rw [if_neg ‹_›]
        split at h
        · cases h
        · rw [if_neg ‹_›]
          split at h
          case h_1 heq => cases h
          case h_2 heq =>
            have hnone := alloc_none (congrArg Prod.fst heq)
            rwa [heq] at hnone
  | free ptr file line => cases h
  | write dst byte => cases h

/-- A valid call of the allocator does to the table what it does to the memory. -/
theorem alloc_obeys {a : AllocOp} (hop : op.alloc? = some a) (hp : s.platform.Sized)
    (hon : s.On b) (hallowed : b.Allows s.platform op) : Obeys s.platform b op s := by
  have hans := answers_exec hp hon.blocks (hallowed a hop)
  have hexec := toOp_exec a s
  rw [← toOp_of_alloc hop] at hexec
  have hstep := step_of_alloc (b := b) (p := s.platform) hop
  rcases htable : b.blocks.step s.platform a with ⟨- | answer, t'⟩
  · rw [htable] at hans
    rw [eq_error_of_outcome hans.outcome] at hexec
    have hsame : t' = b.blocks := by
      have hnone := BlockTable.step_none (congrArg Prod.fst htable)
      rwa [htable] at hnone
    refine .inr ⟨hstep.trans (by rw [Bench.alloc, htable]; rfl), _, hexec, ?_, ?_⟩
    · exact hsame ▸ hans.represents
    · exact hans.inert.stateCell_eq.trans hon.state
  · rw [htable] at hans
    rw [eq_ok_of_outcome hans.outcome] at hexec
    refine .inl ⟨{ b with blocks := t' }, _, hstep.trans (by rw [Bench.alloc, htable]; rfl), hexec,
      ?_⟩
    obtain ⟨m, e, o, h, hs⟩ := hans.inert
    have hrep := hans.represents
    rw [hs] at hrep ⊢
    exact ⟨hon.results, hon.parameters, hon.values, hon.checks, hon.calls, hrep, hon.state⟩

/-! ### All calls -/

/-- **Every call does what the bench says.** -/
theorem Op.exec_step (op : Op) (hp : s.platform.Sized) (hon : s.On b)
    (hallowed : b.Allows s.platform op) : Obeys s.platform b op s := by
  cases op with
  | willReturn f file line name value count => exact willReturn_obeys f file line name value count hon
  | mock f file line name => exact mock_obeys f file line name hon
  | expectCheck f q file line check data count =>
      exact expectCheck_obeys f q file line check data count hon
  | checkExpected f q file line value => exact checkExpected_obeys f q file line value hon
  | expectFunctionCall f file line count => exact expectFunctionCall_obeys f file line count hon
  | functionCalled f file line => exact functionCalled_obeys f file line hon
  | testMalloc size file line libc => exact alloc_obeys rfl hp hon hallowed
  | testCalloc n size file line libc => exact alloc_obeys rfl hp hon hallowed
  | testRealloc ptr size file line libc => exact alloc_obeys rfl hp hon hallowed
  | testFree ptr file line => exact alloc_obeys rfl hp hon hallowed
  | storeByte dst byte => exact alloc_obeys rfl hp hon hallowed
  | storeState state =>
      exact .inl ⟨{ b with state }, _, rfl, rfl, hon.results, hon.parameters, hon.values,
        hon.checks, hon.calls, hon.blocks, rfl⟩
  | printError text =>
      exact .inl ⟨b, _, rfl, rfl, hon.results, hon.parameters, hon.values, hon.checks, hon.calls,
        hon.blocks, hon.state⟩

/-- **The calls of a callback** do what the bench says, up to the first that fails. -/
theorem execOps_run {ops : List Op} (hp : s.platform.Sized) (hon : s.On b)
    (hallowed : b.AllowsAll s.platform ops) :
    ∃ s', (execOps ops s = if (b.run s.platform ops).1 then .ok () s'
        else .error (s.exitOf .fail) s') ∧ Quiet s s' ∧
      s'.Holding (b.run s.platform ops).2 ∧
      ((b.run s.platform ops).1 = true → s'.On (b.run s.platform ops).2) := by
  induction ops generalizing s b with
  | nil => exact ⟨s, rfl, refl_of Quiet s, ⟨hon.blocks, hon.state⟩, fun _ => hon⟩
  | cons op ops ih =>
      obtain ⟨hop, hrest⟩ := hallowed
      rw [Bench.run]
      rcases Op.exec_step op hp hon hop with ⟨b', s₁, hstep, hrun, hon₁⟩ | ⟨hstep, s₁, hrun, hholding⟩
      · have hquiet := (Op.exec_ok hrun).quiet
        obtain ⟨s', hexec, hquiet', hholding, hon'⟩ := ih (s := s₁) (b := b')
          (hquiet.platform ▸ hp) hon₁ (hquiet.platform ▸ hrest b' hstep)
        rw [hquiet.platform, hquiet.exitOf] at hexec
        rw [hquiet.platform] at hholding hon'
        rw [hstep]
        exact ⟨s', (bind_of_ok hrun _).trans hexec, trans_of Quiet hquiet hquiet', hholding, hon'⟩
      · rw [hstep]
        refine ⟨s₁, bind_of_error hrun _, (Op.exec_error hrun).1, hholding, fun h => ?_⟩
        cases h

end Calls

end Cmocka
