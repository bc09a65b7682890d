import Cmocka.Support.Shelf
import Cmocka.Support.CallOrder
import Cmocka.Runner.Protocol
import Cmocka.Alloc.Table

/-!
# Reference — the bench

What a test comes to, said without lists of nodes, headers, guards or jumps.  A callback works on a
`Bench`: the values and the checks queued under their names, the calls expected in order, the table
of live blocks and the cell behind `state`.  A call that fails ends the callback (`Bench.step`), and
`judge` says what the run of a callback comes to after the checks behind it.

`CMUnitTest.judge`, `Group.judge` and `judgeGroups` put callbacks together to tests, groups and processes.
All of it can be evaluated.
-/

namespace Cmocka

open CountedQueue CallOrder

/-! ### Calls -/

/-- The check function accepts the value. -/
def CheckOutcome.accepts : CheckOutcome → Bool
  | .returned succeeded => succeeded
  | .failed .. => false

/-- What the calls of a callback work on. -/
structure Bench where
  values : Shelf CString (Option CString × CMockaValueData)
  checks : Shelf (CString × CString) (CheckParameterValue × CMockaValueData)
  calls : List (CString × Int)
  blocks : BlockTable
  state : Addr

/-- Nothing is expected. -/
def Bench.fresh (blocks : BlockTable) (state : Addr) : Bench := ⟨[], [], [], blocks, state⟩

/-- A call of the allocator, or a store into its memory. -/
def Op.alloc? : Op → Option AllocOp
  | .testMalloc size file line libc => some (.malloc size file line libc)
  | .testCalloc n size file line libc => some (.calloc n size file line libc)
  | .testRealloc ptr size file line libc => some (.realloc ptr size file line libc)
  | .testFree ptr file line => some (.free ptr file line)
  | .storeByte dst byte => some (.write dst byte)
  | _ => none

namespace Bench

variable (p : Platform) (b : Bench)

/-- The bench after a call of the allocator that answers. -/
def alloc (op : AllocOp) : Option Bench :=
  (b.blocks.step p op).1.map fun _ => { b with blocks := (b.blocks.step p op).2 }

/-- The bench after a call that returns; nothing if the call ends the callback. -/
def step : Op → Option Bench
  | .willReturn functionName _ _ name value count =>
      if count = 0 then none
      else some { b with values := b.values.put functionName (name, value) count }
  | .mock function _ _ name =>
      match b.values.queue function with
      | [] => none
      | ((symbolName, _), c) :: _ =>
          if c ≠ 0 ∧ (name = none ∨ symbolName = name) then
            some { b with values := b.values.use function }
          else none
  | .expectCheck function parameter _ _ checkFunction checkData count =>
      some { b with
        checks := b.checks.put (function, parameter) (checkFunction, checkData) count }
  | .checkExpected functionName parameterName _ _ value =>
      match b.checks.queue (functionName, parameterName) with
      | [] => none
      | ((check, data), c) :: _ =>
          if c ≠ 0 ∧ (check value data).2.accepts then
            some { b with checks := b.checks.use (functionName, parameterName) }
          else none
  | .expectFunctionCall functionName _ _ count =>
      if count = 0 then none else some { b with calls := b.calls ++ [(functionName, count)] }
  | .functionCalled function _ _ => (charge function b.calls).map fun calls => { b with calls }
  | .testMalloc size file line libc => b.alloc p (.malloc size file line libc)
  | .testCalloc n size file line libc => b.alloc p (.calloc n size file line libc)
  | .testRealloc ptr size file line libc => b.alloc p (.realloc ptr size file line libc)
  | .testFree ptr file line => b.alloc p (.free ptr file line)
  | .storeByte dst byte => b.alloc p (.write dst byte)
  | .storeState state => some { b with state }
  | .printError _ => some b

/-- The calls in order, up to one that ends the callback, and whether there was none. -/
def run : Bench → List Op → Bool × Bench
  | b, [] => (true, b)
  | b, op :: ops =>
      match b.step p op with
      | some b' => run b' ops
      | none => (false, b)

/-- The calls a program may make. -/
def Allows (op : Op) : Prop := ∀ a, op.alloc? = some a → b.blocks.Allows p a

/-- Every call the callback gets to is allowed where it is made. -/
def AllowsAll : Bench → List Op → Prop
  | _, [] => True
  | b, op :: ops => b.Allows p op ∧ ∀ b', b.step p op = some b' → AllowsAll b' ops

/-- Whatever is left of the expectations is optional, and at most one entry of each queue. -/
def Settled : Prop := b.values.Settled ∧ b.checks.Settled ∧ ∀ e ∈ b.calls, e.2 < -1

instance : Decidable b.Settled := inferInstanceAs (Decidable (_ ∧ _ ∧ ∀ e ∈ b.calls, e.2 < -1))

end Bench

/-! ### Callbacks -/

/-- How the code of a callback is left: by a return, or by `exit_test`. -/
def ScriptEnd.left : ScriptEnd → Except Reason Int
  | .ret code => .ok code
  | .fail .. => .error .fail
  | .skip .. => .error .skip
  | .stop => .error .stop
  | .exception .. => .error .fail

/-- The code of a callback. -/
def Bench.play (p : Platform) (b : Bench) (script : Script) : Except Reason Int × Bench :=
  if (b.run p script.ops).1 then (script.ending.left, (b.run p script.ops).2)
  else (.error .fail, (b.run p script.ops).2)

/-- Some block was allocated since `since`. -/
def BlockTable.leaked (since t : BlockTable) : Bool :=
  t.live.any fun b => since.nextSerial ≤ b.serial

/-- The table without the blocks allocated since `since`. -/
def BlockTable.release (since t : BlockTable) : BlockTable :=
  { t with live := t.live.filter fun b => b.serial < since.nextSerial }

/-- The block that was last at `since` is still there. -/
def BlockTable.Keeps (since t : BlockTable) : Prop :=
  ∀ b, since.live.getLast? = some b → ∃ c ∈ t.live, c.serial = b.serial

instance (since t : BlockTable) : Decidable (since.Keeps t) :=
  inferInstanceAs (Decidable (∀ b ∈ since.live.getLast?, ∃ c ∈ t.live, c.serial = b.serial))

/-- What a run of a callback comes to: how it ended, `rc`, and what is left. -/
structure Judged where
  ending : Ending
  rc : Int
  state : Addr
  blocks : BlockTable

/-- The callback ended by `skip()`. -/
def Judged.skipped (j : Judged) : Bool := j.ending.skipped

/-- **A callback.**  Behind a return, a test and a teardown look for blocks allocated since the check
point, and every callback for expectations that are not met; after `stop()` only the latter. -/
def judge (p : Platform) (since : BlockTable) (kind : CallbackKind) (script : Script) (b : Bench) :
    Judged :=
  let left := (b.play p script).2
  match (b.play p script).1 with
  | .ok code =>
      if kind ≠ .setup ∧ since.leaked left.blocks then
        ⟨.jumped .fail, -1, left.state, since.release left.blocks⟩
      else if left.Settled then
        let rc := if kind = .test then 0 else code
        ⟨.returned rc, rc, left.state, left.blocks⟩
      else ⟨.jumped .fail, -1, left.state, left.blocks⟩
  | .error reason =>
      ⟨.jumped reason, if reason = .stop ∧ left.Settled then 0 else -1, left.state, left.blocks⟩

/-- The calls of the callback are allowed, and it does not give back the check point's block before
the search for blocks. -/
structure AllowsCallback (p : Platform) (since : BlockTable) (kind : CallbackKind) (script : Script)
    (b : Bench) : Prop where
  calls : b.AllowsAll p script.ops
  kept : kind ≠ .setup → ∀ code, (b.play p script).1 = .ok code →
    since.Keeps (b.play p script).2.blocks

/-- A callback that may be missing. -/
def judgeOptional (p : Platform) (since : BlockTable) (kind : CallbackKind) (f : Option UserFn)
    (state : Addr) (blocks : BlockTable) : Judged :=
  f.elim ⟨.returned 0, 0, state, blocks⟩ fun f => judge p since kind f.script (.fresh blocks state)

/-- The record of a callback. -/
def Judged.invocation (j : Judged) (kind : CallbackKind) (f : Option UserFn) (state : Addr) :
    Option Invocation :=
  f.map fun f => { fn := f.addr, kind, received := state, left := j.state, ending := j.ending
                   rc := j.rc }

@[inherit_doc AllowsCallback]
def AllowsOptional (p : Platform) (since : BlockTable) (kind : CallbackKind) (f : Option UserFn)
    (state : Addr) (blocks : BlockTable) : Prop :=
  ∀ g, f = some g → AllowsCallback p since kind g.script (.fresh blocks state)

/-! ### Tests -/

/-- What the run of a test comes to: its record, the `rc` of `cmocka_run_one_tests`, and what is
left: the blocks, and whether a `skip()` is still to be answered. -/
structure JudgedTest where
  record : TestRecord
  rc : Int
  blocks : BlockTable
  skip : Bool

namespace CMUnitTest

variable (p : Platform) (t : CMUnitTest) (state : Addr) (blocks : BlockTable)

/-- The setup of a test. -/
def judgeSetup : Judged := judgeOptional p blocks .setup t.setupFunc state blocks

/-- The test function, after the setup. -/
def judgeBody : Judged :=
  let setup := t.judgeSetup p state blocks
  judgeOptional p setup.blocks .test t.testFunc setup.state setup.blocks

/-- The blocks at the check point of the teardown, which is that of the setup if there is one. -/
def sinceTeardown : BlockTable :=
  if t.setupFunc.isSome then blocks else (t.judgeBody p state blocks).blocks

/-- The teardown, after the test function. -/
def judgeTeardown : Judged :=
  let body := t.judgeBody p state blocks
  judgeOptional p (t.sinceTeardown p state blocks) .teardown t.teardownFunc body.state body.blocks

/-- **A test.**  Without its setup it is not run; a `skip()` answers the next test function that
fails. -/
def judge (skip : Bool) : JudgedTest :=
  let setup := t.judgeSetup p state blocks
  let body := t.judgeBody p state blocks
  let teardown := t.judgeTeardown p state blocks
  if setup.rc = 0 then
    let pending := skip || setup.skipped || body.skipped
    { record :=
        { setup := setup.invocation .setup t.setupFunc state
          test := body.invocation .test t.testFunc setup.state
          teardown := teardown.invocation .teardown t.teardownFunc body.state
          status := finalStatus (bodyStatus pending body.rc) teardown.rc }
      rc := teardown.rc
      blocks := teardown.blocks
      skip := (decide (body.rc = 0) && pending) || teardown.skipped }
  else
    { record := ⟨setup.invocation .setup t.setupFunc state, none, none, .error⟩
      rc := setup.rc
      blocks := setup.blocks
      skip := skip || setup.skipped }

/-- The callbacks of the test that are run make calls that are allowed. -/
structure Allowed : Prop where
  setup : AllowsOptional p blocks .setup t.setupFunc state blocks
  body : (t.judgeSetup p state blocks).rc = 0 →
    AllowsOptional p (t.judgeSetup p state blocks).blocks .test t.testFunc
      (t.judgeSetup p state blocks).state (t.judgeSetup p state blocks).blocks
  teardown : (t.judgeSetup p state blocks).rc = 0 →
    AllowsOptional p (t.sinceTeardown p state blocks) .teardown t.teardownFunc
      (t.judgeBody p state blocks).state (t.judgeBody p state blocks).blocks

end CMUnitTest

/-- The tests of a group, in order. -/
def judgeTests (p : Platform) (groupState : Addr) :
    List CMUnitTest → BlockTable → Bool → List (TestRecord × Int) × BlockTable × Bool
  | [], blocks, skip => ([], blocks, skip)
  | t :: tests, blocks, skip =>
      let first := t.judge p (initialTestState groupState t) blocks skip
      let rest := judgeTests p groupState tests first.blocks first.skip
      ((first.record, first.rc) :: rest.1, rest.2)

@[inherit_doc CMUnitTest.Allowed]
def TestsAllowed (p : Platform) (groupState : Addr) : List CMUnitTest → BlockTable → Bool → Prop
  | [], _, _ => True
  | t :: tests, blocks, skip =>
      t.Allowed p (initialTestState groupState t) blocks ∧
        TestsAllowed p groupState tests
          (t.judge p (initialTestState groupState t) blocks skip).blocks
          (t.judge p (initialTestState groupState t) blocks skip).skip

/-! ### Groups and processes -/

/-- What is recorded of a run, without the messages. -/
inductive Verdict where
  | test (record : TestRecord)
  | group (name : CString) (totals : Totals) (tests : List (CString × CMUnitTestStatus))
  deriving DecidableEq

/-- What the run of a group comes to: what it returns, unless the process exits, the verdicts, and
what is left. -/
structure JudgedGroup where
  rc : Option Int
  verdicts : List Verdict
  blocks : BlockTable
  skip : Bool

namespace Group

variable (p : Platform) (g : Group) (blocks : BlockTable) (skip : Bool)

/-- The tests the filters let through. -/
def selected : List CMUnitTest := g.tests.filter (isSelected g.testFilter g.skipFilter)

/-- The group setup. -/
def judgeSetup : Judged := judgeOptional p blocks .setup g.setup 0 blocks

/-- The tests, if the group setup succeeded. -/
def judgeSelected : List (TestRecord × Int) × BlockTable × Bool :=
  let setup := g.judgeSetup p blocks
  if setup.rc = 0 then
    judgeTests p setup.state g.selected setup.blocks (skip || setup.skipped)
  else ([], setup.blocks, skip || setup.skipped)

/-- The group teardown, which is run in any case. -/
def judgeTeardown : Judged :=
  judgeOptional p blocks .teardown g.teardown (g.judgeSetup p blocks).state
    (g.judgeSelected p blocks skip).2.1

/-- The statuses in the summary. -/
def statuses : List CMUnitTestStatus :=
  if (g.judgeSetup p blocks).rc = 0 then
    (g.judgeSelected p blocks skip).1.map (·.1.status)
  else g.selected.map fun _ => .notStarted

/-- **A group.**  If a block allocated in it is left at its end, the process exits. -/
def judge : JudgedGroup :=
  let records := (g.judgeSelected p blocks skip).1
  let teardown := g.judgeTeardown p blocks skip
  let totals := groupTotals (g.judgeSetup p blocks).rc records
  if g.allocated then
    { rc := if blocks.leaked teardown.blocks then none
        else some (toCInt (totals.failed + totals.errors))
      verdicts := records.map (fun r => .test r.1) ++
        [.group g.name totals ((g.selected.map CMUnitTest.nameText).zip (g.statuses p blocks skip))]
      blocks := blocks.release teardown.blocks
      skip := (g.judgeSelected p blocks skip).2.2 || teardown.skipped }
  else { rc := some (-1), verdicts := [], blocks, skip }

/-- The callbacks of the group that are run make calls that are allowed, and the block that was last
before the group is not given back in it. -/
structure Allowed : Prop where
  setup : AllowsOptional p blocks .setup g.setup 0 blocks
  tests : (g.judgeSetup p blocks).rc = 0 →
    TestsAllowed p (g.judgeSetup p blocks).state g.selected (g.judgeSetup p blocks).blocks
      (skip || (g.judgeSetup p blocks).skipped)
  teardown : AllowsOptional p blocks .teardown g.teardown (g.judgeSetup p blocks).state
    (g.judgeSelected p blocks skip).2.1
  kept : blocks.Keeps (g.judgeTeardown p blocks skip).blocks

end Group

/-- **A process**: what its groups return, unless one of them exits, and the verdicts. -/
def judgeGroups (p : Platform) : List Group → BlockTable → Bool → Option (List Int) × List Verdict
  | [], _, _ => (some [], [])
  | g :: groups, blocks, skip =>
      let first := g.judge p blocks skip
      match first.rc with
      | none => (none, first.verdicts)
      | some rc =>
          let rest := judgeGroups p groups first.blocks first.skip
          (rest.1.map (rc :: ·), first.verdicts ++ rest.2)

@[inherit_doc Group.Allowed]
def GroupsAllowed (p : Platform) : List Group → BlockTable → Bool → Prop
  | [], _, _ => True
  | g :: groups, blocks, skip =>
      (g.allocated = true → g.Allowed p blocks skip) ∧
        ((g.judge p blocks skip).rc.isSome →
          GroupsAllowed p groups (g.judge p blocks skip).blocks (g.judge p blocks skip).skip)

end Cmocka
