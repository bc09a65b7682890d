import Cmocka.Model.State
import Cmocka.Support.Runs

/-!
# Report — which formats are printed

`cm_get_output` reads `CMOCKA_MESSAGE_OUTPUT` once and keeps what it names in `global_msg_output`,
the variable `cmocka_set_message_output` writes.  A set call before the first query is overridden, a
later one is not: the queries all return the formats of the environment variable exactly when no
query after the first one follows a set call to something else (`environment_overrides_iff`).
-/

namespace Cmocka

open Runs

/-! ### The formats an environment variable names -/

/-- The format, if it is named. -/
def ifNamed (named : Bool) (format : BitVec 32) : BitVec 32 := if named then format else 0

/-- The bitwise OR of the formats some of the tokens name, up to case. -/
def tokensOutput (tokens : List CString) : BitVec 32 :=
  ifNamed (tokens.any (strcaseEq · "STANDARD".toList)) cmOutputStandard |||
  ifNamed (tokens.any (strcaseEq · "STDOUT".toList)) cmOutputStandard |||
  ifNamed (tokens.any (strcaseEq · "SUBUNIT".toList)) cmOutputSubunit |||
  ifNamed (tokens.any (strcaseEq · "TAP".toList)) cmOutputTap |||
  ifNamed (tokens.any (strcaseEq · "XML".toList)) cmOutputXml

/-- The formats the comma-separated tokens of a value name. -/
def namedOutput (env : CString) : BitVec 32 := tokensOutput (env.splitOn ',')

/-- The names a token may have. -/
def outputNames : List CString :=
  ["STANDARD".toList, "STDOUT".toList, "SUBUNIT".toList, "TAP".toList, "XML".toList]

/-- Some comma-separated token of the value is one of the names, up to case. -/
def recognised (env : CString) : Bool :=
  (env.splitOn ',').any fun token => outputNames.any (strcaseEq token)

/-- A token that is two names, up to case, makes them one. -/
theorem strcaseEq_trans {token a b : CString} (ha : strcaseEq token a = true)
    (hb : strcaseEq token b = true) : strcaseEq a b = true := by
  unfold strcaseEq at *
  rw [beq_iff_eq] at *
  rw [← ha, hb]

/-- The names are different, so the chain of comparisons finds the one format of a token. -/
theorem outputOfToken_eq (token : CString) : outputOfToken token = tokensOutput [token] := by
  have other {a : CString} (ha : strcaseEq token a = true) (b : CString)
      (hab : strcaseEq a b = false) : strcaseEq token b = false := by
    cases hb : strcaseEq token b with
    | false => rfl
    | true => rw [strcaseEq_trans ha hb] at hab; cases hab
  unfold outputOfToken tokensOutput
  simp only [List.any_cons, List.any_nil, Bool.or_false]
  by_cases h₁ : strcaseEq token "STANDARD".toList = true
  · rw [h₁, other h₁ "STDOUT".toList (by decide), other h₁ "SUBUNIT".toList (by decide),
      other h₁ "TAP".toList (by decide), other h₁ "XML".toList (by decide)]
    rfl
  by_cases h₂ : strcaseEq token "STDOUT".toList = true
  · rw [h₂, other h₂ "STANDARD".toList (by decide), other h₂ "SUBUNIT".toList (by decide),
      other h₂ "TAP".toList (by decide), other h₂ "XML".toList (by decide)]
    rfl
  rw [Bool.not_eq_true] at h₁ h₂
  rw [h₁, h₂]
  by_cases h₃ : strcaseEq token "SUBUNIT".toList = true
  · rw [h₃, other h₃ "TAP".toList (by decide), other h₃ "XML".toList (by decide)]
    rfl
  by_cases h₄ : strcaseEq token "TAP".toList = true
  · rw [Bool.not_eq_true] at h₃
    rw [h₃, h₄, other h₄ "XML".toList (by decide)]
    rfl
  rw [Bool.not_eq_true] at h₃ h₄
  rw [h₃, h₄]
  cases strcaseEq token "XML".toList with
  | true => rfl
  | false => rfl

theorem ifNamed_or (a b : Bool) (format : BitVec 32) :
    ifNamed (a || b) format = ifNamed a format ||| ifNamed b format := by
  cases a with
  | true => cases b <;> simp [ifNamed]
  | false => simp [ifNamed]

/-- The formats of the tokens are collected one by one. -/
theorem tokensOutput_cons (token : CString) (tokens : List CString) :
    tokensOutput (token :: tokens) = outputOfToken token ||| tokensOutput tokens := by
  rw [outputOfToken_eq]
  unfold tokensOutput
  simp only [List.any_cons, List.any_nil, Bool.or_false, ifNamed_or]
  ac_rfl

/-- An empty token names nothing. -/
theorem outputOfToken_nil : outputOfToken [] = 0 := by decide

theorem foldl_output (tokens : List CString) (newOutput : BitVec 32) :
    tokens.foldl (fun newOutput token => newOutput ||| outputOfToken token) newOutput =
      newOutput ||| tokensOutput tokens := by
  induction tokens generalizing newOutput with
  | nil =>
      have hnil : tokensOutput [] = 0 := by decide
      simp [hnil]
  | cons token tokens ih => rw [List.foldl_cons, ih, tokensOutput_cons, BitVec.or_assoc]

theorem tokensOutput_filter (tokens : List CString) :
    tokensOutput (tokens.filter fun t => !t.isEmpty) = tokensOutput tokens := by
  induction tokens with
  | nil => rfl
  | cons token tokens ih =>
      cases token with
      | nil =>
          rw [tokensOutput_cons, outputOfToken_nil]
          simpa using ih
      | cons c token => rw [List.filter_cons_of_pos (by rfl), tokensOutput_cons, tokensOutput_cons, ih]

/-- The loop of `cm_get_output` collects exactly the named formats. -/
theorem parseOutput_eq (env : CString) : parseOutput env = namedOutput env := by
  unfold parseOutput strtok namedOutput
  rw [foldl_output, tokensOutput_filter]
  simp

theorem outputOfToken_ne_zero {token : CString} (h : outputNames.any (strcaseEq token) = true) :
    outputOfToken token ≠ 0 := by
  unfold outputOfToken
  split_ifs with h₁ h₂ h₃ h₄ h₅
  · decide
  · decide
  · decide
  · decide
  · decide
  · unfold outputNames at h
    simp only [List.any_cons, List.any_nil, Bool.or_eq_true, Bool.or_false] at h
    rcases h with h | h | h | h | h
    · exact absurd h h₁
    · exact absurd h h₂
    · exact absurd h h₃
    · exact absurd h h₄
    · exact absurd h h₅

theorem tokensOutput_ne_zero {tokens : List CString}
    (h : tokens.any (fun token => outputNames.any (strcaseEq token)) = true) :
    tokensOutput tokens ≠ 0 := by
  induction tokens with
  | nil => cases h
  | cons token tokens ih =>
      rw [tokensOutput_cons]
      intro hzero
      obtain ⟨h₁, h₂⟩ := BitVec.or_eq_zero_iff.mp hzero
      rw [List.any_cons, Bool.or_eq_true] at h
      rcases h with h | h
      · exact outputOfToken_ne_zero h h₁
      · exact ih h h₂

/-! ### Runs of set calls and queries -/

/-- `cmocka_set_message_output`. -/
def cmockaSetMessageOutput (output : BitVec 32) : CM Unit :=
  modify fun s => { s with globalMsgOutput := output }

inductive OutputOp where
  | set (output : BitVec 32)
  | get
  deriving DecidableEq

/-- The calls in order, and what the queries return. -/
def answers : List OutputOp → CM (List (BitVec 32))
  | [] => return []
  | .set output :: ops => do
      cmockaSetMessageOutput output
      answers ops
  | .get :: ops => do
      let output ← getOutput
      return output :: (← answers ops)

/-- No query directly follows a set call to something other than `output`. -/
def Undisturbed (output : BitVec 32) (ops : List OutputOp) : Prop :=
  ∀ before o after, ops = before ++ .set o :: .get :: after → o = output

theorem undisturbed_cons {output : BitVec 32} {op : OutputOp} {ops : List OutputOp} :
    Undisturbed output (op :: ops) ↔
      (∀ o after, op = .set o → ops = .get :: after → o = output) ∧ Undisturbed output ops := by
  constructor
  · intro h
    refine ⟨fun o after hop hops => h [] o after (by rw [hop, hops]; rfl), ?_⟩
    intro before o after hops
    exact h (op :: before) o after (by rw [hops]; rfl)
  · rintro ⟨hhead, htail⟩ before o after heq
    cases before with
    | nil =>
        cases heq
        exact hhead o after rfl rfl
    | cons op' before =>
        cases heq
        exact htail before o after rfl

/-- After the first query the variable is what the last set call left. -/
theorem answers_of_checked (output : BitVec 32) (ops : List OutputOp) (s : Globals)
    (hs : s.envChecked = true) :
    ∃ outputs s', answers ops s = .ok outputs s' ∧
      ((∀ o ∈ outputs, o = output) ↔
        (∀ after, ops = .get :: after → s.globalMsgOutput = output) ∧ Undisturbed output ops) := by
  induction ops generalizing s with
  | nil =>
      refine ⟨[], s, rfl, ?_⟩
      constructor
      · intro _
        refine ⟨fun after h => (by cases h), fun before o after h => ?_⟩
        simp at h
      · intro _ o ho
        cases ho
  | cons op ops ih =>
      rw [undisturbed_cons]
      cases op with
      | set o =>
          obtain ⟨outputs, s', hrun, hiff⟩ := ih { s with globalMsgOutput := o } hs
          refine ⟨outputs, s', hrun, hiff.trans ?_⟩
          constructor
          · rintro ⟨hnext, hrest⟩
            refine ⟨fun after h => (by cases h), ?_, hrest⟩
            intro o' after ho hops
            cases ho
            exact hnext after hops
          · rintro ⟨-, hnext, hrest⟩
            exact ⟨fun after hops => hnext o after rfl hops, hrest⟩
      | get =>
          have hget : getOutput s = .ok s.globalMsgOutput s := by
            unfold getOutput cmGetOutput
            rw [bind_of_ok (get_apply s), if_pos hs]
            rfl
          obtain ⟨outputs, s', hrun, hiff⟩ := ih s hs
          refine ⟨s.globalMsgOutput :: outputs, s', ?_, ?_⟩
          · unfold answers
            rw [bind_of_ok hget, bind_of_ok hrun]
            rfl
          · rw [List.forall_mem_cons, hiff]
            constructor
            · rintro ⟨heq, -, hrest⟩
              exact ⟨fun _ _ => heq, fun o after ho => (by cases ho), hrest⟩
            · rintro ⟨hnext, -, hrest⟩
              exact ⟨hnext ops rfl, fun _ _ => hnext ops rfl, hrest⟩

/-- The first query reads the environment variable. -/
theorem getOutput_first {s : Globals} {env : CString} (hs : s.envChecked = false)
    (henv : s.platform.cmockaMessageOutput = some env) (hlength : 1 ≤ env.length ∧ env.length ≤ 32)
    (hrecognised : recognised env = true) :
    getOutput s =
      .ok (namedOutput env) { s with envChecked := true, globalMsgOutput := namedOutput env } := by
  have hcond : ¬ (env.length = 0 ∨ env.length > 32) := by omega
  have hne : namedOutput env ≠ 0 := tokensOutput_ne_zero hrecognised
  unfold getOutput cmGetOutput
  rw [bind_of_ok (get_apply s), hs, henv]
  simp only [Bool.false_eq_true, ↓reduceIte, if_neg hcond, parseOutput_eq, if_pos hne]
  rfl

/-- The calls from a state in which the environment variable has not been read. -/
theorem answers_of_unchecked {env : CString} (hlength : 1 ≤ env.length ∧ env.length ≤ 32)
    (hrecognised : recognised env = true) (ops : List OutputOp) (s : Globals)
    (hs : s.envChecked = false) (henv : s.platform.cmockaMessageOutput = some env) :
    ∃ outputs s', answers ops s = .ok outputs s' ∧
      ((∀ o ∈ outputs, o = namedOutput env) ↔
        ∀ before o after, ops = before ++ .set o :: .get :: after → .get ∈ before →
          o = namedOutput env) := by
  induction ops generalizing s with
  | nil =>
      refine ⟨[], s, rfl, ?_⟩
      constructor
      · intro _ before o after h
        simp at h
      · intro _ o ho
        cases ho
  | cons op ops ih =>
      cases op with
      | set o =>
          -- a setting made before the first query is overwritten by the environment
          obtain ⟨outputs, s', hrun, hiff⟩ := ih { s with globalMsgOutput := o } hs henv
          refine ⟨outputs, s', hrun, hiff.trans ?_⟩
          constructor
          · intro h before o' after hops hmem
            cases before with
            | nil => cases hmem
            | cons op' before =>
                cases hops
                rcases List.mem_cons.mp hmem with hset | hmem
                · cases hset
                · exact h before o' after rfl hmem
          · intro h before o' after hops hmem
            exact h (.set o :: before) o' after (by rw [hops]; rfl) (List.mem_cons_of_mem _ hmem)
      | get =>
          -- the first query reads the environment; from here on it is not read again
          obtain ⟨outputs, s', hrun, hiff⟩ := answers_of_checked (namedOutput env) ops
            { s with envChecked := true, globalMsgOutput := namedOutput env } rfl
          refine ⟨namedOutput env :: outputs, s', ?_, ?_⟩
          · unfold answers
            rw [bind_of_ok (getOutput_first hs henv hlength hrecognised), bind_of_ok hrun]
            rfl
          · rw [List.forall_mem_cons, hiff]
            constructor
            · rintro ⟨-, -, hrest⟩ before o after hops hmem
              cases before with
              | nil => cases hmem
              | cons op' before =>
                  cases hops
                  exact hrest before o after rfl
            · intro h
              refine ⟨rfl, fun _ _ => rfl, ?_⟩
              intro before o after hops
              exact h (.get :: before) o after (by rw [hops]; rfl) List.mem_cons_self

/-- **When the environment decides.**  In a process whose `CMOCKA_MESSAGE_OUTPUT` names a format,
all queries return what it names exactly when every set call directly before a query is to that
value, unless no query was made before. -/
theorem environment_overrides_iff (platform : Platform) (env : CString)
    (henv : platform.cmockaMessageOutput = some env) (hlength : 1 ≤ env.length ∧ env.length ≤ 32)
    (hrecognised : recognised env = true) (ops : List OutputOp) :
    (∃ outputs s', answers ops (Globals.initial platform) = .ok outputs s' ∧
      ∀ o ∈ outputs, o = namedOutput env) ↔
      ∀ before o after, ops = before ++ .set o :: .get :: after → .get ∈ before →
        o = namedOutput env := by
  obtain ⟨outputs, s', hrun, hiff⟩ :=
    answers_of_unchecked hlength hrecognised ops (Globals.initial platform) rfl henv
  rw [← hiff]
  constructor
  · rintro ⟨outputs', s'', hrun', h⟩
    cases hrun.symm.trans hrun'
    exact h
  · intro h
    exact ⟨outputs, s', hrun, h⟩

/-- A process started with `CMOCKA_MESSAGE_OUTPUT=tap,,XML`. -/
def Platform.tapXml : Platform := { Platform.lp64 with cmockaMessageOutput := some "tap,,XML".toList }

theorem set_before_query_overridden :
    ∃ outputs s',
      answers [.set cmOutputSubunit, .get, .get] (Globals.initial .tapXml) = .ok outputs s' ∧
      ∀ o ∈ outputs, o = namedOutput "tap,,XML".toList := by
  refine (environment_overrides_iff .tapXml _ rfl (by decide) (by decide) _).mpr ?_
  intro before o after hops hmem
  match before with
  | [] => cases hmem
  | [_] => cases hops
  | [_, _] => cases hops
  | _ :: _ :: _ :: _ => simp at hops

/-- A set call between two queries is not overridden. -/
theorem set_between_queries_kept :
    ¬ ∃ outputs s',
      answers [.get, .set cmOutputSubunit, .get] (Globals.initial .tapXml) = .ok outputs s' ∧
        ∀ o ∈ outputs, o = namedOutput "tap,,XML".toList := by
  rintro ⟨outputs, s', hrun, h⟩
  have hvalue : value (answers [.get, .set cmOutputSubunit, .get] (Globals.initial .tapXml)) =
      some [12, 2] := by decide +kernel
  rw [hrun] at hvalue
  cases hvalue
  exact absurd (h 2 (by simp)) (by decide)

end Cmocka
