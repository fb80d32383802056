import ApiContract.Proofs.Command.Loading
import ApiContract.Proofs.Schema.Strictness
import ApiContract.Proofs.Schema.Wire

namespace ApiContract

open FileStore

variable {store : FileStore}

def Mode.effective : (lenient : Bool) → (strict : Option Bool) → Mode
  | true, _ => .lenient
  | false, some false => .lenient
  | false, _ => .strict

theorem Config.mode_eq_effective (c : Config) (lenient : Bool) :
    c.mode lenient = .effective lenient c.strict := by
  rw [mode]
  rcases lenient with _ | _ <;> rcases c.strict with _ | _ | _ <;> rfl

def Report.answer (r : Report) : Nat × String :=
  (r.exit, r.stdout)

theorem Report.answer_eq_iff {r : Report} {exit : Nat} {stdout : String} :
    r.answer = (exit, stdout) ↔ r.exit = exit ∧ r.stdout = stdout := by
  rw [answer, Prod.mk.injEq]

def Command.answer : Except Violation Unit → Nat × String
  | .ok () => (0, "OK\n")
  | .error e => (1, e.message ++ "\n")

namespace Command

variable {outcome : Except Violation Unit} {text : String}

theorem answer_eq_zero_iff : answer outcome = (0, text) ↔ outcome = .ok () ∧ text = "OK\n" := by
  cases outcome <;> simp [answer, eq_comm]

theorem answer_eq_one_iff :
    answer outcome = (1, text) ↔ ∃ e, outcome = .error e ∧ e.message ++ "\n" = text := by
  cases outcome <;> simp [answer]

theorem answer_ne_two : answer outcome ≠ (2, text) := by
  cases outcome <;> simp [answer]

theorem finds_runValidate (schema value : String) (mode : Mode) :
    store.Finds (runValidate schema value mode) fun ending =>
      ending.result.toOption =
        (store.load? (Schema.ofJson .plain) schema).bind fun s =>
          (store.document? value).map fun v => answer (s.validate mode v) := by
  refine (finds_load schema "schema" _).bind fun loadedSchema hschema => ?_
  rw [← hschema]
  cases loadedSchema with
  | error e => exact .pure rfl
  | ok s =>
    refine (finds_load value "value" _).bind fun loadedValue hvalue => ?_
    rw [load?_ok] at hvalue
    rw [← hvalue]
    cases loadedValue with
    | error e => exact .pure rfl
    | ok v =>
      dsimp only
      cases hanswer : s.validate mode v with
      | ok => exact .pure (by simp [Except.toOption, hanswer, answer])
      | error e => exact .pure (by simp [Except.toOption, hanswer, answer])

end Command

namespace Invocation

theorem answer_report (i : Invocation) (ending : Ending) :
    (i.report ending).answer = ending.result.toOption.getD (2, "") := by
  rw [report]
  cases ending.result <;> rfl

theorem yields_run {i : Invocation}
    {effect : Config → Option (Nat × String) × FileStore}
    (h : ∀ c, store.Yields (i.command.run c) fun ending after =>
      (ending.result.toOption, after) = effect c) :
    store.Yields i.run fun report after => (report.answer, after) =
      ((store.config? i.config).elim (none, store) effect).map (·.getD (2, "")) id := by
  refine (Config.finds_load i.config).bind_yields fun loaded hloaded => ?_
  obtain ⟨log, config⟩ := loaded
  rw [← hloaded]
  cases config with
  | error message =>
    refine .pure ?_
    rw [answer_report]
    rfl
  | ok c =>
    refine (h c).bind fun ending after hending => .pure ?_
    rw [answer_report]
    exact congrArg (Prod.map (·.getD (2, "")) id) hending

theorem finds_run {i : Invocation} {answer? : Config → Option (Nat × String)}
    (h : ∀ c, store.Finds (i.command.run c) fun ending => ending.result.toOption = answer? c) :
    store.Finds i.run fun report =>
      report.answer = ((store.config? i.config).bind answer?).getD (2, "") := by
  have hrun := @yields_run store i (fun c => (answer? c, store)) fun c => Prod.ext (h c).1 (h c).2
  cases hc : store.config? i.config with
  | none =>
    rw [hc] at hrun
    exact Prod.mk.inj hrun
  | some c =>
    rw [hc] at hrun
    exact Prod.mk.inj hrun

end Invocation

namespace FileStore

def report (store : FileStore) (i : Invocation) : Report :=
  ((i.run : StateM FileStore Report).run store).1

structure Provides (store : FileStore) (config : Option String) (schema value : String)
    (c : Config) (s : Schema) (v : Json) : Prop where
  config : store.config? config = some c
  schema : store.load? (Schema.ofJson .plain) schema = some s
  value : store.document? value = some v

variable {verbosity : Nat} {config : Option String} {schema value : String} {lenient : Bool}
  {c : Config} {s : Schema} {v : Json}

theorem answer_validate :
    (store.report ⟨verbosity, config, .validate schema value lenient⟩).answer =
      ((store.config? config).bind fun c =>
        (store.load? (Schema.ofJson .plain) schema).bind fun s =>
          (store.document? value).map fun v =>
            Command.answer (s.validate (c.mode lenient) v)).getD (2, "") :=
  (Invocation.finds_run fun c => Command.finds_runValidate schema value (c.mode lenient)).1

theorem Provides.answer_validate (h : store.Provides config schema value c s v) :
    (store.report ⟨verbosity, config, .validate schema value lenient⟩).answer =
      Command.answer (s.validate (.effective lenient c.strict) v) := by
  rw [FileStore.answer_validate, h.config, h.schema, h.value, ← c.mode_eq_effective]
  rfl

theorem answer_validate_of_not_provides (h : ¬∃ c s v, store.Provides config schema value c s v) :
    (store.report ⟨verbosity, config, .validate schema value lenient⟩).answer = (2, "") := by
  rw [answer_validate]
  cases hc : store.config? config with
  | none => rfl
  | some c =>
    cases hs : store.load? (Schema.ofJson .plain) schema with
    | none => rfl
    | some s =>
      cases hv : store.document? value with
      | none => rfl
      | some v => exact absurd ⟨c, s, v, hc, hs, hv⟩ h

theorem Provides.isCustom_eq_false (h : store.Provides config schema value c s v) {mode : Mode}
    {e : Violation} (he : s.validate mode v = .error e) : e.kind.isCustom = false := by
  obtain ⟨j, _, hs⟩ := Option.bind_eq_some_iff.1 h.schema
  have hread : Schema.ofJson .plain j = .ok s := by
    cases hj : Schema.ofJson .plain j with
    | error => simp [hj, Except.toOption] at hs
    | ok => simpa [hj, Except.toOption] using hs
  rw [Schema.validate_eq] at he
  exact ((Schema.loads .plain j).schema hread).predicateFree.isCustom_eq_false he

theorem answer_validate_eq_iff {answer : Nat × String} :
    (store.report ⟨verbosity, config, .validate schema value lenient⟩).answer = answer ↔
      (∃ c s v, store.Provides config schema value c s v ∧
        Command.answer (s.validate (.effective lenient c.strict) v) = answer) ∨
      (¬∃ c s v, store.Provides config schema value c s v) ∧ (2, "") = answer := by
  constructor
  · rintro rfl
    by_cases h : ∃ c s v, store.Provides config schema value c s v
    · obtain ⟨c, s, v, hp⟩ := h
      exact .inl ⟨c, s, v, hp, hp.answer_validate.symm⟩
    · exact .inr ⟨h, (answer_validate_of_not_provides h).symm⟩
  · rintro (⟨c, s, v, hp, rfl⟩ | ⟨h, rfl⟩)
    · exact hp.answer_validate
    · exact answer_validate_of_not_provides h

theorem exit_eq_zero_iff :
    (store.report ⟨verbosity, config, .validate schema value lenient⟩).exit = 0 ↔
      ∃ c s v, store.Provides config schema value c s v ∧
        s.validate (.effective lenient c.strict) v = .ok () := by
  constructor
  · intro h
    have hanswer := Report.answer_eq_iff.2 ⟨h, rfl⟩
    rw [answer_validate_eq_iff] at hanswer
    simp only [Command.answer_eq_zero_iff] at hanswer
    rcases hanswer with ⟨c, s, v, hp, hv, _⟩ | ⟨_, ⟨⟩⟩
    exact ⟨c, s, v, hp, hv⟩
  · rintro ⟨c, s, v, hp, hv⟩
    have hanswer := Command.answer_eq_zero_iff.2 ⟨hv, rfl⟩
    exact (Report.answer_eq_iff.1 (hp.answer_validate.trans hanswer)).1

theorem exit_eq_two_iff :
    (store.report ⟨verbosity, config, .validate schema value lenient⟩).exit = 2 ↔
      ¬∃ c s v, store.Provides config schema value c s v := by
  constructor
  · rintro h ⟨c, s, v, hp⟩
    exact Command.answer_ne_two (hp.answer_validate.symm.trans (Report.answer_eq_iff.2 ⟨h, rfl⟩))
  · intro h
    exact (Report.answer_eq_iff.1 (answer_validate_of_not_provides h)).1

/-- The exit code and the output of a validation, for all files and arguments. The lenient argument
refuses nothing that is accepted without it. -/
theorem validate_contract (store : FileStore) (verbosity : Nat) (config : Option String)
    (schema value : String) :
    let report (lenient : Bool) : Report :=
      store.report ⟨verbosity, config, .validate schema value lenient⟩
    (∀ lenient,
      ((report lenient).exit = 0 ∧ (report lenient).stdout = "OK\n" ↔
        ∃ c s v, store.Provides config schema value c s v ∧
          s.validate (.effective lenient c.strict) v = .ok ()) ∧
      (∀ text, (report lenient).exit = 1 ∧ (report lenient).stdout = text ↔
        ∃ c s v e, store.Provides config schema value c s v ∧
          s.validate (.effective lenient c.strict) v = .error e ∧ e.message ++ "\n" = text) ∧
      ((report lenient).exit = 2 ∧ (report lenient).stdout = "" ↔
        ¬∃ c s v, store.Provides config schema value c s v)) ∧
    ((report false).exit = 0 → (report true).exit = 0) ∧
    ((report false).exit = 2 ↔ (report true).exit = 2) ∧
    ∀ c s v mode e, store.Provides config schema value c s v → s.validate mode v = .error e →
      e.kind ≠ .customValidationFailed ∧ e.kind ≠ .customValidationError := by
  intro report
  refine ⟨fun lenient => ⟨?_, fun text => ?_, ?_⟩, ?_, ?_, ?_⟩
  · rw [← Report.answer_eq_iff, answer_validate_eq_iff]
    simp [Command.answer_eq_zero_iff]
  · rw [← Report.answer_eq_iff, answer_validate_eq_iff]
    simp only [Command.answer_eq_one_iff]
    constructor
    · rintro (⟨c, s, v, hp, e, he, htext⟩ | ⟨_, ⟨⟩⟩)
      exact ⟨c, s, v, e, hp, he, htext⟩
    · rintro ⟨c, s, v, e, hp, he, htext⟩
      exact .inl ⟨c, s, v, hp, e, he, htext⟩
  · rw [← Report.answer_eq_iff, answer_validate_eq_iff]
    simp [Command.answer_ne_two]
  · rw [exit_eq_zero_iff, exit_eq_zero_iff]
    rintro ⟨c, s, v, hp, hv⟩
    rw [Schema.validate_eq_ok] at hv
    exact ⟨c, s, v, hp, Schema.validate_eq_ok.2 hv.lenient⟩
  · rw [exit_eq_two_iff, exit_eq_two_iff]
  · intro c s v mode e hp he
    have hkind := hp.isCustom_eq_false he
    constructor <;> intro h <;> rw [h] at hkind <;> cases hkind

example :
    let store : FileStore := ⟨[], [(["c.yaml"], .text "strict: false"),
      (["s.json"], .text "\x7b\"shape\": []\x7d"), (["v.json"], .text "\x7b\"a\": 1\x7d")]⟩
    let answer (config : Option String) (lenient : Bool) : Nat × String :=
      (store.report ⟨0, config, .validate "s.json" "v.json" lenient⟩).answer
    answer none false = (1, "Unexpected object property: \"a\"\n") ∧
      answer none true = (0, "OK\n") ∧ answer (some "c.yaml") false = (0, "OK\n") ∧
      answer (some "d.yaml") true = (2, "") := by
  decide +kernel

end FileStore

end ApiContract
