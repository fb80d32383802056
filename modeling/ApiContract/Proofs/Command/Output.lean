import ApiContract.Proofs.Command.Validation
import ApiContract.Proofs.Command.Writing

namespace ApiContract

def Flavor.effective : (argument config : Option Flavor) → Flavor
  | some flavor, _ => flavor
  | none, some flavor => flavor
  | none, none => .untyped

theorem Flavor.or_getD_eq_effective (argument config : Option Flavor) :
    (argument.or config).getD .untyped = .effective argument config := by
  cases argument <;> cases config <;> rfl

namespace FileStore

def after (store : FileStore) (i : Invocation) : FileStore :=
  ((i.run : StateM FileStore Report).run store).2

def module? (store : FileStore) (manifest : String) (flavor : Flavor) : Option String :=
  (store.load? Manifest.ofJson manifest).bind fun endpoints =>
    (Client.generate endpoints flavor).result.toOption

structure Prepares (store : FileStore) (config : Option String) (manifest : String)
    (flavor : Option Flavor) (c : Config) (text : String) : Prop where
  config : store.config? config = some c
  module : store.module? manifest (.effective flavor c.flavor) = some text

def emit (store : FileStore) (text : String) : Option String → Option (Nat × String) × FileStore
  | none => (some (0, text), store)
  | some path =>
    match store.write path text with
    | .ok next => (some (0, ""), next)
    | .error _ => (none, store)

variable {store : FileStore}

theorem run_write (path text : String) :
    (FileAccess.write path text : StateM FileStore (Except FileError Unit)).run store =
      ((store.write path text).map fun _ => (), (store.write path text).toOption.getD store) := by
  simp only [FileAccess.write, StateT.run_bind, StateT.run_get, pure_bind]
  cases store.write path text <;> rfl

theorem yields_write (path text : String) :
    store.Yields (FileAccess.write path text) fun result after =>
      (result.toOption.map fun _ => (0, ""), after) = store.emit text (some path) := by
  rw [Yields, run_write, emit]
  cases store.write path text <;> rfl

end FileStore

open FileStore

variable {store : FileStore}

theorem Command.yields_runGenerate (manifest : String) (flavor : Flavor) (out : Option String) :
    store.Yields (runGenerate manifest flavor out) fun ending after =>
      (ending.result.toOption, after) =
        (store.module? manifest flavor).elim (none, store) (store.emit · out) := by
  refine (finds_load manifest "manifest" _).bind_yields fun loaded hloaded => ?_
  rw [module?, ← hloaded]
  cases loaded with
  | error e => exact .pure rfl
  | ok endpoints =>
    dsimp only [Except.toOption, Option.bind]
    cases (Client.generate endpoints flavor).result with
    | error e => exact .pure rfl
    | ok text =>
      cases out with
      | none => exact .pure rfl
      | some path =>
        refine (yields_write path text).bind fun result after hwrite => ?_
        cases result with
        | error e => exact .pure hwrite
        | ok => exact .pure hwrite

namespace FileStore

variable {verbosity : Nat} {config : Option String} {manifest : String} {flavor : Option Flavor}
  {out : Option String} {c : Config} {text : String}

theorem answer_generate :
    let i : Invocation := ⟨verbosity, config, .generate manifest flavor out⟩
    ((store.report i).answer, store.after i) =
      ((store.config? config).elim (none, store) fun c =>
        (store.module? manifest (.effective flavor c.flavor)).elim (none, store)
          (store.emit · (out.or c.output))).map (·.getD (2, "")) id := by
  intro i
  refine Invocation.yields_run (i := i) fun c => ?_
  rw [← Flavor.or_getD_eq_effective]
  exact Command.yields_runGenerate manifest _ (out.or c.output)

theorem Prepares.answer_generate (h : store.Prepares config manifest flavor c text) :
    let i : Invocation := ⟨verbosity, config, .generate manifest flavor out⟩
    ((store.report i).answer, store.after i) =
      (store.emit text (out.or c.output)).map (·.getD (2, "")) id := by
  intro i
  rw [FileStore.answer_generate, h.config, Option.elim, h.module]
  rfl

theorem answer_generate_of_not_prepares
    (h : ¬∃ c text, store.Prepares config manifest flavor c text) :
    let i : Invocation := ⟨verbosity, config, .generate manifest flavor out⟩
    ((store.report i).answer, store.after i) = ((2, ""), store) := by
  intro i
  rw [FileStore.answer_generate]
  cases hc : store.config? config with
  | none => rfl
  | some c =>
    cases hmodule : store.module? manifest (.effective flavor c.flavor) with
    | none => simp [hmodule]
    | some text => exact absurd ⟨c, text, hc, hmodule⟩ h

/-- A generation that fails prints nothing and leaves all files as they were. One that succeeds
prints the whole module or, if an output path is given, writes it there, prints nothing and leaves
all other files as they were. -/
theorem generate_all_or_nothing (store : FileStore) (verbosity : Nat) (config : Option String)
    (manifest : String) (flavor : Option Flavor) (out : Option String) :
    let i : Invocation := ⟨verbosity, config, .generate manifest flavor out⟩
    ((¬∃ c text, store.Prepares config manifest flavor c text) →
      (store.report i).answer = (2, "") ∧ store.after i = store) ∧
    ∀ c text, store.Prepares config manifest flavor c text →
      (out.or c.output = none →
        (store.report i).answer = (0, text) ∧ store.after i = store) ∧
      ∀ path, out.or c.output = some path →
        (∀ e, store.write path text = .error e →
          (store.report i).answer = (2, "") ∧ store.after i = store) ∧
        ∀ next, store.write path text = .ok next →
          (store.report i).answer = (0, "") ∧ store.after i = next ∧
            next.read path = .ok text ∧
            ∃ place, next.locate path = .ok place ∧ store.Replaces next place text := by
  intro i
  refine ⟨fun h => Prod.mk.inj (answer_generate_of_not_prepares h), fun c text h => ?_⟩
  have hanswer := @Prepares.answer_generate store verbosity config manifest flavor out c text h
  refine ⟨fun hout => ?_, fun path hout => ⟨fun e hwrite => ?_, fun next hwrite => ?_⟩⟩
  · rw [hout] at hanswer
    exact Prod.mk.inj hanswer
  · rw [hout, emit, hwrite] at hanswer
    exact Prod.mk.inj hanswer
  · rw [hout, emit, hwrite] at hanswer
    obtain ⟨hreport, hafter⟩ := Prod.mk.inj hanswer
    obtain ⟨place, hlocate, hreplaces, hread⟩ := replaces_of_write hwrite
    exact ⟨hreport, hafter, hread, place, hlocate, hreplaces⟩

theorem generate_all_or_nothing_replaced :
    let store : FileStore := ⟨["w"], [(["w", "m.json"], .text
        "[[\"show\", \"get\", \"/users/:id\"], [\"save\", \"put\", \"/users\"]]"),
      (["w", "c.yaml"], .text "flavor: untyped\noutput: a.ts"), (["w", "a.ts"], .text "kept"),
      (["o.ts"], .text "")]⟩
    let i : Invocation := ⟨0, some "c.yaml", .generate "m.json" (some .typed) (some "../o.ts")⟩
    let c : Config := ⟨none, some .untyped, some "a.ts"⟩
    let text := "// Generated by frapi. Do not edit by hand.\n\n" ++
      "export async function show(id: string) \x7b\n" ++
      "  return fetch(`/users/$\x7bid\x7d`, \x7b method: 'GET', " ++
      "headers: \x7b 'Content-Type': 'application/json' \x7d \x7d);\n\x7d\n\n" ++
      "export async function save(body: any) \x7b\n" ++
      "  return fetch(`/users`, \x7b method: 'PUT', " ++
      "headers: \x7b 'Content-Type': 'application/json' \x7d, " ++
      "body: JSON.stringify(body) \x7d);\n\x7d\n"
    store.Prepares (some "c.yaml") "m.json" (some .typed) c text ∧
      (store.report i).answer = (0, "") ∧ (store.after i).read "../o.ts" = .ok text ∧
      (store.after i).read "a.ts" = .ok "kept" ∧
      ∃ place, store.Replaces (store.after i) place text := by
  intro store i c text
  have hprepares : store.Prepares (some "c.yaml") "m.json" (some .typed) c text :=
    ⟨by decide +kernel, by decide +kernel⟩
  have hwrite : store.write "../o.ts" text = .ok (store.set ["o.ts"] (.text text)) := by rfl
  have hkept : (store.set ["o.ts"] (.text text)).read "a.ts" = .ok "kept" := by rfl
  obtain ⟨hanswer, hafter, hread, place, -, hreplaces⟩ := ((generate_all_or_nothing store 0
    (some "c.yaml") "m.json" (some .typed) (some "../o.ts")).2 c text hprepares).2
      "../o.ts" rfl |>.2 _ hwrite
  exact ⟨hprepares, hanswer, hafter ▸ hread, hafter ▸ hkept, place, hafter ▸ hreplaces⟩

example :
    let store : FileStore := ⟨[], [(["m.json"], .text
      "[[\"a\", \"get\", \"/\"], [\"a\", \"put\", \"/\"]]")]⟩
    let i : Invocation := ⟨0, none, .generate "m.json" none (some "o.ts")⟩
    (store.report i).answer = (2, "") ∧ (store.after i).files = store.files := by
  decide +kernel

end FileStore

end ApiContract
