import ApiContract.Client
import ApiContract.Proofs.Except
import Mathlib

namespace ApiContract

theorem good_or_first_bad {α : Type} {Good : List α → Prop} (hnil : Good []) (l : List α) :
    Good l ∨ ∃ before a after, l = before ++ a :: after ∧ Good before ∧ ¬Good (before ++ [a]) := by
  suffices h : ∀ done, Good done → Good (done ++ l) ∨
      ∃ before a after, done ++ l = before ++ a :: after ∧ Good before ∧ ¬Good (before ++ [a]) from
    h [] hnil
  induction l with
  | nil =>
    intro done hdone
    rw [List.append_nil]
    exact .inl hdone
  | cons a rest ih =>
    intro done hdone
    by_cases ha : Good (done ++ [a])
    · simpa using ih (done ++ [a]) ha
    · exact .inr ⟨done, a, rest, rfl, hdone, ha⟩

namespace Endpoint

/-- The arguments of a function: the parameters of the path, then query and body if declared. -/
structure Takes (e : Endpoint) (parts : List TemplatePart) (names : List String) : Prop where
  template : Template.parse e.path = .ok parts
  names : names = Template.parameterNames parts ++
    (if e.query.isDeclared then ["query"] else []) ++ (if e.body.isDeclared then ["body"] else [])

variable {e : Endpoint} {parts : List TemplatePart} {names : List String}

theorem exists_takes_iff : (∃ parts, e.Takes parts names) ↔ e.argumentNames = .ok names := by
  rw [argumentNames, template, Except.map_eq_ok]
  apply exists_congr
  intro parts
  exact ⟨fun h => ⟨h.template, h.names.symm⟩, fun h => ⟨h.1, h.2.symm⟩⟩

theorem Takes.argumentNames_eq (h : e.Takes parts names) : e.argumentNames = .ok names :=
  exists_takes_iff.1 ⟨parts, h⟩

theorem argumentNames_eq_error_iff {source : TemplateError} :
    e.argumentNames = .error source ↔ Template.parse e.path = .error source := by
  rw [argumentNames, template]
  cases Template.parse e.path <;> simp [Except.map]

theorem declaration_eq_ok (h : Template.parse e.path = .ok parts) (flavor : Flavor) :
    e.declaration flavor = .ok (e.render flavor parts) :=
  Except.map_eq_ok.2 ⟨parts, h, rfl⟩

end Endpoint

namespace Client

def Bindable (name : String) : Prop :=
  Identifier.isBinding name = true ∧ name ∉ calledGlobals

structure Bound (names : List String) : Prop where
  bindable : ∀ name ∈ names, Bindable name
  nodup : names.Nodup

theorem isBindable_iff {name : String} : isBindable name = true ↔ Bindable name := by
  simp [isBindable, Bindable]

theorem bound_nil : Bound [] :=
  ⟨List.forall_mem_nil _, .nil⟩

theorem bound_cons_iff {name : String} {names : List String} :
    Bound (name :: names) ↔ Bindable name ∧ name ∉ names ∧ Bound names := by
  constructor
  · rintro ⟨hbindable, hnodup⟩
    obtain ⟨hname, hnames⟩ := List.forall_mem_cons.1 hbindable
    obtain ⟨hnew, hnodup⟩ := List.nodup_cons.1 hnodup
    exact ⟨hname, hnew, hnames, hnodup⟩
  · rintro ⟨hname, hnew, hnames, hnodup⟩
    exact ⟨List.forall_mem_cons.2 ⟨hname, hnames⟩, List.nodup_cons.2 ⟨hnew, hnodup⟩⟩

theorem Bound.append_singleton {name : String} {names : List String} (h : Bound names)
    (hname : Bindable name) (hnew : name ∉ names) : Bound (names ++ [name]) := by
  refine ⟨?_, List.nodup_append.2 ⟨h.nodup, by simp, ?_⟩⟩
  · intro other hother
    rcases List.mem_append.1 hother with hother | hother
    · exact h.bindable other hother
    · exact List.mem_singleton.1 hother ▸ hname
  · intro other hother _ hsingle
    rw [List.mem_singleton.1 hsingle]
    rintro rfl
    exact hnew hother

section FirstUnbindable

variable {bound before names : List String} {name : String}

theorem firstUnbindable?_cons_of_new (hname : Bindable name) (hnew : name ∉ bound) :
    firstUnbindable? bound (name :: names) = firstUnbindable? (name :: bound) names := by
  rw [firstUnbindable?, if_pos]
  simp [isBindable_iff.2 hname, hnew]

theorem firstUnbindable?_cons_of_not (h : ¬Bindable name ∨ name ∈ bound) :
    firstUnbindable? bound (name :: names) = some name := by
  rw [firstUnbindable?, if_neg]
  rw [Bool.and_eq_true, isBindable_iff, Bool.not_eq_true', List.contains_eq_mem,
    decide_eq_false_iff_not]
  rintro ⟨hname, hnew⟩
  exact h.elim (· hname) hnew

theorem firstUnbindable?_append (hbefore : Bound before) (hnew : ∀ name ∈ before, name ∉ bound) :
    firstUnbindable? bound (before ++ names) =
      firstUnbindable? (before.reverse ++ bound) names := by
  induction before generalizing bound with
  | nil => rfl
  | cons name rest ih =>
    obtain ⟨hname, hfresh, hrest⟩ := bound_cons_iff.1 hbefore
    obtain ⟨hnew, hnewRest⟩ := List.forall_mem_cons.1 hnew
    rw [List.cons_append, firstUnbindable?_cons_of_new hname hnew, ih hrest, List.reverse_cons,
      List.append_assoc, List.singleton_append]
    intro other hother
    rw [List.mem_cons, not_or]
    exact ⟨fun h => hfresh (h ▸ hother), hnewRest other hother⟩

theorem firstUnbindable?_of_bound (h : Bound names) : firstUnbindable? [] names = none := by
  have happend : firstUnbindable? [] (names ++ []) = firstUnbindable? (names.reverse ++ []) [] :=
    firstUnbindable?_append h fun _ _ => List.not_mem_nil
  rwa [List.append_nil] at happend

theorem firstUnbindable?_of_first (hbefore : Bound before) (h : ¬Bindable name ∨ name ∈ before) :
    firstUnbindable? [] (before ++ name :: names) = some name := by
  rw [firstUnbindable?_append hbefore fun _ _ => List.not_mem_nil, firstUnbindable?_cons_of_not]
  simpa using h

end FirstUnbindable

structure Admissible (endpoints : List Endpoint) : Prop where
  names : Bound (endpoints.map (·.name))
  arguments : ∀ e ∈ endpoints, ∃ parts names, e.Takes parts names ∧ Bound names

/-- The error of declaring `e` after `before`. Constructors stand in the order of the checks, and
each rules out the ones above. -/
inductive Fault (before : List Endpoint) (e : Endpoint) : ClientError → Prop
  | invalidName : ¬Bindable e.name → Fault before e (.invalidName e.name)
  | duplicateName : Bindable e.name → e.name ∈ before.map (·.name) →
    Fault before e (.duplicateName e.name)
  | template {source} : Bindable e.name → e.name ∉ before.map (·.name) →
    Template.parse e.path = .error source → Fault before e (.template e.name source)
  | invalidParam {parts good param rest} : Bindable e.name → e.name ∉ before.map (·.name) →
    e.Takes parts (good ++ param :: rest) → Bound good →
    ¬Bindable param ∨ param ∈ good → Fault before e (.invalidParam e.name param)

theorem admissible_nil : Admissible [] :=
  ⟨bound_nil, List.forall_mem_nil _⟩

section Declare

variable {flavor : Flavor} {seen : List String} {before : List Endpoint} {e : Endpoint}

theorem declare_eq_ok {parts : List TemplatePart} {names : List String} {text : String}
    (hname : Bindable e.name) (hnew : e.name ∉ seen) (htakes : e.Takes parts names)
    (hbound : Bound names) (htext : e.declaration flavor = .ok text) :
    declare flavor seen e = .ok text := by
  rw [declare, isBindable_iff.2 hname, if_neg (by simp), if_neg (by simpa using hnew),
    htakes.argumentNames_eq]
  simp only [firstUnbindable?_of_bound hbound, htext, Except.mapError]

theorem Fault.declare_eq_error {err : ClientError} (h : Fault before e err) (flavor : Flavor) :
    declare flavor (before.map (·.name)).reverse e = .error err := by
  cases h with
  | invalidName hname =>
    have hname : isBindable e.name = false := by rwa [← Bool.not_eq_true, isBindable_iff]
    rw [declare, hname]
    rfl
  | duplicateName hname hseen =>
    rw [declare, isBindable_iff.2 hname, if_neg (by simp), if_pos (by simpa using hseen)]
  | template hname hnew hparse =>
    rw [declare, isBindable_iff.2 hname, if_neg (by simp), if_neg (by simpa using hnew),
      Endpoint.argumentNames_eq_error_iff.2 hparse]
  | invalidParam hname hnew htakes hgood hparam =>
    rw [declare, isBindable_iff.2 hname, if_neg (by simp), if_neg (by simpa using hnew),
      htakes.argumentNames_eq]
    simp only [firstUnbindable?_of_first hgood hparam]

theorem exists_fault (hbefore : Admissible before) (h : ¬Admissible (before ++ [e])) :
    ∃ err, Fault before e err := by
  by_cases hname : ¬Bindable e.name
  · exact ⟨_, .invalidName hname⟩
  rw [Classical.not_not] at hname
  by_cases hseen : e.name ∈ before.map (·.name)
  · exact ⟨_, .duplicateName hname hseen⟩
  cases hparts : Template.parse e.path with
  | error source => exact ⟨_, .template hname hseen hparts⟩
  | ok parts =>
    obtain ⟨names, htakes⟩ : ∃ names, e.Takes parts names := ⟨_, hparts, rfl⟩
    rcases good_or_first_bad bound_nil names with hbound | ⟨good, param, rest, rfl, hgood, hbad⟩
    · refine absurd ⟨?_, ?_⟩ h
      · rw [List.map_append]
        exact hbefore.names.append_singleton hname hseen
      · intro d hd
        rcases List.mem_append.1 hd with hd | hd
        · exact hbefore.arguments d hd
        · exact List.mem_singleton.1 hd ▸ ⟨parts, names, htakes, hbound⟩
    · refine ⟨_, .invalidParam hname hseen htakes hgood ?_⟩
      rw [← Classical.not_not (a := param ∈ good), ← Classical.not_and_iff_not_or_not]
      exact fun hparam => hbad (hgood.append_singleton hparam.1 hparam.2)

end Declare

def Generation.after (g : Generation) (log : List LogEvent) (text : String) : Generation :=
  ⟨log ++ g.log, g.result.map (text ++ ·)⟩

theorem Generation.after_nil (g : Generation) : g.after [] "" = g := by
  obtain ⟨log, result⟩ := g
  cases result <;> simp [after, Except.map]

theorem Generation.after_after (g : Generation) (log log' : List LogEvent) (text text' : String) :
    (g.after log' text').after log text = g.after (log ++ log') (text ++ text') := by
  obtain ⟨_, result⟩ := g
  cases result <;> simp [after, Except.map, String.append_assoc]

def functionsText (texts : List String) : String :=
  String.join (texts.map ("\n" ++ ·))

section Declarations

variable {flavor : Flavor} {seen : List String} {before endpoints : List Endpoint}
  {texts : List String}

theorem Admissible.exists_texts (h : Admissible endpoints) (flavor : Flavor) :
    ∃ texts, endpoints.mapM (·.declaration flavor) = .ok texts := by
  apply Except.exists_mapM_eq_ok
  intro e he
  obtain ⟨parts, names, htakes, -⟩ := h.arguments e he
  exact ⟨_, Endpoint.declaration_eq_ok htakes.template flavor⟩

theorem declarations_cons {e : Endpoint} {text : String}
    (h : declare flavor seen e = .ok text) :
    declarations flavor seen (e :: endpoints) =
      (declarations flavor (e.name :: seen) endpoints).after [e.renderedEvent] ("\n" ++ text) := by
  rw [declarations, h]
  rfl

theorem declarations_append (hbefore : Admissible before)
    (hnew : ∀ name ∈ before.map (·.name), name ∉ seen)
    (htexts : before.mapM (·.declaration flavor) = .ok texts) :
    declarations flavor seen (before ++ endpoints) =
      (declarations flavor ((before.map (·.name)).reverse ++ seen) endpoints).after
        (before.map Endpoint.renderedEvent) (functionsText texts) := by
  induction before generalizing seen texts with
  | nil =>
    cases htexts
    exact (Generation.after_nil _).symm
  | cons e rest ih =>
    obtain ⟨text, following, htext, hfollowing, rfl⟩ := Except.mapM_cons_eq_ok.1 htexts
    obtain ⟨hname, hfresh, hnames⟩ := bound_cons_iff.1 hbefore.names
    obtain ⟨⟨_, _, htakes, hbound⟩, hrest⟩ := List.forall_mem_cons.1 hbefore.arguments
    obtain ⟨hnew, hnewRest⟩ := List.forall_mem_cons.1 hnew
    have hseen : ∀ name ∈ rest.map (·.name), name ∉ e.name :: seen := by
      intro name hmem
      rw [List.mem_cons, not_or]
      refine ⟨?_, hnewRest name hmem⟩
      rintro rfl
      exact hfresh hmem
    rw [List.cons_append, declarations_cons (declare_eq_ok hname hnew htakes hbound htext),
      ih ⟨hnames, hrest⟩ hseen hfollowing, Generation.after_after]
    simp [functionsText]

theorem generate_of_admissible (h : Admissible endpoints)
    (htexts : endpoints.mapM (·.declaration flavor) = .ok texts) :
    generate endpoints flavor =
      ⟨endpoints.map Endpoint.renderedEvent ++ [generatedEvent endpoints flavor],
        .ok (header ++ functionsText texts)⟩ := by
  have hall : declarations flavor [] (endpoints ++ []) = _ :=
    declarations_append h (fun _ _ => List.not_mem_nil) htexts
  rw [List.append_nil] at hall
  simp [generate, hall, declarations, Generation.after, Except.map]

theorem generate_of_fault {e : Endpoint} {after : List Endpoint} {err : ClientError}
    (hbefore : Admissible before) (h : Fault before e err) (flavor : Flavor) :
    generate (before ++ e :: after) flavor =
      ⟨before.map Endpoint.renderedEvent, .error err⟩ := by
  obtain ⟨texts, htexts⟩ := hbefore.exists_texts flavor
  have hall : declarations flavor [] (before ++ e :: after) = _ :=
    declarations_append hbefore (fun _ _ => List.not_mem_nil) htexts
  rw [List.append_nil, declarations, h.declare_eq_error] at hall
  simp [generate, hall, Generation.after, Except.map]

theorem admissible_or_exists_fault (endpoints : List Endpoint) :
    Admissible endpoints ∨ ∃ before e after err, endpoints = before ++ e :: after ∧
      Admissible before ∧ Fault before e err := by
  refine (good_or_first_bad admissible_nil endpoints).imp_right ?_
  rintro ⟨before, e, after, rfl, hbefore, hbad⟩
  obtain ⟨err, herr⟩ := exists_fault hbefore hbad
  exact ⟨before, e, after, err, rfl, hbefore, herr⟩

theorem generate_eq_ok_iff {log : List LogEvent} {text : String} :
    generate endpoints flavor = ⟨log, .ok text⟩ ↔
      Admissible endpoints ∧
        log = endpoints.map Endpoint.renderedEvent ++ [generatedEvent endpoints flavor] ∧
        ∃ texts, endpoints.mapM (·.declaration flavor) = .ok texts ∧
          text = header ++ functionsText texts := by
  constructor
  · intro h
    rcases admissible_or_exists_fault endpoints with
      hall | ⟨before, e, after, err, rfl, hbefore, herr⟩
    · obtain ⟨texts, htexts⟩ := hall.exists_texts flavor
      rw [generate_of_admissible hall htexts] at h
      cases h
      exact ⟨hall, rfl, texts, htexts, rfl⟩
    · rw [generate_of_fault hbefore herr] at h
      cases h
  · rintro ⟨hall, rfl, texts, htexts, rfl⟩
    exact generate_of_admissible hall htexts

theorem generate_eq_error_iff {log : List LogEvent} {err : ClientError} :
    generate endpoints flavor = ⟨log, .error err⟩ ↔
      ∃ before e after, endpoints = before ++ e :: after ∧ Admissible before ∧
        Fault before e err ∧ log = before.map Endpoint.renderedEvent := by
  constructor
  · intro h
    rcases admissible_or_exists_fault endpoints with
      hall | ⟨before, e, after, err, rfl, hbefore, herr⟩
    · obtain ⟨texts, htexts⟩ := hall.exists_texts flavor
      rw [generate_of_admissible hall htexts] at h
      cases h
    · rw [generate_of_fault hbefore herr] at h
      cases h
      exact ⟨before, e, after, rfl, hbefore, herr, rfl⟩
  · rintro ⟨before, e, after, rfl, hbefore, herr, rfl⟩
    exact generate_of_fault hbefore herr flavor

theorem exists_texts_of_generate {text : String}
    (h : (generate endpoints flavor).result = .ok text) :
    Admissible endpoints ∧ ∃ texts, endpoints.mapM (·.declaration flavor) = .ok texts ∧
      text = header ++ functionsText texts := by
  have hall : generate endpoints flavor = ⟨(generate endpoints flavor).log, .ok text⟩ := by rw [← h]
  obtain ⟨hadmissible, -, htexts⟩ := generate_eq_ok_iff.1 hall
  exact ⟨hadmissible, htexts⟩

theorem generate_result_eq_ok_iff :
    (∃ text, (generate endpoints flavor).result = .ok text) ↔ Admissible endpoints := by
  constructor
  · rintro ⟨text, htext⟩
    exact (exists_texts_of_generate htext).1
  · intro h
    obtain ⟨texts, htexts⟩ := h.exists_texts flavor
    exact ⟨_, congrArg Generation.result (generate_of_admissible h htexts)⟩

end Declarations

/-- A module is generated exactly of admissible endpoints: the header, then their functions in
order, each of them logged. Otherwise the error is the fault of the first endpoint that has one, and
the endpoints before it are logged. -/
theorem generate_characterised (endpoints : List Endpoint) (flavor : Flavor) :
    ((∃ text, (generate endpoints flavor).result = .ok text) ↔ Admissible endpoints) ∧
      (∀ log text, generate endpoints flavor = ⟨log, .ok text⟩ ↔
        Admissible endpoints ∧
          log = endpoints.map Endpoint.renderedEvent ++ [generatedEvent endpoints flavor] ∧
          ∃ texts, endpoints.mapM (·.declaration flavor) = .ok texts ∧
            text = header ++ functionsText texts) ∧
      (∀ log err, generate endpoints flavor = ⟨log, .error err⟩ ↔
        ∃ before e after, endpoints = before ++ e :: after ∧ Admissible before ∧
          Fault before e err ∧ log = before.map Endpoint.renderedEvent) ∧
      ∀ (e : Endpoint) (parts : List TemplatePart), Template.parse e.path = .ok parts →
        ∃ text, e.declaration flavor = .ok text :=
  ⟨generate_result_eq_ok_iff, fun _ _ => generate_eq_ok_iff, fun _ _ => generate_eq_error_iff,
    fun _ _ h => ⟨_, Endpoint.declaration_eq_ok h flavor⟩⟩

end Client

end ApiContract
