import ApiContract.Proofs.Client.Flavors
import ApiContract.Proofs.Template.Interpolation

namespace ApiContract

open Template

namespace Endpoint

def queryExpression : String :=
  "new URLSearchParams(query)"

def bodyExpression : String :=
  "JSON.stringify(body)"

def afterAddress (e : Endpoint) : String :=
  "`, " ++ e.requestInit ++ ")" ++
    (if e.response.isDeclared then ".then((response) => response.json())" else "") ++ ";\n"

theorem statement_eq (e : Endpoint) (parts : List TemplatePart) :
    e.statement parts = "  return fetch(`" ++ e.address parts ++ e.afterAddress := by
  unfold statement afterAddress
  simp only [String.append_assoc]

def addressParts (e : Endpoint) (parts : List TemplatePart) : List LiteralPart :=
  (pieces parts).flatMap Piece.literalParts ++
    if e.query.isDeclared then [.char '?', .placeholder queryExpression] else []

theorem stands_address {e : Endpoint} {parts : List TemplatePart}
    (h : ∀ name ∈ parameterNames parts, IsName name) :
    Stands (e.address parts).toList (e.addressParts parts) := by
  rw [address, String.toList_append]
  refine (stands_interpolatedPath h).append ?_
  split
  · have hmark : Stands ['?'] [.char '?'] := stands_char (by decide) (by decide) (by decide)
    have hquery : ∀ c ∈ queryExpression.toList, isExpressionChar c = true := by
      rw [← List.all_eq_true]
      decide
    exact hmark.append (stands_placeholder (by decide) hquery)
  · exact stands_nil

theorem filterMap_addressParts (e : Endpoint) (parts : List TemplatePart) :
    (e.addressParts parts).filterMap LiteralPart.expression? =
      parameterNames parts ++ if e.query.isDeclared then [queryExpression] else [] := by
  rw [addressParts, List.filterMap_append, filterMap_literalParts, parameterNames]
  split <;> rfl

theorem queryExpression_mem_iff {e : Endpoint} {parts : List TemplatePart}
    (h : ∀ name ∈ parameterNames parts, IsName name) :
    queryExpression ∈ (e.addressParts parts).filterMap LiteralPart.expression? ↔
      e.query.isDeclared = true := by
  have hname : queryExpression ∉ parameterNames parts := by
    -- there is a blank in it, and none in a name
    intro hmem
    exact absurd ((h queryExpression hmem).2 ' ' (by decide)) (by decide)
  rw [filterMap_addressParts, List.mem_append]
  simp [hname]

theorem bodyExpression_infix {e : Endpoint} (h : e.body.isDeclared = true) :
    bodyExpression.toList <:+: e.afterAddress.toList := by
  have hmember : bodyExpression.toList <:+: ", body: JSON.stringify(body)".toList :=
    ⟨", body: ".toList, [], by decide⟩
  have hinit : ", body: JSON.stringify(body)".toList <:+: e.requestInit.toList := by
    rw [requestInit, if_pos h, String.toList_append, String.toList_append]
    exact List.infix_append _ _ _
  have hafter : e.requestInit.toList <:+: e.afterAddress.toList := by
    simp only [afterAddress, String.toList_append, List.append_assoc]
    exact List.infix_append' _ _ _
  exact (hmember.trans hinit).trans hafter

theorem mem_afterAddress_iff {e : Endpoint} {c : Char} (hc : c = 'J' ∨ c = 'q') :
    c ∈ e.afterAddress.toList ↔
      c ∈ (if e.body.isDeclared then ", body: JSON.stringify(body)" else "").toList := by
  have hmethod : c ∉ e.method.wireName.toList := by
    rcases hc with rfl | rfl <;> cases e.method <;> decide
  have hresponse : c ∉ (if e.response.isDeclared then ".then((response) => response.json())"
      else "").toList := by
    rcases hc with rfl | rfl <;> split <;> decide
  rcases hc with rfl | rfl <;> simp [afterAddress, requestInit, hmethod, hresponse]

theorem bodyExpression_infix_iff (e : Endpoint) :
    bodyExpression.toList <:+: e.afterAddress.toList ↔ e.body.isDeclared = true := by
  refine ⟨fun h => ?_, bodyExpression_infix⟩
  have hletter : 'J' ∈ e.afterAddress.toList := h.subset (by decide)
  rw [mem_afterAddress_iff (.inl rfl)] at hletter
  split at hletter
  · assumption
  · cases hletter

theorem queryExpression_not_infix (e : Endpoint) :
    ¬queryExpression.toList <:+: e.afterAddress.toList := by
  intro h
  have hletter : 'q' ∈ e.afterAddress.toList := h.subset (by decide)
  rw [mem_afterAddress_iff (.inr rfl)] at hletter
  revert hletter
  split <;> decide

end Endpoint

namespace Client

/-- The text of the function of an endpoint, and the scope of its names: which are bound, and that
the statement uses each of them where it is declared. -/
structure WellBound (flavor : Flavor) (e : Endpoint) (parts : List TemplatePart)
    (literal : List LiteralPart) (names : List String) : Prop where
  template : e.template = .ok parts
  checked : e.argumentNames = .ok names
  arguments : names = parameterNames parts ++ (if e.query.isDeclared then ["query"] else []) ++
    (if e.body.isDeclared then ["body"] else [])
  types : (e.argumentTypes parts).length = names.length
  untyped : flavor = .untyped → e.declaration flavor = .ok (e.functionText names "" parts)
  typed : flavor = .typed → e.declaration flavor = .ok (e.functionText
    (List.zipWith (fun name type => name ++ ": " ++ type) names (e.argumentTypes parts))
    e.promise parts)
  statement : e.statement parts = "  return fetch(`" ++ e.address parts ++ e.afterAddress
  distinct : names.Nodup
  unhidden : ∀ name ∈ e.name :: names, name ∉ ["fetch", "JSON", "URLSearchParams"]
  address : ∀ after, readLiteral? ((e.address parts).toList ++ '\x60' :: after) =
    some (literal, after)
  placeholders : literal.filterMap LiteralPart.expression? =
    parameterNames parts ++ if e.query.isDeclared then [Endpoint.queryExpression] else []
  wildcards : ((List.range (parts.count .wildcard)).map wildcardName).Nodup
  collisions : ∀ i < parts.count .wildcard,
    wildcardName i ∈ names ∧ .param (wildcardName i) ∉ parts
  query : Endpoint.queryExpression ∈ literal.filterMap LiteralPart.expression? ↔
    e.query.isDeclared = true
  queryElsewhere : ¬Endpoint.queryExpression.toList <:+: e.afterAddress.toList
  body : Endpoint.bodyExpression.toList <:+: e.afterAddress.toList ↔ e.body.isDeclared = true

theorem wellBound_of_bound {e : Endpoint} {parts : List TemplatePart} {names : List String}
    (hname : Bindable e.name) (htakes : e.Takes parts names) (hbound : Bound names)
    (flavor : Flavor) : WellBound flavor e parts (e.addressParts parts) names := by
  obtain ⟨hparts, rfl⟩ := htakes
  have htwins := Endpoint.twins_of_template hparts
  have hlisted := e.parameters_names parts
  have hleading := List.prefix_append (parameterNames parts)
    ((if e.query.isDeclared then ["query"] else []) ++ if e.body.isDeclared then ["body"] else [])
  rw [← List.append_assoc] at hleading
  have hnames : ∀ name ∈ parameterNames parts, IsName name :=
    fun name hmem => isName_of_mem_parameterNames hparts hmem
  constructor
  case template => exact hparts
  case checked => exact hlisted ▸ htwins.names
  case arguments => rfl
  case types => rw [← hlisted, ← htwins.types, List.length_map, List.length_map]
  case untyped =>
    rintro rfl
    exact hlisted ▸ htwins.untyped
  case typed =>
    rintro rfl
    rw [← hlisted, ← htwins.types, List.zipWith_map, List.zipWith_self]
    exact htwins.typed
  case statement => exact e.statement_eq parts
  case distinct => exact hbound.nodup
  case unhidden => exact List.forall_mem_cons.2 ⟨hname.2, fun n hn => (hbound.bindable n hn).2⟩
  case address => exact (Endpoint.stands_address hnames).readLiteral?_eq
  case placeholders => exact e.filterMap_addressParts parts
  case wildcards => exact nodup_wildcardNames _
  case collisions =>
    intro i hi
    refine ⟨hleading.subset ?_, param_wildcardName_not_mem ?_ hi⟩
    · rw [(parameterNames_perm parts).mem_iff]
      exact List.mem_append_right _ (List.mem_map.2 ⟨i, List.mem_range.2 hi, rfl⟩)
    · exact hbound.nodup.sublist hleading.sublist
  case query => exact Endpoint.queryExpression_mem_iff hnames
  case queryElsewhere => exact e.queryExpression_not_infix
  case body => exact e.bodyExpression_infix_iff

/-- Every function of a generated module is well bound. -/
theorem generate_wellBound {endpoints : List Endpoint} {flavor : Flavor} {text : String}
    (h : (generate endpoints flavor).result = .ok text) :
    (∃ texts, endpoints.mapM (·.declaration flavor) = .ok texts ∧
      text = header ++ functionsText texts) ∧
      ∀ e ∈ endpoints, ∃ parts literal names, WellBound flavor e parts literal names := by
  obtain ⟨hadmissible, htexts⟩ := exists_texts_of_generate h
  refine ⟨htexts, fun e he => ?_⟩
  obtain ⟨parts, names, htakes, hbound⟩ := hadmissible.arguments e he
  have hname : Bindable e.name := hadmissible.names.bindable e.name (List.mem_map_of_mem he)
  exact ⟨parts, e.addressParts parts, names, wellBound_of_bound hname htakes hbound flavor⟩

theorem generate_wellBound_two_wildcards :
    let e : Endpoint := { name := "put", method := .put, path := "/:id/*/*", query := .untyped }
    let parts : List TemplatePart :=
      [.separator, .param "id", .separator, .wildcard, .separator, .wildcard]
    ∃ text, (generate [e] .typed).result = .ok text ∧
      (∃ literal, WellBound .typed e parts literal
        ["id", "wildcard", "wildcard2", "query", "body"]) ∧
      e.declaration .typed = .ok (e.functionText ["id: string", "wildcard: string",
        "wildcard2: string", "query: Record<string, string>", "body: any"] "" parts) := by
  intro e parts
  have htakes : e.Takes parts ["id", "wildcard", "wildcard2", "query", "body"] :=
    ⟨by cbv, by cbv⟩
  have hname : ∀ name ∈ [e.name], Bindable name := by
    simp only [← isBindable_iff]
    decide
  have hbindable : ∀ name ∈ ["id", "wildcard", "wildcard2", "query", "body"], Bindable name := by
    simp only [← isBindable_iff]
    decide
  have hadmissible : Admissible [e] :=
    ⟨⟨hname, by simp⟩, List.forall_mem_singleton.2 ⟨_, _, htakes, hbindable, by decide⟩⟩
  obtain ⟨text, htext⟩ : ∃ text, (generate [e] .typed).result = .ok text :=
    generate_result_eq_ok_iff.2 hadmissible
  obtain ⟨-, hall⟩ := generate_wellBound htext
  obtain ⟨_, literal, names, hwell⟩ := hall e (List.mem_singleton_self e)
  obtain rfl := Except.ok.inj (htakes.template.symm.trans hwell.template)
  obtain rfl := Except.ok.inj (htakes.argumentNames_eq.symm.trans hwell.checked)
  exact ⟨text, htext, ⟨literal, hwell⟩, hwell.typed rfl⟩

end Client

end ApiContract
