/-
  ONE CONTEXT, TWO REQUESTS.

  A GET fetch puts the context into the query of the URL, a POST fetch into a JSON body.  A server
  reads both as a set of fields: the six that have a name and the custom properties, which are
  `properties[k]` in the query and members of `properties` in the body.  `Context.fields` lists
  what there is to convey, and

      query fields  =  the fields that are not empty        (`queryFields_build`)
      body fields   =  all fields                           (`mem_bodyFields`)

  The constructor and the setters leave none of the six empty (`Filled`), but a property may have
  the empty value: the body conveys it and the query does not.  So the two requests agree exactly
  on the contexts without such a property.
-/
import UnleashSdk.Fetcher
import UnleashSdk.Lib.JsonText
import UnleashSdk.Lib.UrlQuery

set_option linter.unusedVariables false

namespace Unleash

/-! ## The contexts of an application -/

/-- What the setters make of a `MutableContext`. -/
inductive MutableContext.Obtainable : MutableContext → Prop where
  | new : Obtainable {}
  | setUserId {c : MutableContext} (h : Obtainable c) (userId : Bytes) :
    Obtainable (c.setUserId userId)
  | setRemoteAddress {c : MutableContext} (h : Obtainable c) (remoteAddress : Bytes) :
    Obtainable (c.setRemoteAddress remoteAddress)
  | setCurrentTime {c : MutableContext} (h : Obtainable c) (localTm : Tm) (offsetSeconds : Int) :
    Obtainable (c.setCurrentTime localTm offsetSeconds)
  | setProperty {c : MutableContext} (h : Obtainable c) (key value : Bytes) :
    Obtainable (c.setProperty key value)

/-- What the setters and `updateMutableContext` make of a constructed `Context`. -/
inductive Context.Obtainable : Context → Prop where
  | make (appName environment sessionId : Bytes) (resolveSessionId : Nat) :
    Obtainable (Context.make appName environment sessionId resolveSessionId)
  | setUserId {c : Context} (h : Obtainable c) (userId : Bytes) : Obtainable (c.setUserId userId)
  | setRemoteAddress {c : Context} (h : Obtainable c) (remoteAddress : Bytes) :
    Obtainable (c.setRemoteAddress remoteAddress)
  | setCurrentTime {c : Context} (h : Obtainable c) (localTm : Tm) (offsetSeconds : Int) :
    Obtainable (c.setCurrentTime localTm offsetSeconds)
  | setProperty {c : Context} (h : Obtainable c) (key value : Bytes) :
    Obtainable (c.setProperty key value)
  | updateMutableContext {c : Context} (h : Obtainable c) {m : MutableContext}
    (hm : m.Obtainable) : Obtainable (c.updateMutableContext m)

/-- None of the named fields is the empty string. -/
structure Filled (ctx : Context) : Prop where
  appName : ctx.appName ≠ []
  sessionId : ctx.sessionId ≠ []
  environment : ctx.environment ≠ some []
  currentTime : ctx.mutableContext.currentTime ≠ some []

theorem getISO8601CurrentTimeStamp_ne_nil (localTm : Tm) (offsetSeconds : Int) :
    getISO8601CurrentTimeStamp localTm offsetSeconds ≠ [] := by
  have hcolon : bytes ":" ≠ [] := by decide
  simp [getISO8601CurrentTimeStamp, hcolon]

/-- A custom property is no timestamp. -/
theorem setProperty_currentTime (c : MutableContext) (key value : Bytes) :
    (c.setProperty key value).currentTime = c.currentTime := by
  unfold MutableContext.setProperty
  split <;> rfl

theorem MutableContext.Obtainable.currentTime {c : MutableContext} (h : c.Obtainable) :
    c.currentTime ≠ some [] := by
  induction h with
  | new => simp
  | setUserId h userId ih => exact ih
  | setRemoteAddress h remoteAddress ih => exact ih
  | setCurrentTime h localTm offsetSeconds ih =>
    exact fun he => getISO8601CurrentTimeStamp_ne_nil localTm offsetSeconds (Option.some.inj he)
  | setProperty h key value ih =>
    rw [setProperty_currentTime]
    exact ih

theorem Context.Obtainable.filled {c : Context} (h : c.Obtainable) : Filled c := by
  induction h with
  | make appName environment sessionId resolveSessionId =>
    refine ⟨?_, ?_, MutableContext.nonEmpty_ne_nil environment, by simp [Context.make]⟩
    · show (if appName.isEmpty then defaultAppName else appName) ≠ []
      split
      · decide
      · rename_i hne
        simpa using hne
    · show (if sessionId.isEmpty then Decimal.natDigits resolveSessionId else sessionId) ≠ []
      split
      · exact Decimal.natDigits_ne_nil resolveSessionId
      · rename_i hne
        simpa using hne
  | setUserId h userId ih => exact ⟨ih.appName, ih.sessionId, ih.environment, ih.currentTime⟩
  | setRemoteAddress h remoteAddress ih =>
    exact ⟨ih.appName, ih.sessionId, ih.environment, ih.currentTime⟩
  | setCurrentTime h localTm offsetSeconds ih =>
    exact ⟨ih.appName, ih.sessionId, ih.environment, fun he =>
      getISO8601CurrentTimeStamp_ne_nil localTm offsetSeconds (Option.some.inj he)⟩
  | setProperty h key value ih =>
    refine ⟨ih.appName, ih.sessionId, ih.environment, ?_⟩
    show (MutableContext.setProperty _ key value).currentTime ≠ some []
    rw [setProperty_currentTime]
    exact ih.currentTime
  | updateMutableContext h hm ih =>
    exact ⟨ih.appName, ih.sessionId, ih.environment, hm.currentTime⟩

/-! ## What a server reads -/

/-- A field of the context: one with a name, or a custom property. -/
inductive ContextField where
  | named (name : Bytes)
  | property (key : Bytes)
  deriving DecidableEq

/-- In a query, `properties[k]` is property `k`. -/
def readQueryKey (key : Bytes) : ContextField :=
  if (bytes "properties[").isPrefixOf key && (bytes "]").isSuffixOf key then
    .property (key.drop (bytes "properties[").length).dropLast
  else .named key

def queryFields (query : Bytes) : List (ContextField × Bytes) :=
  (UrlQuery.parse query).map fun p => (readQueryKey p.1, p.2)

/-- A custom property in a body. -/
def propertyField (m : Bytes × Json) : List (ContextField × Bytes) :=
  match m.2 with
  | .str value => [(.property m.1, value)]
  | _ => []

/-- In a body, the strings are the named fields, and the members of `properties` the others. -/
def memberFields (m : Bytes × Json) : List (ContextField × Bytes) :=
  match m.2 with
  | .str value => [(.named m.1, value)]
  | .obj properties =>
    if m.1 = bytes "properties" then properties.flatMap propertyField else []
  | _ => []

def bodyFields (root : Json) : List (ContextField × Bytes) :=
  match root.find (bytes "context") with
  | some (.obj members) => members.flatMap memberFields
  | _ => []

/-! ## What a context says -/

/-- A field that is there if it is set. -/
def ifSet (name : Bytes) (value : Option Bytes) : List (Bytes × Bytes) :=
  value.toList.map fun v => (name, v)

/-- The fields with a name. -/
def Context.namedFields (ctx : Context) : List (Bytes × Bytes) :=
  [(bytes "appName", ctx.appName), (bytes "sessionId", ctx.sessionId)] ++
    ifSet (bytes "environment") ctx.environment ++
    ifSet (bytes "userId") ctx.mutableContext.userId ++
    ifSet (bytes "remoteAddress") ctx.mutableContext.remoteAddress ++
    ifSet (bytes "currentTime") ctx.mutableContext.currentTime

/-- All fields. -/
def Context.fields (ctx : Context) : List (ContextField × Bytes) :=
  ctx.namedFields.map (fun p => (.named p.1, p.2)) ++
    ctx.mutableContext.properties.map fun p => (.property p.1, p.2)

theorem mem_ifSet {name : Bytes} {value : Option Bytes} {p : Bytes × Bytes} :
    p ∈ ifSet name value ↔ p.1 = name ∧ value = some p.2 := by
  obtain ⟨n, v⟩ := p
  simp only [ifSet, List.mem_map, Option.mem_toList, Prod.mk.injEq]
  constructor
  · rintro ⟨w, hw, rfl, rfl⟩
    exact ⟨rfl, hw⟩
  · rintro ⟨rfl, hv⟩
    exact ⟨v, hv, rfl, rfl⟩

/-- The six with a name are not empty. -/
theorem Filled.namedFields_ne_nil {ctx : Context} (h : Filled ctx) {p : Bytes × Bytes}
    (hp : p ∈ ctx.namedFields) : p.2 ≠ [] := by
  have huser := ctx.mutableContext.userId_ne_nil
  have hremote := ctx.mutableContext.remoteAddress_ne_nil
  simp only [Context.namedFields, List.mem_append, mem_ifSet, List.mem_cons, List.not_mem_nil,
    or_false] at hp
  rcases hp with ((((rfl | rfl) | hp) | hp) | hp) | hp
  · exact h.appName
  · exact h.sessionId
  · exact fun he => h.environment (he ▸ hp.2)
  · exact fun he => huser (he ▸ hp.2)
  · exact fun he => hremote (he ▸ hp.2)
  · exact fun he => h.currentTime (he ▸ hp.2)

/-! ## The query -/

theorem isUnreserved_safe : UrlQuery.Safe isUnreserved where
  percent := by decide
  ampersand := by decide
  equals := by decide

theorem urlEncodeContext_eq (value : Bytes) :
    urlEncodeContext value = UrlQuery.percentEncode isUnreserved value := rfl

/-- The key of a custom property in the query. -/
def propertyKey (key : Bytes) : Bytes := bytes "properties[" ++ key ++ bytes "]"

/-- The fields as `buildContextQuery` writes them, empty ones included. -/
def queryPairs (ctx : Context) : List (Bytes × Bytes) :=
  ctx.namedFields ++ ctx.mutableContext.properties.map fun p => (propertyKey p.1, p.2)

/-- The fields that are not empty. -/
def nonEmptyPairs (ps : List (Bytes × Bytes)) : List (Bytes × Bytes) :=
  ps.filter fun p => !p.2.isEmpty

/-- Fields after those of `ps`. -/
theorem addQuery_render (ps : List (Bytes × Bytes)) (key value : Bytes) :
    addQuery (UrlQuery.render isUnreserved (nonEmptyPairs ps)) key value =
      UrlQuery.render isUnreserved (nonEmptyPairs (ps ++ [(key, value)])) := by
  unfold addQuery nonEmptyPairs
  rw [List.filter_append]
  split
  · rename_i hempty
    simp [hempty]
  · rename_i hne
    rw [List.filter_cons_of_pos (by simpa using hne), List.filter_nil, ← UrlQuery.add_render]
    simp [UrlQuery.add, UrlQuery.renderField, urlEncodeContext_eq]

theorem addOptionalQuery_render (ps : List (Bytes × Bytes)) (key : Bytes) (value : Option Bytes) :
    addOptionalQuery (UrlQuery.render isUnreserved (nonEmptyPairs ps)) key value =
      UrlQuery.render isUnreserved (nonEmptyPairs (ps ++ ifSet key value)) := by
  cases value with
  | none => simp [addOptionalQuery, ifSet]
  | some value => exact addQuery_render ps key value

/-- A property without a key is skipped before its value is looked at. -/
theorem addProperties_render (properties : List (Bytes × Bytes)) (ps : List (Bytes × Bytes)) :
    properties.foldl (fun query p =>
        if p.1.isEmpty || p.2.isEmpty then query
        else addQuery query (bytes "properties[" ++ p.1 ++ bytes "]") p.2)
      (UrlQuery.render isUnreserved (nonEmptyPairs ps)) =
      UrlQuery.render isUnreserved (nonEmptyPairs
        (ps ++ (properties.filter fun p => !p.1.isEmpty).map fun p => (propertyKey p.1, p.2))) := by
  induction properties generalizing ps with
  | nil => simp
  | cons p properties ih =>
    rw [List.foldl_cons]
    by_cases hkey : p.1 = []
    · rw [List.filter_cons_of_neg (by simp [hkey]), ← ih]
      simp [hkey]
    · have hstep : (if p.1.isEmpty || p.2.isEmpty then
            UrlQuery.render isUnreserved (nonEmptyPairs ps)
          else addQuery (UrlQuery.render isUnreserved (nonEmptyPairs ps))
            (bytes "properties[" ++ p.1 ++ bytes "]") p.2) =
          UrlQuery.render isUnreserved (nonEmptyPairs (ps ++ [(propertyKey p.1, p.2)])) := by
        rw [← addQuery_render, List.isEmpty_eq_false_iff.mpr hkey, Bool.false_or]
        -- the empty value is tested twice
        unfold addQuery
        split <;> rfl
      rw [hstep, ih, List.filter_cons_of_pos (by simpa using hkey), List.append_assoc]
      rfl

/-- The query is a rendering of the fields that are not empty. -/
theorem buildContextQuery_eq (ctx : Context) :
    buildContextQuery ctx = UrlQuery.render isUnreserved (nonEmptyPairs (queryPairs ctx)) := by
  have hstart : ([] : Bytes) = UrlQuery.render isUnreserved (nonEmptyPairs []) := rfl
  have hkeys : ctx.mutableContext.properties.filter (fun p => !p.1.isEmpty) =
      ctx.mutableContext.properties := by
    rw [List.filter_eq_self]
    intro p hp
    have hok := ctx.mutableContext.keys_ok p hp
    rw [isPropertyKey, Bool.and_eq_true] at hok
    exact hok.1
  unfold buildContextQuery
  rw [hstart]
  simp only [addQuery_render, addOptionalQuery_render]
  rw [addProperties_render, hkeys]
  rfl

theorem readQueryKey_propertyKey (key : Bytes) :
    readQueryKey (propertyKey key) = .property key := by
  have hprefix : (bytes "properties[").isPrefixOf (propertyKey key) = true := by
    rw [List.isPrefixOf_iff_prefix, propertyKey, List.append_assoc]
    exact List.prefix_append _ _
  have hsuffix : (bytes "]").isSuffixOf (propertyKey key) = true := by
    rw [List.isSuffixOf_iff_suffix]
    exact List.suffix_append _ _
  have hbracket : bytes "]" = [0x5D] := rfl
  rw [readQueryKey, hprefix, hsuffix, Bool.and_self, if_pos rfl, propertyKey, List.append_assoc,
    List.drop_left, hbracket, List.dropLast_concat]

/-- None of the six names looks like a property. -/
theorem readQueryKey_named {ctx : Context} {p : Bytes × Bytes} (h : p ∈ ctx.namedFields) :
    readQueryKey p.1 = .named p.1 := by
  have hnames : ∀ name ∈ ([bytes "appName", bytes "sessionId", bytes "environment",
      bytes "userId", bytes "remoteAddress", bytes "currentTime"] : List Bytes),
      readQueryKey name = .named name := by
    decide
  apply hnames
  simp only [Context.namedFields, List.mem_append, mem_ifSet, List.mem_cons, List.not_mem_nil,
    or_false] at h
  rcases h with ((((rfl | rfl) | h) | h) | h) | h <;> simp [*]

/-- **The query.**  A server reads the fields that are not empty out of it. -/
theorem queryFields_build (ctx : Context) :
    queryFields (buildContextQuery ctx) = ctx.fields.filter fun p => !p.2.isEmpty := by
  rw [queryFields, buildContextQuery_eq, UrlQuery.parse_render isUnreserved_safe, nonEmptyPairs,
    queryPairs, List.filter_append, List.map_append, Context.fields, List.filter_append]
  congr 1
  · rw [List.filter_map]
    refine List.map_congr_left fun p hp => ?_
    rw [readQueryKey_named (List.mem_filter.mp hp).1]
  · rw [List.filter_map, List.filter_map, List.map_map]
    refine List.map_congr_left fun p hp => ?_
    exact congrArg (·, p.2) (readQueryKey_propertyKey p.1)

/-! ## The body -/

/-- A pair as a string member. -/
def strMember (p : Bytes × Bytes) : Bytes × Json := (p.1, .str p.2)

theorem strMember_keys (ps : List (Bytes × Bytes)) :
    (ps.map strMember).map Prod.fst = ps.map Prod.fst := by
  rw [List.map_map]
  rfl

/-- A normal object of strings. -/
theorem strMembers_normal {ps : List (Bytes × Bytes)} (hps : (ps.map Prod.fst).Nodup) :
    (Json.obj (Json.assignAll (ps.map strMember))).Normal := by
  refine Json.normal_assignAll (by rwa [strMember_keys]) fun m hm => ?_
  obtain ⟨p, -, rfl⟩ := List.mem_map.mp hm
  exact trivial

theorem propertiesJson_eq {ps : ContextProperties} {v : Json} (h : propertiesJson ps = some v) :
    v = .obj (Json.assignAll (ps.map strMember)) := by
  unfold propertiesJson at h
  split at h
  · cases h
  · rename_i hne
    have hmap : ps.map strMember ≠ [] := by simpa using hne
    rw [← Option.some.inj h]
    exact Json.setAll_null hmap

/-- The members are the named fields and, after them, the properties as one. -/
theorem contextFields_eq (ctx : Context) :
    contextFields ctx = ctx.namedFields.map strMember ++
      optionalField (bytes "properties") (propertiesJson ctx.mutableContext.properties) := by
  have hopt : ∀ (name : Bytes) (value : Option Bytes),
      optionalField name (value.map .str) = (ifSet name value).map strMember := by
    intro name value
    cases value <;> rfl
  simp only [contextFields, Context.namedFields, hopt, List.map_append]
  rfl

theorem mem_optionalField {key : Bytes} {value : Option Json} {m : Bytes × Json} :
    m ∈ optionalField key value ↔ m.1 = key ∧ value = some m.2 := by
  obtain ⟨k, v⟩ := m
  cases value with
  | none => simp [optionalField]
  | some w =>
    simp only [optionalField, List.mem_singleton, Prod.mk.injEq, Option.some.injEq]
    exact and_congr_right fun _ => eq_comm

theorem contextJson_normal (ctx : Context) : (contextJson ctx).Normal := by
  rw [contextJson_eq, Json.setAll_empty]
  refine Json.normal_assignAll (contextFields_keys_nodup ctx) fun m hm => ?_
  rw [contextFields_eq] at hm
  rcases List.mem_append.mp hm with hm | hm
  · obtain ⟨p, -, rfl⟩ := List.mem_map.mp hm
    exact trivial
  · rw [propertiesJson_eq (mem_optionalField.mp hm).2]
    exact strMembers_normal ctx.mutableContext.keys_nodup

/-- What is read off an object that was filled, member by member. -/
theorem mem_flatMap_assignAll {β γ : Type} {l : List (Bytes × β)} (hl : (l.map Prod.fst).Nodup)
    (read : Bytes × β → List γ) (x : γ) :
    x ∈ (Json.assignAll l).flatMap read ↔ x ∈ l.flatMap read := by
  simp only [List.mem_flatMap, Json.mem_assignAll hl]

theorem mem_propertyFields {ps : ContextProperties} (hps : (ps.map Prod.fst).Nodup)
    (x : ContextField × Bytes) :
    x ∈ (optionalField (bytes "properties") (propertiesJson ps)).flatMap memberFields ↔
      x ∈ ps.map fun p => (.property p.1, p.2) := by
  cases hv : propertiesJson ps with
  | none =>
    have hnil : ps = [] := by
      unfold propertiesJson at hv
      split at hv
      · rename_i hempty
        exact List.isEmpty_iff.mp hempty
      · cases hv
    rw [hnil]
    exact Iff.rfl
  | some v =>
    have hread : memberFields (bytes "properties", v) =
        (Json.assignAll (ps.map strMember)).flatMap propertyField := by
      simp only [propertiesJson_eq hv, memberFields, if_true]
    have hpairs : (ps.map strMember).flatMap propertyField =
        ps.map fun p => (ContextField.property p.1, p.2) := by
      rw [List.flatMap_map]
      exact List.map_eq_flatMap.symm
    rw [optionalField, List.flatMap_singleton, hread,
      mem_flatMap_assignAll (by rwa [strMember_keys]), hpairs]

/-- **The body.**  A server reads all fields out of it. -/
theorem mem_bodyFields (ctx : Context) (x : ContextField × Bytes) :
    x ∈ bodyFields (Json.null.set (bytes "context") (contextJson ctx)) ↔ x ∈ ctx.fields := by
  have hfind : bodyFields (Json.null.set (bytes "context") (contextJson ctx)) =
      (Json.assignAll (contextFields ctx)).flatMap memberFields := by
    rw [contextJson_eq, Json.setAll_empty]
    rfl
  have hnamed : (ctx.namedFields.map strMember).flatMap memberFields =
      ctx.namedFields.map fun p => (ContextField.named p.1, p.2) := by
    rw [List.flatMap_map]
    exact List.map_eq_flatMap.symm
  rw [hfind, mem_flatMap_assignAll (contextFields_keys_nodup ctx), contextFields_eq,
    List.flatMap_append, List.mem_append, hnamed,
    mem_propertyFields ctx.mutableContext.keys_nodup, Context.fields, List.mem_append]

/-- The body of a context whose strings are UTF-8, as a server parses it. -/
theorem parse_body (J : JsonLib) {ctx : Context} (hutf8 : ctx.utf8 = true) :
    ∃ body, encodeContextRequestBody J ctx = some body ∧
      J.parse body = some (Json.null.set (bytes "context") (contextJson ctx)) := by
  obtain ⟨body, hbody⟩ :=
    Option.isSome_iff_exists.mp ((encodeContext_isSome J ctx).trans hutf8)
  have hnormal : (Json.null.set (bytes "context") (contextJson ctx)).Normal :=
    ⟨List.pairwise_singleton _ _, contextJson_normal ctx, trivial⟩
  exact ⟨body, hbody, J.parse_dump hnormal hbody⟩

/-! ## Both requests -/

/-- The fields that a server reads are the same two sets, up to empty properties. -/
theorem mem_queryFields {ctx : Context} (h : ctx.Obtainable) (field : ContextField)
    (value : Bytes) : (field, value) ∈ queryFields (buildContextQuery ctx) ↔
      (field, value) ∈ ctx.fields ∧ ¬ ((∃ key, field = .property key) ∧ value = []) := by
  have hfilled := h.filled
  rw [queryFields_build, List.mem_filter, Bool.not_eq_true', List.isEmpty_eq_false_iff]
  refine and_congr_right fun hmem => ⟨fun hne he => hne he.2, fun hno he => ?_⟩
  subst he
  -- an empty field is not one of the six
  rcases List.mem_append.mp hmem with hmem | hmem
  · obtain ⟨p, hp, heq⟩ := List.mem_map.mp hmem
    have hempty : p.2 = [] := congrArg Prod.snd heq
    exact hfilled.namedFields_ne_nil hp hempty
  · obtain ⟨p, -, heq⟩ := List.mem_map.mp hmem
    exact hno ⟨⟨p.1, (congrArg Prod.fst heq).symm⟩, rfl⟩

/-- The fields are the same exactly if no property is empty. -/
theorem queryFields_complete {ctx : Context} (h : ctx.Obtainable) :
    (∀ field value, (field, value) ∈ queryFields (buildContextQuery ctx) ↔
        (field, value) ∈ ctx.fields) ↔
      ∀ p ∈ ctx.mutableContext.properties, p.2 ≠ [] := by
  constructor
  · intro hall p hp hempty
    have hfield : (.property p.1, p.2) ∈ ctx.fields :=
      List.mem_append_right _ (List.mem_map_of_mem hp)
    have hquery := (hall _ _).mpr hfield
    exact ((mem_queryFields h _ _).mp hquery).2 ⟨⟨p.1, rfl⟩, hempty⟩
  · intro hne field value
    rw [mem_queryFields h]
    refine and_iff_left_of_imp fun hmem => ?_
    rintro ⟨⟨key, rfl⟩, rfl⟩
    rcases List.mem_append.mp hmem with hmem | hmem
    · obtain ⟨p, -, heq⟩ := List.mem_map.mp hmem
      cases heq
    · obtain ⟨p, hp, heq⟩ := List.mem_map.mp hmem
      exact hne p hp (congrArg Prod.snd heq)

/-- **One context, two requests.**  For every context that an application can make of UTF-8
    strings the body is there and a server that reads it finds all fields of the context; one
    that reads the query finds the same fields but the empty properties.  So the two agree
    exactly if no property is empty. -/
theorem requests_convey (J : JsonLib) (ctx : Context) (h : ctx.Obtainable)
    (hutf8 : ctx.utf8 = true) :
    ∃ body j, encodeContextRequestBody J ctx = some body ∧ J.parse body = some j ∧
      (∀ field value, (field, value) ∈ bodyFields j ↔ (field, value) ∈ ctx.fields) ∧
      (∀ field value, (field, value) ∈ queryFields (buildContextQuery ctx) ↔
        (field, value) ∈ bodyFields j ∧ ¬ ((∃ key, field = .property key) ∧ value = [])) ∧
      ((∀ field value, (field, value) ∈ queryFields (buildContextQuery ctx) ↔
          (field, value) ∈ bodyFields j) ↔
        ∀ p ∈ ctx.mutableContext.properties, p.2 ≠ []) := by
  obtain ⟨body, hbody, hparse⟩ := parse_body J hutf8
  refine ⟨body, _, hbody, hparse, fun field value => mem_bodyFields ctx _, ?_, ?_⟩
  · intro field value
    rw [mem_bodyFields]
    exact mem_queryFields h field value
  · simp only [mem_bodyFields]
    exact queryFields_complete h

/-- A user with a plan. -/
def goldContext : Context :=
  ((Context.make (bytes "app") (bytes "") (bytes "s=1") 7).setUserId (bytes "u&1")).setProperty
    (bytes "plan") (bytes "gold %")

example : buildContextQuery goldContext =
    bytes "?appName=app&sessionId=s%3D1&userId=u%261&properties%5Bplan%5D=gold%20%25" := by
  decide

/-- Both requests of `goldContext` say the same. -/
theorem requests_convey_gold :
    ∃ body j, encodeContextRequestBody JsonText.compact goldContext = some body ∧
      JsonText.compact.parse body = some j ∧
      ∀ field value, (field, value) ∈ queryFields (buildContextQuery goldContext) ↔
        (field, value) ∈ bodyFields j := by
  have hobtainable : goldContext.Obtainable := ((Context.Obtainable.make _ _ _ _).setUserId
    _).setProperty _ _
  obtain ⟨body, j, hbody, hparse, -, -, hiff⟩ :=
    requests_convey JsonText.compact goldContext hobtainable (by decide)
  exact ⟨body, j, hbody, hparse, hiff.mpr (by decide)⟩

/-- A user with a plan that has no name. -/
def emptyPlanContext : Context :=
  (Context.make (bytes "app") (bytes "") (bytes "1") 7).setProperty (bytes "plan") (bytes "")

/-- The body of `emptyPlanContext` conveys its property and the query does not. -/
theorem requests_differ : emptyPlanContext.Obtainable ∧ emptyPlanContext.utf8 = true ∧
    ∃ body j, encodeContextRequestBody JsonText.compact emptyPlanContext = some body ∧
      JsonText.compact.parse body = some j ∧
      (.property (bytes "plan"), []) ∈ bodyFields j ∧
      (.property (bytes "plan"), []) ∉ queryFields (buildContextQuery emptyPlanContext) := by
  refine ⟨(Context.Obtainable.make _ _ _ _).setProperty _ _, by decide, ?_⟩
  obtain ⟨body, hbody, hparse⟩ :=
    parse_body JsonText.compact (show emptyPlanContext.utf8 = true by decide)
  refine ⟨body, _, hbody, hparse, (mem_bodyFields _ _).mpr (by decide), ?_⟩
  rw [queryFields_build]
  decide

end Unleash
