/-
  THE QUERY, TO THE LETTER.

  `buildContextQuery` promises nothing about the strings that it is given: any bytes may be in a
  field, separators and brackets included.  So it is studied on fields without any promise
  (`RawContext`), where nothing but the code itself protects the query:

      fields  ──buildQuery──▶  ?k₁=v₁&…&kₙ=vₙ  ──split, decode──▶  the fields that are not empty

  (`parse_buildQuery`).  A `Context` leaves none of its six named fields empty, so its query says
  all of them and the properties that have a value (`QueryOf`), and whoever knows the query knows
  these fields (`QueryOf.agree`).
-/
import UnleashSdk.ContextRequests

set_option linter.unusedVariables false

namespace Unleash

/-! ## Fields without a promise -/

structure RawContext where
  appName : Bytes
  sessionId : Bytes
  environment : Option Bytes
  userId : Option Bytes
  remoteAddress : Option Bytes
  currentTime : Option Bytes
  properties : ContextProperties

def Context.raw (ctx : Context) : RawContext where
  appName := ctx.appName
  sessionId := ctx.sessionId
  environment := ctx.environment
  userId := ctx.mutableContext.userId
  remoteAddress := ctx.mutableContext.remoteAddress
  currentTime := ctx.mutableContext.currentTime
  properties := ctx.mutableContext.properties

namespace RawContext

variable (c : RawContext)

/-- `buildContextQuery` reads these fields and nothing else of its context. -/
def buildQuery : Bytes :=
  let query := addQuery [] (bytes "appName") c.appName
  let query := addQuery query (bytes "sessionId") c.sessionId
  let query := addOptionalQuery query (bytes "environment") c.environment
  let query := addOptionalQuery query (bytes "userId") c.userId
  let query := addOptionalQuery query (bytes "remoteAddress") c.remoteAddress
  let query := addOptionalQuery query (bytes "currentTime") c.currentTime
  c.properties.foldl
    (fun query p =>
      if p.1.isEmpty || p.2.isEmpty then query
      else addQuery query (bytes "properties[" ++ p.1 ++ bytes "]") p.2) query

/-- The fields with a name. -/
def namedFields : List (Bytes × Bytes) :=
  [(bytes "appName", c.appName), (bytes "sessionId", c.sessionId)] ++
    ifSet (bytes "environment") c.environment ++ ifSet (bytes "userId") c.userId ++
    ifSet (bytes "remoteAddress") c.remoteAddress ++ ifSet (bytes "currentTime") c.currentTime

/-- The properties that have a key and a value. -/
def spokenProperties : ContextProperties :=
  c.properties.filter fun p => !p.1.isEmpty && !p.2.isEmpty

/-- What the query is to say, in order. -/
def fields : List (Bytes × Bytes) :=
  c.namedFields ++ c.spokenProperties.map fun p => (propertyKey p.1, p.2)

/-- None of the named fields is the empty string. -/
def Filled : Prop := ∀ p ∈ c.namedFields, p.2 ≠ []

/-- Both say the same. -/
structure Agrees (c d : RawContext) : Prop where
  appName : c.appName = d.appName
  sessionId : c.sessionId = d.sessionId
  environment : c.environment = d.environment
  userId : c.userId = d.userId
  remoteAddress : c.remoteAddress = d.remoteAddress
  currentTime : c.currentTime = d.currentTime
  properties : c.spokenProperties = d.spokenProperties

/-! ## From the fields to the query and back -/

theorem buildQuery_eq : c.buildQuery = UrlQuery.render isUnreserved (nonEmptyPairs
    (c.namedFields ++ (c.properties.filter fun p => !p.1.isEmpty).map fun p =>
      (propertyKey p.1, p.2))) := by
  have hstart : ([] : Bytes) = UrlQuery.render isUnreserved (nonEmptyPairs []) := rfl
  unfold buildQuery
  rw [hstart]
  simp only [addQuery_render, addOptionalQuery_render]
  rw [addProperties_render]
  rfl

/-- A query says the named fields that are not empty, and the properties. -/
theorem parse_buildQuery : UrlQuery.parse c.buildQuery =
    nonEmptyPairs c.namedFields ++ c.spokenProperties.map fun p => (propertyKey p.1, p.2) := by
  rw [buildQuery_eq, UrlQuery.parse_render isUnreserved_safe, nonEmptyPairs, List.filter_append,
    List.filter_map, List.filter_filter, spokenProperties]
  congr 3
  funext p
  exact Bool.and_comm _ _

theorem Filled.nonEmptyPairs {c : RawContext} (h : c.Filled) :
    nonEmptyPairs c.namedFields = c.namedFields :=
  List.filter_eq_self.mpr fun p hp => by simpa using h p hp

end RawContext

/-- `query` is a well-formed query of exactly the fields of `c`. -/
structure QueryOf (c : RawContext) (query : Bytes) : Prop where
  shape : ∃ rest, query = 0x3F :: rest ∧ 0x3F ∉ rest ∧
    ∀ part ∈ rest.splitOn 0x26, ∃ key value, part = key ++ 0x3D :: value ∧
      UrlQuery.Escaped isUnreserved key ∧ UrlQuery.Escaped isUnreserved value
  decoded : UrlQuery.parse query = c.fields

/-- The question mark is not one of the bytes that are left as they are. -/
theorem no_question_mark (p : Bytes × Bytes) : 0x3F ∉ UrlQuery.renderField isUnreserved p := by
  have hno := UrlQuery.not_mem_percentEncode (show isUnreserved 0x3F = false by decide)
    (by decide) (by decide)
  simp [UrlQuery.renderField, hno]

theorem RawContext.Filled.queryOf {c : RawContext} (h : c.Filled) : QueryOf c c.buildQuery := by
  have hdecoded : UrlQuery.parse c.buildQuery = c.fields := by
    rw [c.parse_buildQuery, h.nonEmptyPairs, fields]
  have hrender : c.buildQuery = UrlQuery.render isUnreserved c.fields := by
    rw [← hdecoded, c.buildQuery_eq, UrlQuery.parse_render isUnreserved_safe]
  have hne : c.fields ≠ [] := by simp [fields, namedFields]
  refine ⟨⟨[0x26].intercalate (c.fields.map (UrlQuery.renderField isUnreserved)), ?_, ?_, ?_⟩,
    hdecoded⟩
  · rw [hrender, UrlQuery.render, if_neg (by simpa using hne)]
  · intro hmem
    rcases UrlQuery.mem_intercalate hmem with hsep | ⟨part, hpart, hmem⟩
    · exact absurd hsep (by decide)
    · obtain ⟨p, -, rfl⟩ := List.mem_map.mp hpart
      exact no_question_mark p hmem
  · rw [List.splitOn_intercalate]
    · intro part hpart
      obtain ⟨p, -, rfl⟩ := List.mem_map.mp hpart
      exact ⟨_, _, rfl, UrlQuery.escaped_percentEncode _ _, UrlQuery.escaped_percentEncode _ _⟩
    · intro part hpart
      obtain ⟨p, -, rfl⟩ := List.mem_map.mp hpart
      exact UrlQuery.not_mem_renderField isUnreserved_safe p
    · simpa using hne

/-! ## What the fields tell -/

theorem lookup_ifSet (name key : Bytes) (value : Option Bytes) (rest : List (Bytes × Bytes)) :
    (ifSet name value ++ rest).lookup key =
      if key = name then value.or (rest.lookup key) else rest.lookup key := by
  cases value with
  | none => simp [ifSet]
  | some v =>
    by_cases h : key = name
    · simp [ifSet, h]
    · have hbeq : (key == name) = false := by simpa using h
      simp [ifSet, h, hbeq, List.lookup_cons]

/-- The key of a property in a query, as opposed to a name. -/
def isPropertyQueryKey (key : Bytes) : Bool := (bytes "properties[").isPrefixOf key

theorem isPropertyQueryKey_propertyKey (key : Bytes) :
    isPropertyQueryKey (propertyKey key) = true := by
  rw [isPropertyQueryKey, List.isPrefixOf_iff_prefix, propertyKey, List.append_assoc]
  exact List.prefix_append _ _

theorem propertyKey_injective : Function.Injective propertyKey := fun a b h => by
  have hread := (readQueryKey_propertyKey a).symm.trans
    ((congrArg readQueryKey h).trans (readQueryKey_propertyKey b))
  exact ContextField.property.inj hread

theorem lookup_properties {key : Bytes} (hkey : isPropertyQueryKey key = false)
    (ps : ContextProperties) : (ps.map fun p => (propertyKey p.1, p.2)).lookup key = none := by
  rw [List.lookup_eq_none_iff]
  intro q hq
  obtain ⟨p, -, rfl⟩ := List.mem_map.mp hq
  rw [bne_iff_ne]
  rintro rfl
  rw [isPropertyQueryKey_propertyKey] at hkey
  cases hkey

namespace RawContext

/-- The query keys of the named fields. -/
theorem namedFields_keys (c : RawContext) {p : Bytes × Bytes} (h : p ∈ c.namedFields) :
    isPropertyQueryKey p.1 = false := by
  have hnames : ∀ name ∈ ([bytes "appName", bytes "sessionId", bytes "environment",
      bytes "userId", bytes "remoteAddress", bytes "currentTime"] : List Bytes),
      isPropertyQueryKey name = false := by
    decide
  apply hnames
  simp only [namedFields, List.mem_append, mem_ifSet, List.mem_cons, List.not_mem_nil,
    or_false] at h
  rcases h with ((((rfl | rfl) | h) | h) | h) | h <;> simp [*]

/-- The named field with this name. -/
def named (c : RawContext) (name : Bytes) : Option Bytes :=
  if name = bytes "appName" then some c.appName
  else if name = bytes "sessionId" then some c.sessionId
  else if name = bytes "environment" then c.environment
  else if name = bytes "userId" then c.userId
  else if name = bytes "remoteAddress" then c.remoteAddress
  else if name = bytes "currentTime" then c.currentTime
  else none

theorem lookup_fields (c : RawContext) {name : Bytes} (hname : isPropertyQueryKey name = false) :
    c.fields.lookup name = c.named name := by
  have hlookup : ∀ (key value : Bytes) (rest : List (Bytes × Bytes)),
      ((key, value) :: rest).lookup name = if name = key then some value else rest.lookup name := by
    intro key value rest
    rw [show (key, value) :: rest = ifSet key (some value) ++ rest from rfl, lookup_ifSet]
    rfl
  have happend : c.fields = (bytes "appName", c.appName) :: (bytes "sessionId", c.sessionId) ::
      (ifSet (bytes "environment") c.environment ++ (ifSet (bytes "userId") c.userId ++
        (ifSet (bytes "remoteAddress") c.remoteAddress ++
          (ifSet (bytes "currentTime") c.currentTime ++
            c.spokenProperties.map fun p => (propertyKey p.1, p.2))))) := by
    simp [fields, namedFields]
  rw [happend, hlookup, hlookup, lookup_ifSet, lookup_ifSet, lookup_ifSet, lookup_ifSet,
    lookup_properties hname, named]
  -- a name is at most one of the six
  have hne : bytes "environment" ≠ bytes "userId" ∧ bytes "environment" ≠ bytes "remoteAddress" ∧
      bytes "environment" ≠ bytes "currentTime" ∧ bytes "userId" ≠ bytes "remoteAddress" ∧
      bytes "userId" ≠ bytes "currentTime" ∧ bytes "remoteAddress" ≠ bytes "currentTime" := by
    decide
  grind

/-- The properties are what is left when the named fields are taken away. -/
theorem filter_fields (c : RawContext) :
    c.fields.filter (fun p => isPropertyQueryKey p.1) =
      c.spokenProperties.map fun p => (propertyKey p.1, p.2) := by
  rw [fields, List.filter_append, List.filter_eq_nil_iff.mpr, List.nil_append, List.filter_map,
    List.filter_eq_self.mpr]
  · exact fun p _ => isPropertyQueryKey_propertyKey p.1
  · intro p hp
    rw [c.namedFields_keys hp]
    exact Bool.false_ne_true

theorem agrees_of_fields {c d : RawContext} (h : c.fields = d.fields) : c.Agrees d := by
  have hnamed : ∀ name, isPropertyQueryKey name = false → c.named name = d.named name :=
    fun name hname => by rw [← c.lookup_fields hname, ← d.lookup_fields hname, h]
  have hproperties : c.spokenProperties = d.spokenProperties := by
    have hinjective : Function.Injective fun p : Bytes × Bytes => (propertyKey p.1, p.2) :=
      fun p q hpq => Prod.ext (propertyKey_injective (Prod.mk.inj hpq).1) (Prod.mk.inj hpq).2
    refine List.map_injective_iff.mpr hinjective ?_
    rw [← c.filter_fields, ← d.filter_fields, h]
  exact ⟨Option.some.inj (hnamed (bytes "appName") (by decide)),
    Option.some.inj (hnamed (bytes "sessionId") (by decide)),
    hnamed (bytes "environment") (by decide), hnamed (bytes "userId") (by decide),
    hnamed (bytes "remoteAddress") (by decide), hnamed (bytes "currentTime") (by decide),
    hproperties⟩

end RawContext

theorem QueryOf.agree {c d : RawContext} {query : Bytes} (hc : QueryOf c query)
    (hd : QueryOf d query) : c.Agrees d :=
  RawContext.agrees_of_fields (hc.decoded.symm.trans hd.decoded)

/-! ## The query of a context -/

theorem Context.Obtainable.raw_filled {ctx : Context} (h : ctx.Obtainable) : ctx.raw.Filled :=
  fun p hp => h.filled.namedFields_ne_nil hp

/-- **The query.**  The query of a context that an application can make, and of any other fields
    of which the named ones are not empty, is well formed and decodes to exactly these fields;
    two contexts with the same query agree on them; and percent-decoding undoes
    percent-encoding on all byte strings. -/
theorem contextQuery_exact :
    (∀ ctx : Context, ctx.Obtainable → QueryOf ctx.raw (buildContextQuery ctx)) ∧
    (∀ c : RawContext, c.Filled → QueryOf c c.buildQuery) ∧
    (∀ c d : RawContext, c.Filled → d.Filled → c.buildQuery = d.buildQuery → c.Agrees d) ∧
    ∀ s : Bytes, UrlQuery.percentDecode (urlEncodeContext s) = s := by
  refine ⟨fun ctx h => h.raw_filled.queryOf, fun c h => h.queryOf, fun c d hc hd heq => ?_,
    UrlQuery.percentDecode_percentEncode isUnreserved_safe.percent⟩
  exact hc.queryOf.agree (heq ▸ hd.queryOf)

/-- The fields of a user whose name holds every separator. -/
def separatorContext : Context :=
  ((Context.make (bytes "a?b") (bytes "") (bytes "s=1") 7).setUserId (bytes "u&1")).setProperty
    (bytes "pl]an") (bytes "100%")

/-- The same with a property that has no value, of which the query says nothing. -/
def silentContext : Context := separatorContext.setProperty (bytes "beta") []

/-- The query of `separatorContext`, and another context with this query. -/
theorem contextQuery_exact_separators :
    QueryOf separatorContext.raw (buildContextQuery separatorContext) ∧
    separatorContext.raw.properties ≠ silentContext.raw.properties ∧
    separatorContext.raw.Agrees silentContext.raw := by
  obtain ⟨hcontext, -, hagree, -⟩ := contextQuery_exact
  have hobtainable : separatorContext.Obtainable := ((Context.Obtainable.make _ _ _ _).setUserId
    _).setProperty _ _
  refine ⟨hcontext _ hobtainable, by decide, hagree _ _ hobtainable.raw_filled ?_ (by decide)⟩
  exact (hobtainable.setProperty _ _).raw_filled

end Unleash
