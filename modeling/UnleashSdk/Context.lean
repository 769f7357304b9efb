/-
  THE EVALUATION CONTEXT, its setters and its request body.

  A `MutableContext` carries what its setters guarantee: property keys are pairwise distinct, not
  empty and not reserved, an optional field is never the empty string, and the timestamp is
  ASCII.  So the request body never writes a member twice, and whether the printer accepts it is
  decided by the context's own strings:

      (encodeContextRequestBody J ctx).isSome = ctx.utf8            (`encodeContext_isSome`)
-/
import UnleashSdk.Lib.Json
import UnleashSdk.Timestamps

set_option linter.unusedVariables false

namespace Unleash

/-! ## Mutable fields -/

/-- Keys that are fields of the context. -/
def isReservedContextKey (key : Bytes) : Bool :=
  key == bytes "appName" || key == bytes "environment" || key == bytes "userId" ||
    key == bytes "sessionId" || key == bytes "remoteAddress" || key == bytes "currentTime"

/-- A custom property may have this key. -/
def isPropertyKey (key : Bytes) : Bool := !key.isEmpty && !isReservedContextKey key

/-- The custom properties, in the order in which their keys were first set. -/
abbrev ContextProperties := List (Bytes × Bytes)

structure MutableContext where
  userId : Option Bytes := none
  remoteAddress : Option Bytes := none
  currentTime : Option Bytes := none
  properties : ContextProperties := []
  userId_ne_nil : userId ≠ some [] := by nofun
  remoteAddress_ne_nil : remoteAddress ≠ some [] := by nofun
  currentTime_ascii : ∀ t, currentTime = some t → ∀ b ∈ t, b ≤ 0x7F := by nofun
  keys_nodup : (properties.map Prod.fst).Nodup := by exact List.nodup_nil
  keys_ok : ∀ p ∈ properties, isPropertyKey p.1 = true := by nofun

/-- Replace the value of the first property with this key, or append a new property. -/
def setFirst (key value : Bytes) : ContextProperties → ContextProperties
  | [] => [(key, value)]
  | kv :: rest => if kv.1 = key then (kv.1, value) :: rest else kv :: setFirst key value rest

theorem mem_setFirst {key value : Bytes} {ps : ContextProperties} {p : Bytes × Bytes}
    (h : p ∈ setFirst key value ps) : p = (key, value) ∨ p ∈ ps := by
  induction ps with
  | nil => exact Or.inl (List.mem_singleton.mp h)
  | cons kv rest ih =>
    unfold setFirst at h
    split at h
    · rename_i hkey
      rcases List.mem_cons.mp h with h | h
      · exact Or.inl (h.trans (by rw [hkey]))
      · exact Or.inr (List.mem_cons_of_mem _ h)
    · rcases List.mem_cons.mp h with h | h
      · exact Or.inr (by rw [h]; exact List.mem_cons_self)
      · exact (ih h).imp_right (List.mem_cons_of_mem _)

/-- Setting a property keeps the keys distinct: a new key comes after all others. -/
theorem setFirst_keys_nodup {key value : Bytes} {ps : ContextProperties}
    (h : (ps.map Prod.fst).Nodup) : ((setFirst key value ps).map Prod.fst).Nodup := by
  induction ps with
  | nil => exact List.nodup_cons.mpr ⟨List.not_mem_nil, List.nodup_nil⟩
  | cons kv rest ih =>
    obtain ⟨hhead, htail⟩ := List.nodup_cons.mp h
    unfold setFirst
    split
    · exact List.nodup_cons.mpr ⟨hhead, htail⟩
    · rename_i hne
      refine List.nodup_cons.mpr ⟨fun hmem => ?_, ih htail⟩
      obtain ⟨p, hp, hpk⟩ := List.mem_map.mp hmem
      rcases mem_setFirst hp with rfl | hp
      · exact hne hpk.symm
      · exact hhead (hpk ▸ List.mem_map_of_mem hp)

namespace MutableContext

/-- The default constructor. -/
def new : MutableContext := {}

/-- An empty string clears the field. -/
def nonEmpty (s : Bytes) : Option Bytes := if s.isEmpty then none else some s

theorem nonEmpty_ne_nil (s : Bytes) : nonEmpty s ≠ some [] := by
  cases s <;> nofun

def setUserId (c : MutableContext) (userId : Bytes) : MutableContext :=
  { c with userId := nonEmpty userId, userId_ne_nil := nonEmpty_ne_nil userId }

def setRemoteAddress (c : MutableContext) (remoteAddress : Bytes) : MutableContext :=
  { c with
    remoteAddress := nonEmpty remoteAddress
    remoteAddress_ne_nil := nonEmpty_ne_nil remoteAddress }

def setCurrentTime (c : MutableContext) (localTm : Tm) (offsetSeconds : Int) : MutableContext :=
  { c with
    currentTime := some (getISO8601CurrentTimeStamp localTm offsetSeconds)
    currentTime_ascii := by
      intro t ht
      rw [← Option.some.inj ht]
      exact getISO8601CurrentTimeStamp_ascii localTm offsetSeconds }

/-- Empty and reserved keys are ignored. -/
def setProperty (c : MutableContext) (key value : Bytes) : MutableContext :=
  if h : isPropertyKey key = true then
    { c with
      properties := setFirst key value c.properties
      keys_nodup := setFirst_keys_nodup c.keys_nodup
      keys_ok := fun p hp => (mem_setFirst hp).elim (fun he => by rw [he]; exact h) (c.keys_ok p) }
  else c

/-- Every string that an application put into the context is UTF-8. -/
def utf8 (c : MutableContext) : Bool :=
  c.userId.all Bytes.validUtf8 && c.remoteAddress.all Bytes.validUtf8 &&
    c.properties.all fun p => Bytes.validUtf8 p.1 && Bytes.validUtf8 p.2

end MutableContext

/-! ## The context -/

/-- `utils::defaultAppName`. -/
def defaultAppName : Bytes := bytes "unleash-client-app"

structure Context where
  appName : Bytes
  sessionId : Bytes
  environment : Option Bytes
  mutableContext : MutableContext

namespace Context

/-- The constructor; an empty session id is replaced by the random number `resolveSessionId`
    draws. -/
def make (appName environment sessionId : Bytes) (resolveSessionId : Nat) : Context where
  appName := if appName.isEmpty then defaultAppName else appName
  sessionId := if sessionId.isEmpty then Decimal.natDigits resolveSessionId else sessionId
  environment := MutableContext.nonEmpty environment
  mutableContext := {}

/-- The setters hand on to the mutable fields. -/
def setUserId (c : Context) (userId : Bytes) : Context :=
  { c with mutableContext := c.mutableContext.setUserId userId }

def setRemoteAddress (c : Context) (remoteAddress : Bytes) : Context :=
  { c with mutableContext := c.mutableContext.setRemoteAddress remoteAddress }

def setCurrentTime (c : Context) (localTm : Tm) (offsetSeconds : Int) : Context :=
  { c with mutableContext := c.mutableContext.setCurrentTime localTm offsetSeconds }

def setProperty (c : Context) (key value : Bytes) : Context :=
  { c with mutableContext := c.mutableContext.setProperty key value }

/-- All mutable fields are replaced together. -/
def updateMutableContext (c : Context) (mutableContext : MutableContext) : Context :=
  { c with mutableContext := mutableContext }

def utf8 (c : Context) : Bool :=
  Bytes.validUtf8 c.appName && Bytes.validUtf8 c.sessionId &&
    c.environment.all Bytes.validUtf8 && c.mutableContext.utf8

end Context

/-! ## The request body -/

/-- Write an optional string member. -/
def setOptional (j : Json) (key : Bytes) (value : Option Bytes) : Json :=
  match value with
  | none => j
  | some v => j.set key (.str v)

/-- The value under `context` in the request body. -/
def contextJson (ctx : Context) : Json :=
  let m := ctx.mutableContext
  let j := ((Json.obj []).set (bytes "appName") (.str ctx.appName)).set (bytes "sessionId")
    (.str ctx.sessionId)
  let j := setOptional j (bytes "environment") ctx.environment
  let j := setOptional j (bytes "userId") m.userId
  let j := setOptional j (bytes "remoteAddress") m.remoteAddress
  let j := setOptional j (bytes "currentTime") m.currentTime
  if m.properties.isEmpty then j
  else
    let vProperties := Json.null.setAll (m.properties.map fun p => (p.1, .str p.2))
    j.set (bytes "properties") vProperties

/-- The body of a POST request; `none` is the exception of the printer. -/
def encodeContextRequestBody (J : JsonLib) (ctx : Context) : Option Bytes :=
  J.dump (Json.null.set (bytes "context") (contextJson ctx))

/-! ## When the printer accepts it -/

/-- A member that is there if the value is. -/
def optionalField (key : Bytes) (value : Option Json) : List (Bytes × Json) :=
  match value with
  | none => []
  | some v => [(key, v)]

/-- The properties as one value, if there are any. -/
def propertiesJson (ps : ContextProperties) : Option Json :=
  if ps.isEmpty then none else some (Json.null.setAll (ps.map fun p => (p.1, .str p.2)))

/-- The members that the request body assigns, in order. -/
def contextFields (ctx : Context) : List (Bytes × Json) :=
  let m := ctx.mutableContext
  [(bytes "appName", .str ctx.appName), (bytes "sessionId", .str ctx.sessionId)] ++
    optionalField (bytes "environment") (ctx.environment.map .str) ++
    optionalField (bytes "userId") (m.userId.map .str) ++
    optionalField (bytes "remoteAddress") (m.remoteAddress.map .str) ++
    optionalField (bytes "currentTime") (m.currentTime.map .str) ++
    optionalField (bytes "properties") (propertiesJson m.properties)

theorem contextJson_eq (ctx : Context) :
    contextJson ctx = (Json.obj []).setAll (contextFields ctx) := by
  have hopt : ∀ (l : List (Bytes × Json)) (key : Bytes) (v : Option Bytes),
      setOptional ((Json.obj []).setAll l) key v =
        (Json.obj []).setAll (l ++ optionalField key (v.map .str)) := by
    intro l key v
    cases v with
    | none => simp [setOptional, optionalField]
    | some v => simp [setOptional, optionalField, Json.setAll]
  have hstart : ((Json.obj []).set (bytes "appName") (.str ctx.appName)).set (bytes "sessionId")
      (.str ctx.sessionId) = (Json.obj []).setAll [(bytes "appName", .str ctx.appName),
        (bytes "sessionId", .str ctx.sessionId)] := rfl
  unfold contextJson
  simp only [hstart, hopt]
  cases hp : ctx.mutableContext.properties.isEmpty with
  | true => simp [contextFields, propertiesJson, hp, optionalField]
  | false => simp [contextFields, propertiesJson, hp, optionalField, Json.setAll]

/-- The keys of the request body are among seven different ones. -/
theorem contextFields_keys_nodup (ctx : Context) : ((contextFields ctx).map Prod.fst).Nodup := by
  have hopt : ∀ key value, ((optionalField key value).map Prod.fst).Sublist [key] := by
    intro key value
    cases value with
    | none => exact List.nil_sublist _
    | some v => exact List.Sublist.refl _
  have hall : ([bytes "appName", bytes "sessionId", bytes "environment", bytes "userId",
      bytes "remoteAddress", bytes "currentTime", bytes "properties"] : List Bytes).Nodup := by
    decide
  refine hall.sublist ?_
  simp only [contextFields, List.map_append]
  exact ((((List.Sublist.refl _).append (hopt _ _)).append (hopt _ _)).append (hopt _ _)).append
    (hopt _ _) |>.append (hopt _ _)

theorem optionalField_utf8 {key : Bytes} (hkey : Bytes.validUtf8 key = true)
    (value : Option Json) :
    (∀ p ∈ optionalField key value, Bytes.validUtf8 p.1 = true ∧ p.2.utf8 = true) ↔
      value.all Json.utf8 = true := by
  cases value with
  | none => simp [optionalField]
  | some v => simp [optionalField, hkey]

theorem propertiesJson_utf8 {ps : ContextProperties} (hps : (ps.map Prod.fst).Nodup) :
    (propertiesJson ps).all Json.utf8 = true ↔
      (ps.all fun p => Bytes.validUtf8 p.1 && Bytes.validUtf8 p.2) = true := by
  unfold propertiesJson
  cases ps with
  | nil => simp
  | cons p ps =>
    have hnodup : (((p :: ps).map fun p => (p.1, Json.str p.2)).map Prod.fst).Nodup := by
      rw [List.map_map]; exact hps
    rw [if_neg (by simp), Json.setAll_null (by simp), Option.all_some, Json.utf8,
      Json.utf8Members_assignAll hnodup, List.forall_mem_map, List.all_eq_true]
    simp [Json.utf8]

theorem contextJson_utf8 (ctx : Context) : (contextJson ctx).utf8 = true ↔ ctx.utf8 = true := by
  have hstr : ∀ o : Option Bytes, (o.map Json.str).all Json.utf8 = o.all Bytes.validUtf8 := by
    intro o
    cases o <;> rfl
  have htime : ctx.mutableContext.currentTime.all Bytes.validUtf8 = true := by
    cases ht : ctx.mutableContext.currentTime with
    | none => rfl
    | some t => exact Bytes.validUtf8_of_ascii (ctx.mutableContext.currentTime_ascii t ht)
  have happ : Bytes.validUtf8 (bytes "appName") = true := by decide
  have hsession : Bytes.validUtf8 (bytes "sessionId") = true := by decide
  have hprops := propertiesJson_utf8 ctx.mutableContext.keys_nodup
  rw [contextJson_eq, Json.setAll_empty, Json.utf8,
    Json.utf8Members_assignAll (contextFields_keys_nodup ctx)]
  simp only [contextFields, List.forall_mem_append, optionalField_utf8 (show Bytes.validUtf8
    (bytes "environment") = true by decide), optionalField_utf8 (show Bytes.validUtf8
    (bytes "userId") = true by decide), optionalField_utf8 (show Bytes.validUtf8
    (bytes "remoteAddress") = true by decide), optionalField_utf8 (show Bytes.validUtf8
    (bytes "currentTime") = true by decide), optionalField_utf8 (show Bytes.validUtf8
    (bytes "properties") = true by decide), hstr, htime, hprops, Context.utf8,
    MutableContext.utf8, Bool.and_eq_true, and_true]
  simp only [List.forall_mem_cons, List.not_mem_nil, happ, hsession, Json.utf8, true_and]
  tauto

/-- **The request body is printed exactly if the context's strings are UTF-8.** -/
theorem encodeContext_isSome (J : JsonLib) (ctx : Context) :
    (encodeContextRequestBody J ctx).isSome = ctx.utf8 := by
  have hkey : Bytes.validUtf8 (bytes "context") = true := by decide
  rw [encodeContextRequestBody, J.dump_isSome, Bool.eq_iff_iff, ← contextJson_utf8 ctx]
  simp [Json.set, Json.utf8, Json.utf8Members, hkey]

end Unleash
