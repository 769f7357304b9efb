/-
  WHAT A SEQUENCE OF SETTER CALLS LEAVES BEHIND.

  A field of a context is what the last call that sets it said.  For the custom properties there
  is one such field per key, and their order is that of the first calls:

      calls            setProperty k₁ a, setProperty k₂ b, setProperty "" x, setProperty k₁ c
      property calls   (k₁, a)           (k₂, b)                             (k₁, c)
      properties       [(k₁, c), (k₂, b)]

  `LeftBy w c` says this of every field of `c`; each setter keeps it (`LeftBy.snoc`).
  `updateMutableContext` replaces all of these fields, so it starts the sequence anew
  (`sinceUpdate`).

  A POST body writes the properties into an object.  Because the keys are distinct, none
  overwrites another, and the body says all of them (`BodyOf`).
-/
import UnleashSdk.ContextRequests

set_option linter.unusedVariables false

namespace Unleash

/-! ## Calls -/

/-- A call of a setter. -/
inductive SetterCall where
  | setUserId (userId : Bytes)
  | setRemoteAddress (remoteAddress : Bytes)
  | setCurrentTime (localTm : Tm) (offsetSeconds : Int)
  | setProperty (key value : Bytes)

/-- A call on a context: of a setter, or of `updateMutableContext` with what these calls make of
    a new `MutableContext`. -/
inductive ContextCall where
  | setter (call : SetterCall)
  | updateMutableContext (calls : List SetterCall)

def MutableContext.call (c : MutableContext) : SetterCall → MutableContext
  | .setUserId userId => c.setUserId userId
  | .setRemoteAddress remoteAddress => c.setRemoteAddress remoteAddress
  | .setCurrentTime localTm offsetSeconds => c.setCurrentTime localTm offsetSeconds
  | .setProperty key value => c.setProperty key value

def MutableContext.ofCalls (calls : List SetterCall) : MutableContext := calls.foldl call .new

def Context.call (c : Context) : ContextCall → Context
  | .setter (.setUserId userId) => c.setUserId userId
  | .setter (.setRemoteAddress remoteAddress) => c.setRemoteAddress remoteAddress
  | .setter (.setCurrentTime localTm offsetSeconds) => c.setCurrentTime localTm offsetSeconds
  | .setter (.setProperty key value) => c.setProperty key value
  | .updateMutableContext calls => c.updateMutableContext (.ofCalls calls)

/-- A constructed context after these calls. -/
def Context.ofCalls (appName environment sessionId : Bytes) (resolveSessionId : Nat)
    (calls : List ContextCall) : Context :=
  calls.foldl call (Context.make appName environment sessionId resolveSessionId)

/-- The setter calls that count: those since the last update, after the update's own. -/
def sinceUpdate (calls : List ContextCall) : List SetterCall :=
  calls.foldl
    (fun w call =>
      match call with
      | .setter call => w ++ [call]
      | .updateMutableContext calls => calls) []

namespace SetterCall

/-- What the call says of the user id, and so on. -/
def userId? : SetterCall → Option Bytes
  | .setUserId userId => some userId
  | _ => none

def remoteAddress? : SetterCall → Option Bytes
  | .setRemoteAddress remoteAddress => some remoteAddress
  | _ => none

def currentTime? : SetterCall → Option Bytes
  | .setCurrentTime localTm offsetSeconds =>
    some (getISO8601CurrentTimeStamp localTm offsetSeconds)
  | _ => none

/-- The property that the call sets; a key that is empty or reserved is none. -/
def property? : SetterCall → Option (Bytes × Bytes)
  | .setProperty key value => if isPropertyKey key then some (key, value) else none
  | _ => none

/-- The strings of the call are UTF-8. -/
def utf8 : SetterCall → Bool
  | .setUserId userId => Bytes.validUtf8 userId
  | .setRemoteAddress remoteAddress => Bytes.validUtf8 remoteAddress
  | .setCurrentTime _ _ => true
  | .setProperty key value => Bytes.validUtf8 key && Bytes.validUtf8 value

end SetterCall

def ContextCall.utf8 : ContextCall → Bool
  | .setter call => call.utf8
  | .updateMutableContext calls => calls.all SetterCall.utf8

/-! ## One property -/

theorem keys_setFirst (key value : Bytes) (ps : ContextProperties) :
    (setFirst key value ps).map Prod.fst =
      if key ∈ ps.map Prod.fst then ps.map Prod.fst else ps.map Prod.fst ++ [key] := by
  induction ps with
  | nil => rfl
  | cons p ps ih =>
    unfold setFirst
    by_cases hp : p.1 = key
    · rw [if_pos hp, if_pos (by rw [List.map_cons, hp]; exact List.mem_cons_self)]
      rfl
    · rw [if_neg hp, List.map_cons, ih]
      have hmem : key ∈ (p :: ps).map Prod.fst ↔ key ∈ ps.map Prod.fst := by
        rw [List.map_cons, List.mem_cons]
        exact or_iff_right fun h => hp h.symm
      simp only [hmem]
      split <;> rfl

/-- On distinct keys, one property is set and the others stay. -/
theorem mem_setFirst_iff {key value : Bytes} {ps : ContextProperties}
    (hps : (ps.map Prod.fst).Nodup) {p : Bytes × Bytes} :
    p ∈ setFirst key value ps ↔ p = (key, value) ∨ (p ∈ ps ∧ p.1 ≠ key) := by
  induction ps with
  | nil => simp [setFirst]
  | cons q ps ih =>
    obtain ⟨hhead, htail⟩ := List.nodup_cons.mp hps
    unfold setFirst
    by_cases hq : q.1 = key
    · have hother : ∀ r ∈ ps, r.1 ≠ key := fun r hr he =>
        hhead (hq ▸ he ▸ List.mem_map_of_mem hr)
      rw [if_pos hq, List.mem_cons, List.mem_cons, hq]
      constructor
      · rintro (h | h)
        · exact Or.inl h
        · exact Or.inr ⟨Or.inr h, hother p h⟩
      · rintro (h | ⟨h | h, hne⟩)
        · exact Or.inl h
        · exact absurd (h ▸ hq) hne
        · exact Or.inr h
    · rw [if_neg hq, List.mem_cons, List.mem_cons, ih htail]
      constructor
      · rintro (h | h | ⟨h, hne⟩)
        · exact Or.inr ⟨Or.inl h, h ▸ hq⟩
        · exact Or.inl h
        · exact Or.inr ⟨Or.inr h, hne⟩
      · rintro (h | ⟨h | h, hne⟩)
        · exact Or.inr (Or.inl h)
        · exact Or.inl h
        · exact Or.inr (Or.inr ⟨h, hne⟩)

/-! ## One call -/

namespace MutableContext

variable (c : MutableContext) (call : SetterCall)

/-- A property call leaves the other fields alone; the key decides what it does to the list. -/
theorem setProperty_fields (key value : Bytes) :
    (c.setProperty key value).userId = c.userId ∧
    (c.setProperty key value).remoteAddress = c.remoteAddress ∧
    (c.setProperty key value).properties =
      if isPropertyKey key then setFirst key value c.properties else c.properties := by
  by_cases hkey : isPropertyKey key = true
  · rw [setProperty, dif_pos hkey, if_pos hkey]
    exact ⟨rfl, rfl, rfl⟩
  · rw [setProperty, dif_neg hkey, if_neg hkey]
    exact ⟨rfl, rfl, rfl⟩

theorem call_userId : (c.call call).userId = (call.userId?.map nonEmpty).getD c.userId := by
  cases call with
  | setProperty key value => exact (c.setProperty_fields key value).1
  | _ => rfl

theorem call_remoteAddress :
    (c.call call).remoteAddress = (call.remoteAddress?.map nonEmpty).getD c.remoteAddress := by
  cases call with
  | setProperty key value => exact (c.setProperty_fields key value).2.1
  | _ => rfl

theorem call_currentTime : (c.call call).currentTime = call.currentTime?.or c.currentTime := by
  cases call with
  | setProperty key value => exact setProperty_currentTime c key value
  | _ => rfl

theorem call_properties : (c.call call).properties =
    (call.property?.map fun p => setFirst p.1 p.2 c.properties).getD c.properties := by
  cases call with
  | setProperty key value =>
    show (c.setProperty key value).properties = _
    rw [(c.setProperty_fields key value).2.2, SetterCall.property?]
    split <;> rfl
  | _ => rfl

end MutableContext

/-! ## A sequence of calls -/

/-- The fields of `c` are what the calls `w` said last. -/
structure LeftBy (w : List SetterCall) (c : MutableContext) : Prop where
  userId : c.userId = (w.filterMap (·.userId?)).getLast?.bind MutableContext.nonEmpty
  remoteAddress :
    c.remoteAddress = (w.filterMap (·.remoteAddress?)).getLast?.bind MutableContext.nonEmpty
  currentTime : c.currentTime = (w.filterMap (·.currentTime?)).getLast?
  -- in the order of the first calls
  keys : c.properties.map Prod.fst = ((w.filterMap (·.property?)).map Prod.fst).eraseDups
  -- with the values of the last ones
  values : ∀ p ∈ c.properties,
    ((w.filterMap (·.property?)).filter (fun q => q.1 = p.1)).getLast? = some p

theorem leftBy_nil : LeftBy [] .new :=
  ⟨rfl, rfl, rfl, rfl, fun p hp => absurd hp List.not_mem_nil⟩

theorem getLast?_filterMap_snoc {β : Type} (w : List SetterCall) (call : SetterCall)
    (f : SetterCall → Option β) :
    ((w ++ [call]).filterMap f).getLast? = (f call).or (w.filterMap f).getLast? := by
  rw [List.filterMap_append, List.getLast?_append]
  cases h : f call with
  | none => rw [List.filterMap_cons_none h]; rfl
  | some b => rw [List.filterMap_cons_some h]; rfl

/-- A key that is new comes after all others. -/
theorem eraseDups_snoc (l : List Bytes) (a : Bytes) :
    (l ++ [a]).eraseDups = if a ∈ l then l.eraseDups else l.eraseDups ++ [a] := by
  have hsingle : [a].eraseDups = [a] := rfl
  rw [List.eraseDups_append]
  by_cases h : a ∈ l
  · simp [List.removeAll, h]
  · simp [List.removeAll, h, hsingle]

/-- **Each call keeps it.** -/
theorem LeftBy.snoc {w : List SetterCall} {c : MutableContext} (h : LeftBy w c)
    (call : SetterCall) : LeftBy (w ++ [call]) (c.call call) := by
  have hlast : ∀ {said last : Option Bytes} {now : Option Bytes},
      now = last.bind MutableContext.nonEmpty →
      (said.map MutableContext.nonEmpty).getD now =
        (said.or last).bind MutableContext.nonEmpty := by
    intro said last now hnow
    cases said with
    | none => exact hnow
    | some s => rfl
  refine ⟨?_, ?_, ?_, ?_, ?_⟩
  · rw [c.call_userId, getLast?_filterMap_snoc]
    exact hlast h.userId
  · rw [c.call_remoteAddress, getLast?_filterMap_snoc]
    exact hlast h.remoteAddress
  · rw [c.call_currentTime, getLast?_filterMap_snoc, h.currentTime]
  · rw [c.call_properties, List.filterMap_append]
    cases hcall : call.property? with
    | none =>
      rw [List.filterMap_cons_none hcall, List.filterMap_nil, List.append_nil]
      exact h.keys
    | some p =>
      rw [List.filterMap_cons_some hcall, List.filterMap_nil, List.map_append, List.map_singleton,
        eraseDups_snoc, ← h.keys]
      show (setFirst p.1 p.2 c.properties).map Prod.fst = _
      rw [keys_setFirst, h.keys]
      simp only [List.mem_eraseDups]
  · rw [c.call_properties, List.filterMap_append]
    cases hcall : call.property? with
    | none =>
      rw [List.filterMap_cons_none hcall, List.filterMap_nil, List.append_nil]
      exact h.values
    | some p =>
      rw [List.filterMap_cons_some hcall, List.filterMap_nil]
      intro q hq
      rw [List.filter_append, List.getLast?_append]
      rcases (mem_setFirst_iff c.keys_nodup).mp hq with hq | ⟨hq, hne⟩
      · obtain rfl : q = p := hq
        simp
      · have hother : [p].filter (fun r => r.1 = q.1) = [] := by simp [Ne.symm hne]
        rw [hother]
        exact h.values q hq

theorem MutableContext.ofCalls_snoc (w : List SetterCall) (call : SetterCall) :
    ofCalls (w ++ [call]) = (ofCalls w).call call := by
  rw [ofCalls, List.foldl_append]
  rfl

theorem leftBy_ofCalls (w : List SetterCall) : LeftBy w (.ofCalls w) := by
  induction w using List.reverseRecOn with
  | nil => exact leftBy_nil
  | append_singleton w call ih =>
    rw [MutableContext.ofCalls_snoc]
    exact ih.snoc call

/-! ## A context -/

theorem Context.call_setter (c : Context) (call : SetterCall) :
    c.call (.setter call) = { c with mutableContext := c.mutableContext.call call } := by
  cases call <;> rfl

theorem Context.ofCalls_snoc (appName environment sessionId : Bytes) (n : Nat)
    (calls : List ContextCall) (call : ContextCall) :
    ofCalls appName environment sessionId n (calls ++ [call]) =
      (ofCalls appName environment sessionId n calls).call call := by
  rw [ofCalls, List.foldl_append]
  rfl

theorem sinceUpdate_setter (calls : List ContextCall) (call : SetterCall) :
    sinceUpdate (calls ++ [.setter call]) = sinceUpdate calls ++ [call] := by
  rw [sinceUpdate, List.foldl_append]
  rfl

theorem sinceUpdate_update (calls : List ContextCall) (w : List SetterCall) :
    sinceUpdate (calls ++ [.updateMutableContext w]) = w := by
  rw [sinceUpdate, List.foldl_append]
  rfl

/-- An update counts as starting a fresh sequence. -/
theorem Context.ofCalls_eq (appName environment sessionId : Bytes) (n : Nat)
    (calls : List ContextCall) : ofCalls appName environment sessionId n calls =
      (make appName environment sessionId n).updateMutableContext
        (.ofCalls (sinceUpdate calls)) := by
  induction calls using List.reverseRecOn with
  | nil => rfl
  | append_singleton calls call ih =>
    rw [ofCalls_snoc, ih]
    cases call with
    | setter call =>
      rw [call_setter, sinceUpdate_setter, MutableContext.ofCalls_snoc]
      rfl
    | updateMutableContext w =>
      rw [sinceUpdate_update]
      rfl

/-- Whatever an application makes of a context, it makes it by calls. -/
theorem MutableContext.Obtainable.exists_calls {c : MutableContext} (h : c.Obtainable) :
    ∃ w, c = MutableContext.ofCalls w := by
  have hsnoc : ∀ {c' : MutableContext} (call : SetterCall), (∃ w, c' = .ofCalls w) →
      ∃ w, c'.call call = .ofCalls w := by
    rintro c' call ⟨w, rfl⟩
    exact ⟨w ++ [call], (ofCalls_snoc w call).symm⟩
  induction h with
  | new => exact ⟨[], rfl⟩
  | setUserId h userId ih => exact hsnoc (.setUserId userId) ih
  | setRemoteAddress h remoteAddress ih => exact hsnoc (.setRemoteAddress remoteAddress) ih
  | setCurrentTime h localTm offsetSeconds ih =>
    exact hsnoc (.setCurrentTime localTm offsetSeconds) ih
  | setProperty h key value ih => exact hsnoc (.setProperty key value) ih

theorem Context.Obtainable.exists_calls {c : Context} (h : c.Obtainable) :
    ∃ appName environment sessionId n calls,
      c = Context.ofCalls appName environment sessionId n calls := by
  have hsnoc : ∀ {c' : Context} (call : ContextCall),
      (∃ appName environment sessionId n calls,
        c' = Context.ofCalls appName environment sessionId n calls) →
      ∃ appName environment sessionId n calls,
        c'.call call = Context.ofCalls appName environment sessionId n calls := by
    rintro c' call ⟨appName, environment, sessionId, n, calls, rfl⟩
    exact ⟨appName, environment, sessionId, n, calls ++ [call], (ofCalls_snoc _ _ _ _ _ _).symm⟩
  induction h with
  | make appName environment sessionId n => exact ⟨appName, environment, sessionId, n, [], rfl⟩
  | setUserId h userId ih => exact hsnoc (.setter (.setUserId userId)) ih
  | setRemoteAddress h remoteAddress ih =>
    exact hsnoc (.setter (.setRemoteAddress remoteAddress)) ih
  | setCurrentTime h localTm offsetSeconds ih =>
    exact hsnoc (.setter (.setCurrentTime localTm offsetSeconds)) ih
  | setProperty h key value ih => exact hsnoc (.setter (.setProperty key value)) ih
  | updateMutableContext h hm ih =>
    obtain ⟨w, rfl⟩ := hm.exists_calls
    exact hsnoc (.updateMutableContext w) ih

/-! ## UTF-8 -/

theorem MutableContext.nonEmpty_utf8 {s : Bytes} (h : Bytes.validUtf8 s = true) :
    (nonEmpty s).all Bytes.validUtf8 = true := by
  unfold nonEmpty
  split
  · rfl
  · exact h

theorem MutableContext.call_utf8 {c : MutableContext} (hc : c.utf8 = true) {call : SetterCall}
    (hcall : call.utf8 = true) : (c.call call).utf8 = true := by
  rw [utf8, Bool.and_eq_true, Bool.and_eq_true] at hc ⊢
  obtain ⟨⟨huser, hremote⟩, hproperties⟩ := hc
  cases call with
  | setUserId userId => exact ⟨⟨nonEmpty_utf8 hcall, hremote⟩, hproperties⟩
  | setRemoteAddress remoteAddress => exact ⟨⟨huser, nonEmpty_utf8 hcall⟩, hproperties⟩
  | setCurrentTime localTm offsetSeconds => exact ⟨⟨huser, hremote⟩, hproperties⟩
  | setProperty key value =>
    obtain ⟨hu, hr, hp⟩ := c.setProperty_fields key value
    have hall : ((c.setProperty key value).properties.all fun p =>
        Bytes.validUtf8 p.1 && Bytes.validUtf8 p.2) = true := by
      rw [hp]
      split
      · rw [List.all_eq_true] at hproperties ⊢
        intro p hmem
        rcases mem_setFirst hmem with rfl | hmem
        · exact hcall
        · exact hproperties p hmem
      · exact hproperties
    exact ⟨⟨(congrArg (Option.all Bytes.validUtf8) hu).trans huser,
      (congrArg (Option.all Bytes.validUtf8) hr).trans hremote⟩, hall⟩

theorem MutableContext.ofCalls_utf8 {w : List SetterCall} (hw : ∀ call ∈ w, call.utf8 = true) :
    (ofCalls w).utf8 = true := by
  induction w using List.reverseRecOn with
  | nil => rfl
  | append_singleton w call ih =>
    rw [ofCalls_snoc]
    exact call_utf8 (ih fun c hc => hw c (List.mem_append_left _ hc)) (hw call (by simp))

theorem sinceUpdate_utf8 {calls : List ContextCall} (h : ∀ call ∈ calls, call.utf8 = true) :
    ∀ call ∈ sinceUpdate calls, call.utf8 = true := by
  induction calls using List.reverseRecOn with
  | nil => exact nofun
  | append_singleton calls call ih =>
    have hcall := h call (by simp)
    cases call with
    | setter call =>
      rw [sinceUpdate_setter]
      intro c hc
      rcases List.mem_append.mp hc with hc | hc
      · exact ih (fun c hc => h c (List.mem_append_left _ hc)) c hc
      · rw [List.mem_singleton.mp hc]
        exact hcall
    | updateMutableContext w =>
      rw [sinceUpdate_update]
      exact List.all_eq_true.mp hcall

theorem Context.ofCalls_utf8 {appName environment sessionId : Bytes} (n : Nat)
    {calls : List ContextCall} (happ : Bytes.validUtf8 appName = true)
    (henv : Bytes.validUtf8 environment = true) (hsession : Bytes.validUtf8 sessionId = true)
    (hcalls : ∀ call ∈ calls, call.utf8 = true) :
    (ofCalls appName environment sessionId n calls).utf8 = true := by
  have hmutable : (MutableContext.ofCalls (sinceUpdate calls)).utf8 = true :=
    MutableContext.ofCalls_utf8 (sinceUpdate_utf8 hcalls)
  have happ' : Bytes.validUtf8 (make appName environment sessionId n).appName = true := by
    show Bytes.validUtf8 (if appName.isEmpty then defaultAppName else appName) = true
    split
    · decide
    · exact happ
  have hsession' : Bytes.validUtf8 (make appName environment sessionId n).sessionId = true := by
    show Bytes.validUtf8 (if sessionId.isEmpty then Decimal.natDigits n else sessionId) = true
    split
    · exact Bytes.validUtf8_of_ascii (Decimal.natDigits_ascii n)
    · exact hsession
  have henv' : (make appName environment sessionId n).environment.all Bytes.validUtf8 = true :=
    MutableContext.nonEmpty_utf8 henv
  rw [ofCalls_eq, utf8]
  simp only [updateMutableContext, happ', hsession', henv', hmutable, Bool.and_self]

/-! ## The body -/

/-- The value `j` is an object `context` of exactly the fields of `ctx`. -/
def BodyOf (ctx : Context) (j : Json) : Prop :=
  ∃ members properties, j = .obj [(bytes "context", .obj members)] ∧
    (members.map Prod.fst).Nodup ∧ (properties.map Prod.fst).Nodup ∧
    (∀ key v, (key, v) ∈ properties ↔
      ∃ value, (key, value) ∈ ctx.mutableContext.properties ∧ v = .str value) ∧
    ∀ name v, (name, v) ∈ members ↔
      (∃ value, (name, value) ∈ ctx.namedFields ∧ v = .str value) ∨
      (name = bytes "properties" ∧ ctx.mutableContext.properties ≠ [] ∧ v = .obj properties)

theorem propertiesJson_eq_some {ps : ContextProperties} {v : Json} :
    propertiesJson ps = some v ↔ ps ≠ [] ∧ v = .obj (Json.assignAll (ps.map strMember)) := by
  cases ps with
  | nil => simp [propertiesJson]
  | cons p ps =>
    have hsome : propertiesJson (p :: ps) = some (Json.null.setAll ((p :: ps).map strMember)) := rfl
    rw [hsome, Json.setAll_null (by simp), Option.some.injEq, eq_comm]
    simp

theorem bodyOf_contextJson (ctx : Context) :
    BodyOf ctx (Json.null.set (bytes "context") (contextJson ctx)) := by
  have hstr : ∀ (ps : List (Bytes × Bytes)) key v, (key, v) ∈ ps.map strMember ↔
      ∃ value, (key, value) ∈ ps ∧ v = .str value := by
    intro ps key v
    simp only [List.mem_map, strMember, Prod.mk.injEq]
    constructor
    · rintro ⟨p, hp, rfl, rfl⟩
      exact ⟨p.2, hp, rfl⟩
    · rintro ⟨value, hp, rfl⟩
      exact ⟨(key, value), hp, rfl, rfl⟩
  refine ⟨Json.assignAll (contextFields ctx),
    Json.assignAll (ctx.mutableContext.properties.map strMember), ?_, ?_, ?_, ?_, ?_⟩
  · rw [contextJson_eq, Json.setAll_empty]
    rfl
  · exact Json.nodup_assignAll _
  · exact Json.nodup_assignAll _
  · intro key v
    rw [Json.mem_assignAll (by rw [strMember_keys]; exact ctx.mutableContext.keys_nodup)]
    exact hstr _ key v
  · intro name v
    rw [Json.mem_assignAll (contextFields_keys_nodup ctx), contextFields_eq, List.mem_append,
      mem_optionalField, hstr, propertiesJson_eq_some]

/-- **Setters and body lose nothing.**  After any calls on a constructed context its fields are
    what the calls since the last update said last, and its properties have distinct keys that
    are not empty and not reserved; if all strings are UTF-8, the body parses to an object of
    exactly these fields. -/
theorem setters_lose_nothing (J : JsonLib) (appName environment sessionId : Bytes) (n : Nat)
    (calls : List ContextCall) :
    LeftBy (sinceUpdate calls)
      (Context.ofCalls appName environment sessionId n calls).mutableContext ∧
    ((Context.ofCalls appName environment sessionId n calls).mutableContext.properties.map
      Prod.fst).Nodup ∧
    (∀ p ∈ (Context.ofCalls appName environment sessionId n calls).mutableContext.properties,
      isPropertyKey p.1 = true) ∧
    (Bytes.validUtf8 appName = true → Bytes.validUtf8 environment = true →
      Bytes.validUtf8 sessionId = true → (∀ call ∈ calls, call.utf8 = true) →
      ∃ body j, encodeContextRequestBody J
          (Context.ofCalls appName environment sessionId n calls) = some body ∧
        J.parse body = some j ∧
        BodyOf (Context.ofCalls appName environment sessionId n calls) j) := by
  refine ⟨?_, MutableContext.keys_nodup _, MutableContext.keys_ok _, ?_⟩
  · rw [Context.ofCalls_eq]
    exact leftBy_ofCalls _
  · intro happ henv hsession hcalls
    obtain ⟨body, hbody, hparse⟩ :=
      parse_body J (Context.ofCalls_utf8 n happ henv hsession hcalls)
    exact ⟨body, _, hbody, hparse, bodyOf_contextJson _⟩

/-- A plan is set, replaced in an update, and set again. -/
def planCalls : List ContextCall :=
  [.setter (.setUserId (bytes "u")), .setter (.setProperty (bytes "plan") (bytes "gold")),
    .updateMutableContext [.setProperty (bytes "plan") (bytes "blue"), .setUserId []],
    .setter (.setProperty (bytes "seat") (bytes "1")),
    .setter (.setProperty (bytes "plan") (bytes ""))]

example : (Context.ofCalls [] [] [] 7 planCalls).mutableContext.properties =
    [(bytes "plan", bytes ""), (bytes "seat", bytes "1")] := by decide

/-- The body that `planCalls` leave. -/
theorem setters_lose_nothing_plan :
    ∃ body j, encodeContextRequestBody JsonText.compact (Context.ofCalls [] [] [] 7 planCalls) =
        some body ∧
      JsonText.compact.parse body = some j ∧ BodyOf (Context.ofCalls [] [] [] 7 planCalls) j :=
  (setters_lose_nothing JsonText.compact [] [] [] 7 planCalls).2.2.2 (by decide) (by decide)
    (by decide) (by decide)

end Unleash
