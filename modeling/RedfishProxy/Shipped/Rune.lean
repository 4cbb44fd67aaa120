import RedfishProxy.Lib.Exec
import RedfishProxy.RuneHost.Failure
import RedfishProxy.Lib.JsonText
import RedfishProxy.Script.Response
import RedfishProxy.Script.StoreHistory
import RedfishProxy.Script.Util
import RedfishProxy.Script.Visible

/-!
# Running a shipped script

A handler is a computation over the shared store and the world of its request,
which stops where a `?` or the virtual machine stops it. The Rune values these
scripts touch are the ones serde can write, so they are JSON values. What is
relied on of Rune, of serde and of the standard library's Unicode tables is a
`Rune`.

Main result:
* `rewrite_jsonResponse`: a response a script builds is rewritten, and read by
  the caller as its document.
-/

namespace RedfishProxy.Shipped

open Lib Http Script RuneHost

/-- Rune and the crates under it. -/
structure Rune (ν σ : Type) extends Host ν (Json ν) σ where
  /-- How deep serde parses. -/
  limit : Nat
  /-- A number, written and read again. -/
  reread : ν → ν
  /-- A number, as a Rune value holds it: an integer is signed there, and wraps. -/
  asRune : ν → ν
  /-- The order a loop goes through the entries of an object in. -/
  order : Json.Fields ν → Json.Fields ν
  /-- Whether a loop takes the unit value for a tuple of nothing. -/
  unitLoops : Bool
  /-- What a template shows of a value that it can show. -/
  shown : Json ν → Option Text
  toUppercase : Text → Text
  sha256 : Text → Text
  /-- What the virtual machine says when it stops a script. -/
  vmError : Text
  limit_ge : 8 ≤ limit
  order_perm : ∀ fields, (order fields).Perm fields
  shown_string : ∀ text, shown (.string text) = some text
  fromValue_eq : ∀ value, fromValue value = .ok (value.mapNumbers asRune)
  scriptFromSlice_eq : ∀ bytes, scriptFromSlice bytes =
    (fromSlice bytes).map (Json.mapNumbers asRune)
  fromSlice_nil : ∃ error, fromSlice [] = .error error
  fits_of_fromSlice : ∀ bytes value, fromSlice bytes = .ok value → Json.Fits limit value
  toVec_ok : ∀ value, Json.Fits limit value → ∃ bytes, toVec value = .ok bytes ∧
    fromSlice bytes = .ok (value.mapNumbers reread)
  scriptToVec_ok : ∀ value, Json.Fits limit value → ∃ bytes, scriptToVec value = .ok bytes ∧
    fromSlice bytes = .ok (value.mapNumbers reread)

/-- A JSON value, as a script has it. -/
def Rune.scriptValue {ν σ : Type} (host : Rune ν σ) (value : Json ν) : Json ν :=
  value.mapNumbers host.asRune

/-- Serde, as the store uses it. -/
def Rune.serde {ν σ : Type} (host : Rune ν σ) : ScriptStore.Serde (Json ν) (Json ν) where
  toValue value := .ok value
  toVec value := (host.toVec value).mapError Complaint.text
  fromValue value := (host.fromValue value).mapError Complaint.text
  unprintable := host.unprintable

/-! ## A run -/

/-- Where a script is left before its end. -/
inductive Stop where
  /-- A `?` on an `Err`. -/
  | error (fault : Fault)
  /-- A `?` on a `None`. -/
  | none
  /-- The virtual machine. -/
  | vm

/-- What a handler can change. -/
structure Machine (ν σ : Type) where
  store : ScriptStore.Store (Json ν)
  world : World σ
  records : List Record

abbrev Script (ν σ α : Type) := ExceptT Stop (StateM (Machine ν σ)) α

section Steps

variable {ν σ α : Type} (host : Rune ν σ) (ctx : RequestCtx)

/-- `?` on a `Result`. -/
def tryResult (result : Except Fault α) : Script ν σ α :=
  ExceptT.mk (pure (result.mapError Stop.error))

/-- `?` on an `Option`. -/
def tryOption : Option α → Script ν σ α
  | some value => pure value
  | none => throw .none

/-- What the virtual machine can do with a value, or not. -/
def orStop : Option α → Script ν σ α
  | some value => pure value
  | none => throw .vm

/-- `bmc::call(…).await?`. -/
def bmc (action : Action σ α) : Script ν σ α := ExceptT.mk fun machine =>
  let ended := exec action machine.world
  (ended.1.mapError Stop.error, { machine with world := ended.2 })

/-- `store::call(…)?`. -/
def storeCall (op : ScriptStore.Op (Json ν)) : Script ν σ (ScriptStore.Reply (Json ν)) :=
  ExceptT.mk fun machine =>
    let ended := ScriptStore.step host.serde machine.store ⟨some 0, op⟩
    (ended.1.mapError fun text => Stop.error [.display text], { machine with store := ended.2 })

def storeSet (key : Text) (value : Json ν) : Script ν σ Unit := do
  let _ ← storeCall host (.set key value)

def storeGetOr (key : Text) (fallback : Json ν) : Script ν σ (Json ν) := do
  match ← storeCall host (.getOr key fallback) with
  | .valueOr value => return value
  | _ => throw .vm

def storeRemovePrefix (start : Text) : Script ν σ Unit := do
  let _ ← storeCall host (.removePrefix start)

/-- A record goes to the log. -/
def logged (record : Except Fault Record) : Script ν σ Unit := do
  let record ← tryResult record
  ExceptT.lift (modify fun machine => { machine with records := machine.records ++ [record] })

/-- `log::request("info", false)?`, the first line of a handler. -/
def logInbound : Script ν σ Unit := logged (logRequest host.toHost ctx "info".toList false)

/-- `.log("info", true)?` on a response the script built. -/
def finishScript (response : ScriptResponse) : Script ν σ (Returned ScriptResponse) := do
  logged (response.record host.toHost ctx "info".toList true)
  return .script response

/-- `.rewrite()?.log("info", true)?` on one. -/
def rewriteScript (response : ScriptResponse) : Script ν σ (Returned ScriptResponse) := do
  finishScript host ctx (← tryResult (response.rewrite host.toHost ctx))

/-- `.rewrite()?.log("info", true)?` on a forwarded one. -/
def rewriteForwarded (response : Forwarded) : Script ν σ (Returned ScriptResponse) := do
  let response ← tryResult (response.rewrite host.toHost ctx)
  logged (response.record host.toHost ctx "info".toList true)
  return .forwarded response

/-- `req.json()?`. -/
def requestJson (req : ScriptRequest) : Script ν σ (Json ν) :=
  tryResult (bodyJson host.toHost req.body "request".toList)

/-! ## Following a run -/

variable {host ctx} (machine : Machine ν σ)

@[simp] theorem exec_tryResult_ok (value : α) :
    exec (tryResult (.ok value) : Script ν σ α) machine = (.ok value, machine) := rfl

@[simp] theorem exec_tryResult_error (fault : Fault) :
    exec (tryResult (.error fault) : Script ν σ α) machine = (.error (.error fault), machine) := rfl

@[simp] theorem exec_tryOption_some (value : α) :
    exec (tryOption (some value) : Script ν σ α) machine = (.ok value, machine) := rfl

@[simp] theorem exec_tryOption_none :
    exec (tryOption none : Script ν σ α) machine = (.error .none, machine) := rfl

@[simp] theorem exec_orStop_some (value : α) :
    exec (orStop (some value) : Script ν σ α) machine = (.ok value, machine) := rfl

@[simp] theorem exec_orStop_none :
    exec (orStop none : Script ν σ α) machine = (.error .vm, machine) := rfl

@[simp] theorem exec_bmc (action : Action σ α) :
    exec (bmc action : Script ν σ α) machine =
      ((exec action machine.world).1.mapError Stop.error,
        { machine with world := (exec action machine.world).2 }) := rfl

@[simp] theorem exec_storeCall (op : ScriptStore.Op (Json ν)) :
    exec (storeCall host op : Script ν σ _) machine =
      ((ScriptStore.step host.serde machine.store ⟨some 0, op⟩).1.mapError
        fun text => Stop.error [.display text],
        { machine with store := ScriptStore.next host.serde machine.store ⟨some 0, op⟩ }) := rfl

@[simp] theorem exec_logInbound : exec (logInbound host ctx) machine =
    (.ok (), { machine with records := machine.records ++ [.request "info".toList
      ctx.parts.method.name ctx.parts.uri.path ctx.target.display
      (redactHeaders ctx.parts.headers) none] }) := rfl

/-- The machine after the record of a response. -/
def Machine.logs (machine : Machine ν σ) (record : Record) : Machine ν σ :=
  { machine with records := machine.records ++ [record] }

@[simp] theorem Machine.logs_store (record : Record) : (machine.logs record).store = machine.store :=
  rfl

@[simp] theorem Machine.logs_world (record : Record) : (machine.logs record).world = machine.world :=
  rfl

theorem exec_finishScript (response : ScriptResponse) :
    ∃ record, exec (finishScript host ctx response) machine =
      (.ok (.script response), machine.logs record) := ⟨_, rfl⟩

end Steps

/-! ## The store of the scripts -/

section Stored

variable {ν σ : Type} (host : Rune ν σ) (store : ScriptStore.Store (Json ν))

/-- A `set` goes through whole, or fails and changes nothing. -/
theorem step_set_cases (key : Text) (value : Json ν) :
    (∃ text, ScriptStore.step host.serde store ⟨some 0, .set key value⟩ = (.error text, store)) ∨
      ScriptStore.step host.serde store ⟨some 0, .set key value⟩ =
        (.ok .done, { store with entries := store.entries.insert key value }) := by
  rcases ScriptStore.step_cases host.serde store ⟨some 0, .set key value⟩ with
    ⟨k, v, json, hop, _, haccepts, _, hstep⟩ | ⟨k, hop, _⟩ | ⟨start, hop, _⟩ | ⟨hnext, hquiet⟩
  · obtain ⟨rfl, rfl⟩ : key = k ∧ value = v := by
      injection hop with hkey hvalue
      exact ⟨hkey, hvalue⟩
    obtain rfl : value = json := by
      have hjson := haccepts.1
      injection hjson
    exact .inr hstep
  · cases hop
  · cases hop
  · rcases hquiet with ⟨text, htext⟩ | ⟨k, hop⟩ | ⟨k, fallback, hop⟩ | ⟨k, hop⟩
    · exact .inl ⟨text, Prod.ext htext hnext⟩
    · cases hop
    · cases hop
    · cases hop

variable {host store}

/-- `get_or` answers what is held, as a script has it, or else the fallback. -/
theorem step_getOr_eq (h : ScriptStore.Bounded host.serde store) {key : Text}
    (hkey : ScriptStore.IsKey key) (fallback : Json ν) :
    (ScriptStore.step host.serde store ⟨some 0, .getOr key fallback⟩).1 =
      .ok (.valueOr (((store.entries.lookup key).map host.scriptValue).getD fallback)) := by
  rw [ScriptStore.step_getOr host.serde h hkey 0 fallback]
  cases store.entries.lookup key with
  | none => rfl
  | some value =>
      show Except.map ScriptStore.Reply.valueOr
        (ScriptStore.toScriptValue host.serde value) = _
      unfold ScriptStore.toScriptValue Rune.serde
      simp only [host.fromValue_eq]
      rfl

end Stored

/-! ## What a script has of a document -/

section Values

variable {ν σ : Type} (host : Rune ν σ)

@[simp] theorem scriptValue_null : host.scriptValue .null = .null := rfl

@[simp] theorem scriptValue_bool (b : Bool) : host.scriptValue (.bool b) = .bool b := rfl

@[simp] theorem scriptValue_string (text : Text) :
    host.scriptValue (.string text) = .string text := rfl

@[simp] theorem scriptValue_array (items : List (Json ν)) :
    host.scriptValue (.array items) = .array (items.map host.scriptValue) := by
  unfold Rune.scriptValue
  rw [Json.mapNumbers, Json.mapItems_eq]

@[simp] theorem scriptValue_object (fields : Json.Fields ν) : host.scriptValue (.object fields) =
    .object (fields.map fun field => (field.1, host.scriptValue field.2)) := by
  unfold Rune.scriptValue
  rw [Json.mapNumbers, Json.mapFields_eq]

theorem get_scriptValue (value : Json ν) (key : Text) :
    (host.scriptValue value).get key = (value.get key).map host.scriptValue := by
  cases value with
  | object fields =>
      rw [scriptValue_object]
      exact Json.Fields.get_map host.scriptValue fields key
  | array items =>
      rw [scriptValue_array]
      rfl
  | null => rfl
  | bool b => rfl
  | number n => rfl
  | string text => rfl

variable {host} {bytes : List UInt8} {value : Json ν}

theorem fits_scriptValue {d : Nat} (h : Json.Fits d value) : Json.Fits d (host.scriptValue value) :=
  h.mapNumbers host.asRune

theorem scriptFromSlice_of_fromSlice (h : host.fromSlice bytes = .ok value) :
    host.scriptFromSlice bytes = .ok (host.scriptValue value) := by
  rw [host.scriptFromSlice_eq, h]
  rfl

theorem scriptFromSlice_of_error {error : Complaint} (h : host.fromSlice bytes = .error error) :
    host.scriptFromSlice bytes = .error error := by
  rw [host.scriptFromSlice_eq, h]
  rfl

/-- What a script has of a body is what serde has of it, but for the numbers. -/
theorem scriptFromSlice_ok_iff : host.scriptFromSlice bytes = .ok value ↔
    ∃ parsed, host.fromSlice bytes = .ok parsed ∧ value = host.scriptValue parsed := by
  constructor
  · intro h
    rw [host.scriptFromSlice_eq] at h
    cases hread : host.fromSlice bytes with
    | error error =>
        rw [hread] at h
        cases h
    | ok parsed =>
        rw [hread] at h
        injection h with h
        exact ⟨parsed, rfl, h.symm⟩
  · rintro ⟨parsed, hread, rfl⟩
    exact scriptFromSlice_of_fromSlice hread

theorem fits_of_scriptFromSlice (h : host.scriptFromSlice bytes = .ok value) :
    Json.Fits host.limit value := by
  obtain ⟨parsed, hread, rfl⟩ := scriptFromSlice_ok_iff.mp h
  exact fits_scriptValue (host.fits_of_fromSlice bytes parsed hread)

end Values

/-! ## Serde on what a script builds -/

section Served

variable {ν σ : Type} (host : Rune ν σ) (ctx : RequestCtx)

theorem fits_rewriteValue (target : SocketAddrV4) (base : Text) {d : Nat} {value : Json ν}
    (h : Json.Fits d value) : Json.Fits d (rewriteValue target base value) := by
  induction h with
  | null => exact .null
  | bool b => exact .bool b
  | number n => exact .number n
  | string text => exact .string _
  | array _ ih =>
      rw [rewriteValue, rewriteItems_eq]
      refine .array ?_
      intro item hitem
      obtain ⟨item, hmem, rfl⟩ := List.mem_map.mp hitem
      exact ih item hmem
  | object hsorted _ ih =>
      rw [rewriteValue, rewriteFields_eq]
      refine .object (List.pairwise_map.mpr hsorted) ?_
      intro field hfield
      obtain ⟨field, hmem, rfl⟩ := List.mem_map.mp hfield
      exact ih field hmem

/-- What the caller reads of a document that was rewritten. -/
def served (document : Json ν) : Json ν :=
  (rewriteValue ctx.target ctx.base.asStr (document.mapNumbers host.reread)).mapNumbers host.reread

@[simp] theorem served_null : served host ctx .null = .null := rfl

@[simp] theorem served_bool (b : Bool) : served host ctx (.bool b) = .bool b := rfl

/-- A text without a URL is served as it is. -/
theorem served_plain {text : Text} (h : containsSep text = false) :
    served host ctx (.string text) = .string text := by
  unfold served
  rw [Json.mapNumbers, rewriteValue, h]
  rfl

@[simp] theorem served_array (items : List (Json ν)) :
    served host ctx (.array items) = .array (items.map (served host ctx)) := by
  unfold served
  rw [Json.mapNumbers, Json.mapItems_eq, rewriteValue, rewriteItems_eq, Json.mapNumbers,
    Json.mapItems_eq, List.map_map, List.map_map]
  rfl

@[simp] theorem served_object (fields : Json.Fields ν) : served host ctx (.object fields) =
    .object (fields.map fun field => (field.1, served host ctx field.2)) := by
  unfold served
  rw [Json.mapNumbers, Json.mapFields_eq, rewriteValue, rewriteFields_eq, Json.mapNumbers,
    Json.mapFields_eq, List.map_map, List.map_map]
  rfl

theorem get_served (document : Json ν) (key : Text) :
    (served host ctx document).get key = (document.get key).map (served host ctx) := by
  cases document with
  | object fields =>
      rw [served_object]
      exact Json.Fields.get_map (served host ctx) fields key
  | array items =>
      rw [served_array]
      rfl
  | null => rfl
  | bool b => rfl
  | number n => rfl
  | string text => rfl

/-- A document with a JSON response around it, as the caller gets it. -/
structure Carries (response : ScriptResponse) (status : Nat) (document : Json ν) : Prop where
  status : response.status = clampStatus status
  document : host.fromSlice response.body = .ok (served host ctx document)
  contentType : response.contentType = "application/json".toList
  headers : response.headers = []

/-- What parses is not empty. -/
theorem isEmpty_of_fromSlice {body : List UInt8} {value : Json ν}
    (hread : host.fromSlice body = .ok value) : body.isEmpty = false := by
  cases body with
  | nil =>
      obtain ⟨error, herror⟩ := host.fromSlice_nil
      rw [herror] at hread
      cases hread
  | cons b body => rfl

/-- A declared body that parses is rewritten. -/
theorem rewriteJson_of_fromSlice (target : SocketAddrV4) (base : Text) {type : Option Text}
    (htype : jsonContentType type = true) {body : List UInt8} {value : Json ν}
    (hread : host.fromSlice body = .ok value) :
    ∃ bytes, rewriteJson host.fromSlice host.toVec target base type body = .ok (some bytes) ∧
      host.fromSlice bytes = .ok ((rewriteValue target base value).mapNumbers host.reread) := by
  obtain ⟨bytes, hbytes, hback⟩ := host.toVec_ok _
    (fits_rewriteValue target base (host.fits_of_fromSlice body value hread))
  refine ⟨bytes, ?_, hback⟩
  unfold rewriteJson
  simp only [htype, isEmpty_of_fromSlice host hread, hread, hbytes]
  rfl

/-- **A document within the limit is rewritten**, and the caller can read it. -/
theorem rewrite_jsonResponse {document : Json ν} (h : Json.Fits host.limit document)
    (status : Nat) : ∃ response,
      (jsonResponse host.toHost status document).rewrite host.toHost ctx = .ok response ∧
        Carries host ctx response status document := by
  obtain ⟨body, hbody, hread⟩ := host.scriptToVec_ok document h
  have htype : jsonContentType (contentType (typeHeader "application/json".toList)) = true := by
    decide
  obtain ⟨bytes, hbytes, hback⟩ :=
    rewriteJson_of_fromSlice host ctx.target ctx.base.asStr htype hread
  -- the one header is the type, and it is no URL header
  have hrewrite : rewriteResponse host.fromSlice host.toVec ctx.target ctx.base.asStr
      (typeHeader "application/json".toList) body =
        .ok (typeHeader "application/json".toList, some bytes) := by
    show (rewriteJson host.fromSlice host.toVec ctx.target ctx.base.asStr
      (contentType (typeHeader "application/json".toList)) body >>= fun rewritten =>
        pure (typeHeader "application/json".toList, rewritten)) = _
    rw [hbytes]
    rfl
  refine ⟨{ statusResponse status with body := bytes }, ?_, rfl, hback, rfl, rfl⟩
  unfold jsonResponse ScriptResponse.rewrite
  rw [hbody]
  simp only [statusResponse, List.foldl_nil, hrewrite]
  rfl

theorem exec_rewriteScript (machine : Machine ν σ) {document : Json ν}
    (h : Json.Fits host.limit document) (status : Nat) : ∃ response record,
      exec (rewriteScript host ctx (jsonResponse host.toHost status document)) machine =
        (.ok (.script response), machine.logs record) ∧
        Carries host ctx response status document := by
  obtain ⟨response, hresponse, hcarries⟩ := rewrite_jsonResponse host ctx h status
  obtain ⟨record, hrecord⟩ : ∃ record, exec (finishScript host ctx response) machine =
      (.ok (.script response), machine.logs record) := exec_finishScript machine response
  refine ⟨response, record, ?_, hcarries⟩
  unfold rewriteScript
  rw [hresponse, exec_bind, exec_tryResult_ok]
  exact hrecord

end Served
end RedfishProxy.Shipped
