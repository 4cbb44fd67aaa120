import RedfishProxy.Http.Rewrite
import RedfishProxy.Lib.Throws
import RedfishProxy.Script.Bmc

/-!
# The `bmc` module

The calls of the `bmc` module that can fail, each as an action on the world the
upstream client lives in. A handler runs inside a request, so `request_ctx`
finds its context. Rune values (`V`), serde, the decoders, the url crate and the
client are a `Host`.
-/

namespace RedfishProxy.Script

open Lib Http

/-- A response of the BMC. Its body is what reading it to the end comes to. -/
structure Reply where
  status : Nat
  headers : HeaderMap
  body : Except Text (List UInt8)

/-- The crates under the module. -/
structure Host (ν V σ : Type) where
  fromSlice : List UInt8 → Except Complaint (Json ν)
  toVec : Json ν → Except Complaint (List UInt8)
  fromValue : Json ν → Except Complaint V
  scriptFromSlice : List UInt8 → Except Complaint V
  scriptToVec : V → Except Complaint (List UInt8)
  /-- A number of JSON. -/
  ofNat : Nat → ν
  fromUtf8 : List UInt8 → Except Complaint Text
  decodeBase64 : Text → Except Complaint (List UInt8)
  /-- The path of a URL, if it is one. -/
  urlPath : Text → Option Text
  parseHost : Text → Option Text
  pathSet : Char → Bool
  unprintable : Char → Bool
  client : Outbound → σ → Except TransportError Reply × σ
  /-- A dotted address is a host, and stays as it is. -/
  parseHost_display : ∀ ip : Ipv4Addr, parseHost ip.display = some ip.display

/-- The system and the manager a script operates on. -/
structure Ids where
  system : Text
  manager : Text

/-- What a call can change: the ids the request has resolved, and the network. -/
structure World (σ : Type) where
  ids : Option Ids
  net : σ

abbrev Action (σ α : Type) := ExceptT Fault (StateM (World σ)) α

/-! ## Responses -/

inductive ForwardedBody where
  | buffered (bytes : List UInt8)
  | streaming (response : Reply)

structure Forwarded where
  status : Nat
  headers : HeaderMap
  body : ForwardedBody

structure BmcResponse where
  status : Nat
  headers : HeaderMap
  body : List UInt8

def isSuccess (status : Nat) : Bool := 200 ≤ status && status < 300

/-- `{"error":{"code":…,"message":…}}`, as it is written. -/
def errorBody (message : Text) : Text :=
  "\x7b\"error\":\x7b\"code\":\"Base.1.0.GeneralError\",\"message\":".toList ++
    Json.quote message ++ "\x7d\x7d".toList

/-- The response a caller gets when the BMC could not be reached. -/
def gatewayFailure (status : Nat) (message : Text) : Forwarded where
  status := status
  headers :=
    match HeaderValue.fromStr "application/json".toList with
    | some value => HeaderMap.new.insert CONTENT_TYPE value
    | none => .new
  body := .buffered ((errorBody message).flatMap String.utf8EncodeChar)

/-- Reads a body to the end, or fails with the text of the error. -/
def readBody (what : Text) (body : Except Text (List UInt8)) : Except Fault (List UInt8) :=
  body.mapError fun error => [.lit (what ++ " failed: ".toList), .display error]

def intoForwarded (response : Reply) : Except Fault Forwarded := do
  let headers := copyEndToEnd response.headers .new
  if isJson headers then
    let bytes ← readBody "reading the forwarded body".toList response.body
    return { status := response.status, headers, body := .buffered bytes }
  else
    return { status := response.status, headers, body := .streaming response }

section Calls

variable {ν V σ : Type} (host : Host ν V σ) (ctx : RequestCtx)

def bodyJson (body : List UInt8) (what : Text) : Except Fault V :=
  (host.scriptFromSlice body).mapError fun error =>
    [.lit (what ++ " body is not valid JSON: ".toList), .complaint error]

def bodyText (body : List UInt8) (what : Text) : Except Fault Text :=
  (host.fromUtf8 body).mapError fun error =>
    [.lit (what ++ " body is not valid UTF-8: ".toList), .complaint error]

def toScriptValue (json : Json ν) : Except Fault V :=
  (host.fromValue json).mapError fun error =>
    [.lit "building a script value: ".toList, .complaint error]

/-! ## Building a request -/

/-- `bmc::request`. -/
def newRequest (method path : Text) : Except Fault BmcRequest := do
  requireAbsolute path
  return {
    method := method.map Char.toUpper
    path
    body := none
    contentType := none
    headers := [] }

namespace BmcRequest

def json (request : BmcRequest) (value : V) : Except Fault BmcRequest := do
  let bytes ← (host.scriptToVec value).mapError fun error =>
    [.lit "body is not serialisable as JSON: ".toList, .complaint error]
  return { request with
    body := some bytes
    contentType := some (request.contentType.getD "application/json".toList) }

def text (request : BmcRequest) (body : Text) : BmcRequest :=
  { request with
    body := some (body.flatMap String.utf8EncodeChar)
    contentType := some (request.contentType.getD "text/plain; charset=utf-8".toList) }

def base64 (request : BmcRequest) (body : Text) : Except Fault BmcRequest := do
  let bytes ← (host.decodeBase64 body).mapError fun error =>
    [.lit "body is not valid base64: ".toList, .complaint error]
  return { request with
    body := some bytes
    contentType := some (request.contentType.getD "application/octet-stream".toList) }

def setContentType (request : BmcRequest) (value : Text) : BmcRequest :=
  { request with contentType := some value }

def setPath (request : BmcRequest) (value : Text) : Except Fault BmcRequest := do
  requireAbsolute value
  return { request with path := value }

def header (request : BmcRequest) (name value : Text) : Except Fault BmcRequest :=
  if scriptMaySet name then .ok { request with headers := request.headers ++ [(name, value)] }
  else .error [.lit "a script may not set ".toList, .debug name,
    .lit ", since auth and framing are the proxy's".toList]

end BmcRequest

/-! ## Sending one -/

/-- The client, on the network of the world. -/
def clientSend (outbound : Outbound) : StateM (World σ) (Except TransportError Reply) :=
  fun world =>
    let answer := host.client outbound world.net
    (answer.1, { world with net := answer.2 })

/-- The URL a request goes to, as the client reads it. -/
def outboundUrl (outbound : Outbound) : Option Whatwg.Url :=
  Whatwg.parse host.parseHost host.pathSet outbound.url

/-- The rest of `dispatch`: the request goes out, and a failure comes back as a
text. -/
def dispatched (request : BmcRequest) : Action σ Reply := do
  let outbound ← fromResult (dispatch ctx request)
  match ← ExceptT.lift (clientSend host outbound) with
  | .ok response => return response
  | .error error =>
    throw [.lit "subrequest to ".toList, .display request.path, .lit " failed: ".toList,
      .transport error (outboundUrl host outbound)]

def sendRequest (request : BmcRequest) : Action σ BmcResponse := do
  let response ← dispatched host ctx request
  let body ← fromResult (readBody "reading subrequest body".toList response.body)
  return { status := response.status, headers := copyEndToEnd response.headers .new, body }

def sendForwarded (request : BmcRequest) : Action σ Forwarded := do
  let response ← dispatched host ctx request
  fromResult (intoForwarded response)

/-- `bmc::forward`. A transport failure is a response here, not an error. -/
def forwarded : Action σ Forwarded := do
  match ← ExceptT.lift (clientSend host (forward ctx)) with
  | .ok response => fromResult (intoForwarded response)
  | .error error =>
    return gatewayFailure (if error.isTimeout then 504 else 502)
      ("forwarding ".toList ++ ctx.parts.uri.path ++ ": ".toList ++
        error.display (outboundUrl host (forward ctx)))

/-- One subrequest of a verb helper. -/
def subrequest (method path : Text) (body : Option (List UInt8)) : Action σ BmcResponse :=
  sendRequest host ctx {
    method, path, body
    contentType := some "application/json".toList
    headers := [] }

/-- `bmc::post`, `bmc::patch` and `bmc::put`. -/
def subrequestWith (method path : Text) (body : V) : Action σ BmcResponse := do
  let encoded ← fromResult ((host.scriptToVec body).mapError fun error =>
    [.lit "request body is not serialisable as JSON: ".toList, .complaint error])
  subrequest host ctx method path (some encoded)

def getJson (path : Text) : Action σ (Json ν) := do
  let response ← subrequest host ctx "GET".toList path none
  if !isSuccess response.status then
    throw [.lit "GET ".toList, .display path, .lit " returned ".toList,
      .display (decimal response.status)]
  fromResult ((host.fromSlice response.body).mapError fun error =>
    [.lit "GET ".toList, .display path, .lit " body is not valid JSON: ".toList,
      .complaint error])

/-! ## Collections -/

def lastSegment (id : Text) : Option Text :=
  let trimmed := id.trimEndMatches '/'
  let segment := trimmed.rtakeWhile (· != '/')
  if segment.isEmpty then none else some segment

/-- A member link as a path. -/
def memberPath (id : Text) : Except Fault Text :=
  match host.urlPath id with
  | some path => .ok path
  | none =>
    if "/".toList.isPrefixOf id then .ok id
    else .error [.lit "member link ".toList, .debug id,
      .lit " is neither an absolute URL nor a path".toList]

def memberIds (collection : Json ν) : List Text :=
  match (collection.index "Members".toList).asArray with
  | none => []
  | some members => members.filterMap fun member =>
    (member.index "@odata.id".toList).asStr.bind lastSegment

/-- More than a link. -/
def isExpanded (member : Json ν) : Bool :=
  member.asObject.any fun fields => fields.any fun field =>
    !"@odata.".toList.isPrefixOf field.1

def expandMember (path : Text) (member : Json ν) : Action σ (Json ν) := do
  match (member.index "@odata.id".toList).asStr with
  | none =>
    -- The colon is part of the argument here, since it could start a port.
    throw [.display (path ++ [':']), .lit " a Members entry has no @odata.id".toList]
  | some id =>
    let link ← fromResult (memberPath host id)
    getJson host ctx link

/-- `collection["Members"] = …`. -/
def withMembers (members : List (Json ν)) : Json ν → Json ν
  | .object fields => .object (Json.Fields.insert "Members".toList (.array members) fields)
  | value => value

def expandCollection (path : Text) : Action σ V := do
  fromResult (requireAbsolute path)
  let separator := if '?' ∈ path then '&' else '?'
  let collection ← getJson host ctx (path ++ separator :: "$expand=.($levels=1)".toList)
  let members := (collection.index "Members".toList).asArray.getD []
  if members.all isExpanded then fromResult (toScriptValue host collection)
  else
    let expanded ← members.mapM (expandMember host ctx path)
    fromResult (toScriptValue host (withMembers expanded collection))

def emptyCollectionJson (id name : Text) : Json ν :=
  .object [("@odata.id".toList, .string id), ("Members".toList, .array []),
    ("Members@odata.count".toList, .number (host.ofNat 0)), ("Name".toList, .string name)]

def expandOrEmpty (path name : Text) : Action σ V := do
  match ← attempt (expandCollection host ctx path) with
  | .ok collection => return collection
  | .error _ => fromResult (toScriptValue host (emptyCollectionJson host path name))

/-! ## The system and its manager -/

/-- The first system with a `Bios`. A failed fetch just means "not this one". -/
def findBios : List Text → Action σ (Option (Text × Json ν))
  | [] => return none
  | id :: rest => do
    match ← attempt (getJson host ctx ("/redfish/v1/Systems/".toList ++ id)) with
    | .ok system =>
      if (system.get "Bios".toList).isSome then return some (id, system) else findBios rest
    | .error _ => findBios rest

/-- The manager a system names. -/
def managedBy (system : Json ν) : Option Text := do
  let managers ← ((system.index "Links".toList).index "ManagedBy".toList).asArray
  let first ← managers.head?
  (first.index "@odata.id".toList).asStr.bind lastSegment

def resolveIds : Action σ Ids := do
  let world ← ExceptT.lift get
  if let some ids := world.ids then return ids
  let systems := memberIds (← getJson host ctx "/redfish/v1/Systems".toList)
  match (systems.find? (· == "System_0".toList)).or systems.head? with
  | none => throw [.lit "no systems found under /redfish/v1/Systems".toList]
  | some preferred =>
    let found ← findBios host ctx (preferred :: systems.filter (· != preferred))
    let manager ← match found.bind fun pair => managedBy pair.2 with
      | some manager => pure manager
      | none => do
        let managers := memberIds (← getJson host ctx "/redfish/v1/Managers".toList)
        match managers.head? with
        | some manager => pure manager
        | none => throw [.lit "no managers found under /redfish/v1/Managers".toList]
    let ids : Ids := { system := (found.map Prod.fst).getD preferred, manager }
    ExceptT.lift (modify fun world => { world with ids := some ids })
    return ids

/-- `bmc::sleep`, whose time is not modelled. -/
def sleep (millis : Int) : Except Fault Unit :=
  if millis < 0 then .error [.lit "bmc::sleep needs a positive delay".toList] else .ok ()

/-! ## What is done with a response -/

namespace Forwarded

def json (forwarded : Forwarded) : Except Fault V :=
  match forwarded.body with
  | .buffered bytes => bodyJson host bytes "forwarded response".toList
  | .streaming _ => .error [
      .lit "a streaming response has no body to parse; call .buffer() first".toList]

def text (forwarded : Forwarded) : Except Fault Text :=
  match forwarded.body with
  | .buffered bytes => bodyText host bytes "forwarded response".toList
  | .streaming _ => .error [
      .lit "a streaming response has no body to read; call .buffer() first".toList]

def buffer (forwarded : Forwarded) : Except Fault Forwarded :=
  match forwarded.body with
  | .buffered _ => .ok forwarded
  | .streaming response => do
    let bytes ← readBody "buffering the forwarded body".toList response.body
    return { forwarded with body := .buffered bytes }

/-- The levels a record can be logged at. -/
def levels : List Text :=
  ["trace".toList, "debug".toList, "info".toList, "warn".toList, "error".toList]

/-- What is logged is not modelled. -/
def log (forwarded : Forwarded) (level : Text) : Except Fault Forwarded :=
  if levels.contains level then .ok forwarded
  else .error [.debug level,
    .lit " is not a level; use trace, debug, info, warn or error".toList]

def rewrite (forwarded : Forwarded) : Except Fault Forwarded :=
  match forwarded.body with
  | .buffered bytes => do
    let (headers, rewritten) ← rewriteResponse host.fromSlice host.toVec ctx.target ctx.base.asStr
      forwarded.headers bytes
    return { forwarded with headers, body := .buffered (rewritten.getD bytes) }
  | .streaming _ => .ok { forwarded with
      headers := rewriteHeaders ctx.target ctx.base.asStr forwarded.headers }

end Forwarded

/-! ## A call -/

/-- The calls of the module that can fail. -/
inductive Call (V : Type) where
  | requestJson
  | requestText
  | request (method path : Text)
  | json (request : BmcRequest) (value : V)
  | base64 (request : BmcRequest) (body : Text)
  | path (request : BmcRequest) (value : Text)
  | header (request : BmcRequest) (name value : Text)
  | send (request : BmcRequest)
  | forward
  | forwardWith (request : BmcRequest)
  | forwardedJson (forwarded : Forwarded)
  | forwardedText (forwarded : Forwarded)
  | buffer (forwarded : Forwarded)
  | rewrite (forwarded : Forwarded)
  | log (forwarded : Forwarded) (level : Text)
  | responseJson (response : BmcResponse)
  | responseText (response : BmcResponse)
  | get (path : Text)
  | delete (path : Text)
  | post (path : Text) (body : V)
  | patch (path : Text) (body : V)
  | put (path : Text) (body : V)
  | expandCollection (path : Text)
  | expandOrEmpty (path name : Text)
  | sleep (millis : Int)
  | systemId
  | managerId
  | pathOf (id : Text)

/-- What a call answers. -/
inductive Answer (V : Type) where
  | unit
  | value (value : V)
  | text (text : Text)
  | request (request : BmcRequest)
  | forwarded (forwarded : Forwarded)
  | response (response : BmcResponse)

def runCall : Call V → Action σ (Answer V)
  | .requestJson => .value <$> fromResult (bodyJson host ctx.body "request".toList)
  | .requestText => .text <$> fromResult (bodyText host ctx.body "request".toList)
  | .request method path => .request <$> fromResult (newRequest method path)
  | .json request value => .request <$> fromResult (request.json host value)
  | .base64 request body => .request <$> fromResult (request.base64 host body)
  | .path request value => .request <$> fromResult (request.setPath value)
  | .header request name value => .request <$> fromResult (request.header name value)
  | .send request => .response <$> sendRequest host ctx request
  | .forward => .forwarded <$> forwarded host ctx
  | .forwardWith request => .forwarded <$> sendForwarded host ctx request
  | .forwardedJson forwarded => .value <$> fromResult (forwarded.json host)
  | .forwardedText forwarded => .text <$> fromResult (forwarded.text host)
  | .buffer forwarded => .forwarded <$> fromResult forwarded.buffer
  | .rewrite forwarded => .forwarded <$> fromResult (forwarded.rewrite host ctx)
  | .log forwarded level => .forwarded <$> fromResult (forwarded.log level)
  | .responseJson response => .value <$> fromResult (bodyJson host response.body "response".toList)
  | .responseText response => .text <$> fromResult (bodyText host response.body "response".toList)
  | .get path => .response <$> subrequest host ctx "GET".toList path none
  | .delete path => .response <$> subrequest host ctx "DELETE".toList path none
  | .post path body => .response <$> subrequestWith host ctx "POST".toList path body
  | .patch path body => .response <$> subrequestWith host ctx "PATCH".toList path body
  | .put path body => .response <$> subrequestWith host ctx "PUT".toList path body
  | .expandCollection path => .value <$> expandCollection host ctx path
  | .expandOrEmpty path name => .value <$> expandOrEmpty host ctx path name
  | .sleep millis => (fun _ => .unit) <$> fromResult (sleep millis)
  | .systemId => (fun ids => .text ids.system) <$> resolveIds host ctx
  | .managerId => (fun ids => .text ids.manager) <$> resolveIds host ctx
  | .pathOf id => .text <$> fromResult (memberPath host id)

end Calls

end RedfishProxy.Script
