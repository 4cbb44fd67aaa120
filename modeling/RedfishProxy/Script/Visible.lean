import RedfishProxy.Lib.KeyMap
import RedfishProxy.RuneHost.Failure
import RedfishProxy.Script.Relay

/-!
# What a script can read

The request a handler is given, the request `bmc::inbound` seeds, and what the
methods of `BmcResponse` and `Forwarded` answer about a reply. Each reads the
header map through a filter of its own: `script_request` and `inbound` drop the
credential headers, `readable_header` refuses to look them up.

Main result:
* `credentials_unseen`: messages that agree on every other header look the same.
-/

namespace RedfishProxy.Script

open Lib Http

/-- The value a handler receives. Carries no target and no credential. -/
structure ScriptRequest where
  method : Text
  path : Text
  query : Text
  headers : KeyMap Text Text
  body : List UInt8

/-- One readable header, as the script sees it. -/
def readableEntry (entry : HeaderName × HeaderValue) : Option (Text × Text) :=
  if isRedacted entry.1.name then none
  else entry.2.toStr.map fun text => (entry.1.name.map Char.toLower, text)

/-- `script_request`: every credential header removed. -/
def scriptRequest (parts : Parts) (body : List UInt8) : ScriptRequest where
  method := parts.method.name
  path := parts.uri.path
  query := parts.uri.query.getD []
  -- collected into a map, which keeps the last value of a name
  headers := (parts.headers.entries.filterMap readableEntry).foldl
    (fun map header => map.insert header.1 header.2) ∅
  body := body

namespace ScriptRequest

def header (request : ScriptRequest) (name : Text) : Option Text :=
  request.headers.lookup (name.map Char.toLower)

def contentType (request : ScriptRequest) : Option Text := request.header "content-type".toList

def isJson (request : ScriptRequest) : Bool := jsonContentType request.contentType

end ScriptRequest

/-- A response header a script may read. -/
def readableHeader (headers : HeaderMap) (name : Text) : Option Text :=
  if isRedacted name then none
  else ((HeaderName.fromBytes name).bind headers.get).bind HeaderValue.toStr

/-- The reply of a subrequest, read whole. -/
def intoBmcResponse (response : Reply) : Except Fault BmcResponse := do
  let body ← readBody "reading subrequest body".toList response.body
  return { status := response.status, headers := copyEndToEnd response.headers .new, body }

/-- What the methods of a response answer. -/
structure View (V : Type) where
  status : Nat
  ok : Bool
  header : Text → Option Text
  contentType : Option Text
  isJson : Bool
  json : Except Fault V
  text : Except Fault Text

section View

variable {ν V σ : Type} (host : Host ν V σ)

def BmcResponse.ok (response : BmcResponse) : Bool := isSuccess response.status

def BmcResponse.isJson (response : BmcResponse) : Bool := Http.isJson response.headers

def BmcResponse.json (response : BmcResponse) : Except Fault V :=
  bodyJson host response.body "response".toList

def BmcResponse.view (response : BmcResponse) : View V where
  status := response.status
  ok := response.ok
  header := readableHeader response.headers
  contentType := contentType response.headers
  isJson := response.isJson
  json := response.json host
  text := bodyText host response.body "response".toList

def Forwarded.ok (response : Forwarded) : Bool := isSuccess response.status

def Forwarded.isJson (response : Forwarded) : Bool := Http.isJson response.headers

def Forwarded.view (response : Forwarded) : View V where
  status := response.status
  ok := response.ok
  header := readableHeader response.headers
  contentType := contentType response.headers
  isJson := response.isJson
  json := response.json host
  text := response.text host

variable (ctx : RequestCtx)

theorem sendRequest_eq (request : BmcRequest) : sendRequest host ctx request =
    dispatched host ctx request >>= fun response => fromResult (intoBmcResponse response) := by
  unfold sendRequest
  congr 1
  funext response
  unfold intoBmcResponse
  cases readBody "reading subrequest body".toList response.body <;> rfl

end View

/-! ## Messages that differ in credentials only -/

/-- The entries that are not credentials are the same, in the same order. -/
def Agree (headers headers' : HeaderMap) : Prop :=
  headers.entries.filter (fun e => !isRedacted e.1.name) =
    headers'.entries.filter (fun e => !isRedacted e.1.name)

namespace Agree

variable {headers headers' : HeaderMap}

/-- What reads no credential reads the same of both. -/
theorem filterMap {β : Type} {f : HeaderName × HeaderValue → Option β}
    (hf : ∀ e : HeaderName × HeaderValue, isRedacted e.1.name = true → f e = none)
    (h : Agree headers headers') : headers.entries.filterMap f = headers'.entries.filterMap f := by
  have hskip : ∀ entries : List (HeaderName × HeaderValue),
      entries.filterMap f = (entries.filter fun e => !isRedacted e.1.name).filterMap f := by
    intro entries
    rw [List.filterMap_filter]
    refine List.filterMap_congr ?_
    intro e _
    cases hredacted : isRedacted e.1.name with
    | true => simpa using hf e hredacted
    | false => simp
  rw [hskip headers.entries, hskip headers'.entries, h]

theorem getAll (h : Agree headers headers') {n : HeaderName} (hn : isRedacted n.name = false) :
    headers.getAll n = headers'.getAll n := by
  refine h.filterMap ?_
  intro e he
  refine if_neg ?_
  intro heq
  rw [heq, hn] at he
  cases he

theorem get (h : Agree headers headers') {n : HeaderName} (hn : isRedacted n.name = false) :
    headers.get n = headers'.get n := by
  unfold HeaderMap.get
  rw [h.getAll hn]

theorem contentType (h : Agree headers headers') :
    Http.contentType headers = Http.contentType headers' := by
  unfold Http.contentType
  rw [h.get (by decide)]

theorem isJson (h : Agree headers headers') : Http.isJson headers = Http.isJson headers' := by
  unfold Http.isJson
  rw [h.contentType]

/-- A name is looked up in lower case, and is a credential in any case. -/
theorem readableHeader (h : Agree headers headers') :
    readableHeader headers = readableHeader headers' := by
  funext name
  unfold Script.readableHeader
  cases hredacted : isRedacted name with
  | true => rfl
  | false =>
      cases hname : HeaderName.fromBytes name with
      | none => rfl
      | some n =>
          have hn : isRedacted n.name = false := (isRedacted_of_fromBytes hname).trans hredacted
          simp only [Option.bind_some, h.get hn]

theorem append (h : Agree headers headers') (e : HeaderName × HeaderValue) :
    Agree (headers.append e.1 e.2) (headers'.append e.1 e.2) := by
  unfold Agree HeaderMap.append
  rw [List.filter_append, List.filter_append, h]

/-- Both copies drop the same headers. -/
theorem copyEndToEnd (h : Agree headers headers') :
    Agree (copyEndToEnd headers .new) (copyEndToEnd headers' .new) := by
  have hentries : ∀ m : HeaderMap,
      (Http.copyEndToEnd m .new).entries = m.entries.filter fun e => isEndToEnd e.1 := by
    intro m
    suffices hfold : ∀ (entries : List (HeaderName × HeaderValue)) (dest : HeaderMap),
        (entries.foldl (fun dest e => if isEndToEnd e.1 then dest.append e.1 e.2 else dest)
          dest).entries = dest.entries ++ entries.filter fun e => isEndToEnd e.1 from
      (hfold m.entries .new).trans (List.nil_append _)
    intro entries
    induction entries with
    | nil => simp
    | cons e entries ih =>
        intro dest
        rw [List.foldl_cons, ih]
        cases hkeep : isEndToEnd e.1 <;> simp [hkeep, HeaderMap.append]
  unfold Agree
  rw [hentries, hentries, List.filter_filter, List.filter_filter]
  have hswap : ∀ entries : List (HeaderName × HeaderValue),
      entries.filter (fun e => !isRedacted e.1.name && isEndToEnd e.1) =
        (entries.filter fun e => !isRedacted e.1.name).filter fun e => isEndToEnd e.1 := by
    intro entries
    rw [List.filter_filter]
    refine List.filter_congr ?_
    intro e _
    exact Bool.and_comm ..
  rw [hswap, hswap, h]

end Agree

/-- Two requests that differ in credential headers only. -/
structure SameButCredentials (parts parts' : Parts) : Prop where
  method : parts.method = parts'.method
  uri : parts.uri = parts'.uri
  headers : Agree parts.headers parts'.headers

/-- And two replies. -/
structure Reply.SameButCredentials (reply reply' : Reply) : Prop where
  status : reply.status = reply'.status
  headers : Agree reply.headers reply'.headers
  body : reply.body = reply'.body

section Main

variable {parts parts' : Parts}

theorem scriptRequest_congr (h : SameButCredentials parts parts') (body : List UInt8) :
    scriptRequest parts body = scriptRequest parts' body := by
  have hread : parts.headers.entries.filterMap readableEntry =
      parts'.headers.entries.filterMap readableEntry := by
    refine h.headers.filterMap ?_
    intro e he
    exact if_pos he
  unfold scriptRequest
  rw [h.method, h.uri, hread]

theorem inbound_congr (h : SameButCredentials parts parts') (target : SocketAddrV4) (base : Base)
    (body : List UInt8) : inbound (requestCtx target base parts body) =
      inbound (requestCtx target base parts' body) := by
  have hseed : ∀ e : HeaderName × HeaderValue, isRedacted e.1.name = true →
      (if scriptMaySet e.1.name then e.2.toStr.map fun text => (e.1.name, text) else none) =
        none := by
    intro e he
    refine if_neg ?_
    simp [scriptMaySet, he]
  unfold inbound requestCtx pathAndQuery
  simp only [h.method, h.uri, h.headers.contentType, h.headers.filterMap hseed]

variable {ν V σ : Type} {reply reply' : Reply}

theorem view_bmcResponse_congr (host : Host ν V σ) (h : reply.SameButCredentials reply') :
    (intoBmcResponse reply).map (BmcResponse.view host) =
      (intoBmcResponse reply').map (BmcResponse.view host) := by
  have hcopy := h.headers.copyEndToEnd
  unfold intoBmcResponse
  rw [h.body]
  cases readBody "reading subrequest body".toList reply'.body with
  | error fault => rfl
  | ok bytes =>
      refine congrArg Except.ok ?_
      simp only [BmcResponse.view, BmcResponse.ok, BmcResponse.isJson, BmcResponse.json, h.status,
        hcopy.readableHeader, hcopy.contentType, hcopy.isJson]

theorem view_forwarded_congr (host : Host ν V σ) (h : reply.SameButCredentials reply') :
    (intoForwarded reply).map (Forwarded.view host) =
      (intoForwarded reply').map (Forwarded.view host) := by
  have hcopy := h.headers.copyEndToEnd
  unfold intoForwarded
  simp only [hcopy.isJson, h.body]
  -- buffered when the reply declares JSON, streaming otherwise
  cases Http.isJson (copyEndToEnd reply'.headers .new) with
  | true =>
      simp only [if_true]
      cases readBody "reading the forwarded body".toList reply'.body with
      | error fault => rfl
      | ok bytes =>
          refine congrArg Except.ok ?_
          simp only [Forwarded.view, Forwarded.ok, Forwarded.isJson, Forwarded.json,
            Forwarded.text, h.status, hcopy.readableHeader, hcopy.contentType, hcopy.isJson]
  | false =>
      refine congrArg Except.ok ?_
      simp only [Forwarded.view, Forwarded.ok, Forwarded.isJson, Forwarded.json,
        Forwarded.text, h.status, hcopy.readableHeader, hcopy.contentType, hcopy.isJson]

/-- **A script sees nothing of a credential**, neither of the one a request came
with nor of the one a reply carries. -/
theorem credentials_unseen (host : Host ν V σ) (target : SocketAddrV4) (base : Base)
    (body : List UInt8) (hrequest : SameButCredentials parts parts')
    (hreply : reply.SameButCredentials reply') :
    scriptRequest parts body = scriptRequest parts' body ∧
      inbound (requestCtx target base parts body) =
        inbound (requestCtx target base parts' body) ∧
      (intoBmcResponse reply).map (BmcResponse.view host) =
        (intoBmcResponse reply').map (BmcResponse.view host) ∧
      (intoForwarded reply).map (Forwarded.view host) =
        (intoForwarded reply').map (Forwarded.view host) :=
  ⟨scriptRequest_congr hrequest body, inbound_congr hrequest target base body,
    view_bmcResponse_congr host hreply, view_forwarded_congr host hreply⟩

end Main

/-- The same `POST` without its session cookie. -/
def postWithoutCookie : Parts := { postWithCookie with headers := .new }

/-- A reply that sets one. -/
def cookieReply : Reply where
  status := 204
  headers := HeaderMap.new.append ⟨"set-cookie".toList, by decide⟩ ⟨[115, 61, 50], by decide⟩
  body := .ok []

theorem credentials_unseen_cookie :
    SameButCredentials postWithCookie postWithoutCookie ∧
      cookieReply.SameButCredentials { cookieReply with headers := .new } ∧
      scriptRequest postWithCookie [] = scriptRequest postWithoutCookie [] ∧
      (intoBmcResponse cookieReply).map (BmcResponse.view RuneHost.unreachableHost) =
        (intoBmcResponse { cookieReply with headers := .new }).map
          (BmcResponse.view RuneHost.unreachableHost) := by
  have hrequest : SameButCredentials postWithCookie postWithoutCookie :=
    ⟨rfl, rfl, rfl⟩
  have hreply : cookieReply.SameButCredentials { cookieReply with headers := .new } :=
    ⟨rfl, rfl, rfl⟩
  obtain ⟨hseen, _, hview, _⟩ :=
    credentials_unseen RuneHost.unreachableHost bmcTarget proxyBase [] hrequest hreply
  exact ⟨hrequest, hreply, hseen, hview⟩

end RedfishProxy.Script
