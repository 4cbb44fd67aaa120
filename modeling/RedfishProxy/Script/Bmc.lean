import RedfishProxy.Http.Base
import RedfishProxy.Http.Headers
import RedfishProxy.Http.Fault

/-!
# Requests to the BMC

`forward` relays the inbound request; `dispatch` sends one a script built, and
`inbound` seeds such a request from the inbound one. Each is modelled up to what
it hands the upstream client, an `Outbound`. What the client answers is a
parameter of the modules that need it.
-/

namespace RedfishProxy.Script

open Lib Http

/-- What the upstream client is handed. -/
structure Outbound where
  method : Method
  url : Text
  headers : HeaderMap
  body : Option (List UInt8)
  deriving DecidableEq

/-- The bytes that are sent. No body and an empty one send the same. -/
def Outbound.bytes (outbound : Outbound) : List UInt8 := outbound.body.getD []

/-! ## The request context -/

/-- The headers a script's subrequests carry. -/
def relayed : List Text :=
  ["authorization".toList, "x-auth-token".toList, "odata-version".toList]

/-- Headers forwarded on a script's subrequests, a fixed set. -/
def relayHeaders (headers : HeaderMap) : HeaderMap :=
  relayed.foldl (fun out name =>
    match HeaderName.fromBytes name with
    | some name => (headers.getAll name).foldl (fun out value => out.append name value) out
    | none => out) .new

structure RequestCtx where
  target : SocketAddrV4
  /-- Relayed verbatim to the BMC and never shown to the script. -/
  relayHeaders : HeaderMap
  base : Base
  parts : Parts
  body : List UInt8

/-- The context `execute` puts around a handler. -/
def requestCtx (target : SocketAddrV4) (base : Base) (parts : Parts) (body : List UInt8) :
    RequestCtx where
  target := target
  relayHeaders := relayHeaders parts.headers
  base := base
  parts := parts
  body := body

/-! ## What a script may ask for -/

/-- A script supplies a path, never an authority. -/
def requireAbsolute (path : Text) : Except Fault Unit :=
  if "/".toList.isPrefixOf path && !"//".toList.isPrefixOf path then .ok ()
  else .error [
    .lit "bmc::* requires an absolute path beginning with a single '/', got ".toList,
    .debug path]

/-- Whether a script may set this header on a subrequest. -/
def scriptMaySet (name : Text) : Bool :=
  !isRedacted name && !isHopByHop name && !name.eqIgnoreAsciiCase "host".toList &&
    !name.eqIgnoreAsciiCase "content-length".toList

/-- A subrequest a script is assembling. -/
structure BmcRequest where
  method : Text
  path : Text
  body : Option (List UInt8)
  contentType : Option Text
  headers : List (Text × Text)
  deriving DecidableEq

/-! ## The three ways out -/

/-- `format!("https://{target}{rest}")`. -/
def urlTo (target : SocketAddrV4) (rest : Text) : Text :=
  "https://".toList ++ target.display ++ rest

/-- The path of a URI with its query, as it was written. -/
def pathAndQuery (uri : Uri) : Text :=
  match uri.query with
  | some query => uri.path ++ '?' :: query
  | none => uri.path

/-- What `forward` sends: the inbound request, unchanged. -/
def forward (ctx : RequestCtx) : Outbound where
  method := ctx.parts.method
  url := urlTo ctx.target (pathAndQuery ctx.parts.uri)
  headers := copyEndToEnd ctx.parts.headers .new
  body := some ctx.body

/-- One turn of the loop over the script's own headers. -/
def addScriptHeader (headers : HeaderMap) (header : Text × Text) : HeaderMap :=
  if !scriptMaySet header.1 then headers
  else
    match HeaderName.fromBytes header.1, HeaderValue.fromStr header.2 with
    | some name, some value => headers.append name value
    | _, _ => headers

/-- The `Content-Type` of a request with a body. -/
def insertContentType (request : BmcRequest) (headers : HeaderMap) : HeaderMap :=
  if request.body.isSome then
    match HeaderValue.fromStr (request.contentType.getD "application/json".toList) with
    | some value => headers.insert CONTENT_TYPE value
    | none => headers
  else headers

/-- The headers `dispatch` sends: the script's own, then the relayed ones over
them, then the content type. -/
def dispatchHeaders (ctx : RequestCtx) (request : BmcRequest) : HeaderMap :=
  insertContentType request
    (HeaderMap.insertFrom ctx.relayHeaders (request.headers.foldl addScriptHeader .new))

/-- What `dispatch` sends, or why it sends nothing. -/
def dispatch (ctx : RequestCtx) (request : BmcRequest) : Except Fault Outbound := do
  requireAbsolute request.path
  match Method.parse request.method with
  | none => .error [.debug request.method, .lit " is not an HTTP method".toList]
  | some method =>
    return {
      method
      url := urlTo ctx.target request.path
      headers := dispatchHeaders ctx request
      body := request.body }

/-- The inbound request as something a script can modify. -/
def inbound (ctx : RequestCtx) : BmcRequest where
  method := ctx.parts.method.name
  path := pathAndQuery ctx.parts.uri
  body := if ctx.body.isEmpty then none else some ctx.body
  contentType := contentType ctx.parts.headers
  headers := ctx.parts.headers.entries.filterMap fun e =>
    if scriptMaySet e.1.name then e.2.toStr.map fun text => (e.1.name, text) else none

/-! ## The values of one header -/

theorem getAll_relay_fold (headers : HeaderMap) (n : HeaderName) {names : List Text}
    (hnodup : names.Nodup)
    (hnames : ∀ t ∈ names, (HeaderName.fromBytes t).isSome ∧ t.map Char.toLower = t)
    (m : HeaderMap) :
    (names.foldl (fun out name =>
      match HeaderName.fromBytes name with
      | some name => (headers.getAll name).foldl (fun out value => out.append name value) out
      | none => out) m).getAll n =
      m.getAll n ++ if n.name ∈ names then headers.getAll n else [] := by
  induction names generalizing m with
  | nil => simp
  | cons t names ih =>
      obtain ⟨htnot, hnodup⟩ := List.nodup_cons.mp hnodup
      obtain ⟨hsome, hlower⟩ := hnames t (by simp)
      obtain ⟨tn, htn⟩ := Option.isSome_iff_exists.mp hsome
      have htname : tn.name = t := (HeaderName.name_of_fromBytes htn).trans hlower
      rw [List.foldl_cons, ih hnodup fun t' ht' => hnames t' (by simp [ht'])]
      simp only [htn, HeaderMap.getAll_foldl_append]
      by_cases h : tn = n
      · subst h
        simp [htname, htnot]
      · have hne : n.name ≠ t := fun heq => h (HeaderName.ext (htname.trans heq.symm))
        simp [h, hne]

/-- The relayed values of a name are the inbound ones, when it is relayed. -/
theorem getAll_relayHeaders (headers : HeaderMap) (n : HeaderName) :
    (relayHeaders headers).getAll n = if n.name ∈ relayed then headers.getAll n else [] := by
  unfold relayHeaders
  rw [getAll_relay_fold headers n (by decide) (by decide)]
  simp

/-- The filter reads a name as the crate does. -/
theorem scriptMaySet_of_fromBytes {raw : Text} {n : HeaderName}
    (h : HeaderName.fromBytes raw = some n) : scriptMaySet raw = scriptMaySet n.name := by
  have hcase := HeaderName.eqIgnoreAsciiCase_of_fromBytes h
  unfold scriptMaySet
  rw [isRedacted_of_fromBytes h, isHopByHop_of_fromBytes h, hcase, hcase]

/-- The value a script's header gives the name, if it gives it one. -/
def scriptValue (n : HeaderName) (header : Text × Text) : Option HeaderValue :=
  if HeaderName.fromBytes header.1 = some n then HeaderValue.fromStr header.2 else none

theorem scriptValue_eq_none {n : HeaderName} {header : Text × Text}
    (h : header.1.eqIgnoreAsciiCase n.name = false) : scriptValue n header = none := by
  unfold scriptValue
  split
  · rename_i hname
    -- a text the crate reads as the name is one the comparison accepts
    have hsame := HeaderName.eqIgnoreAsciiCase_of_fromBytes hname n.name
    rw [h] at hsame
    simp [Text.eqIgnoreAsciiCase] at hsame
  · rfl

theorem getAll_addScriptHeader (m : HeaderMap) (header : Text × Text) (n : HeaderName) :
    (addScriptHeader m header).getAll n =
      m.getAll n ++ if scriptMaySet n.name then (scriptValue n header).toList else [] := by
  unfold addScriptHeader scriptValue
  cases hname : HeaderName.fromBytes header.1 with
  | none => simp
  | some name =>
      rw [scriptMaySet_of_fromBytes hname]
      cases hvalue : HeaderValue.fromStr header.2 with
      | none => simp
      | some value =>
          by_cases h : name = n
          · subst h
            cases scriptMaySet name.name <;> simp
          · cases scriptMaySet name.name <;> simp [h]

/-- What a script's header list comes to: the headers it may set, as far as they
are headers at all. -/
theorem getAll_scriptHeaders (list : List (Text × Text)) (n : HeaderName) :
    (list.foldl addScriptHeader .new).getAll n =
      if scriptMaySet n.name then list.filterMap (scriptValue n) else [] := by
  have hturn : ∀ m header, (addScriptHeader m header).getAll n = m.getAll n ++
      (if scriptMaySet n.name then scriptValue n header else none).toList := by
    intro m header
    rw [getAll_addScriptHeader]
    split <;> rfl
  rw [HeaderMap.getAll_foldl hturn, HeaderMap.getAll_new, List.nil_append]
  split
  · rfl
  · simp

theorem getAll_insertContentType {n : HeaderName} {request : BmcRequest}
    (hn : n = CONTENT_TYPE → request.body = none) (m : HeaderMap) :
    (insertContentType request m).getAll n = m.getAll n := by
  unfold insertContentType
  split
  · rename_i hbody
    have hne : CONTENT_TYPE ≠ n := by
      intro h
      rw [hn h.symm] at hbody
      cases hbody
    split
    · rw [HeaderMap.getAll_insert, if_neg hne]
    · rfl
  · rfl

/-- **The values `dispatch` sends for a name**: the last relayed one where there
is one, and otherwise what the script set. -/
theorem getAll_dispatchHeaders {n : HeaderName} (ctx : RequestCtx) {request : BmcRequest}
    (hn : n = CONTENT_TYPE → request.body = none) : (dispatchHeaders ctx request).getAll n =
      match (ctx.relayHeaders.getAll n).getLast? with
      | some value => [value]
      | none => if scriptMaySet n.name then request.headers.filterMap (scriptValue n) else [] := by
  unfold dispatchHeaders
  rw [getAll_insertContentType hn, HeaderMap.getAll_insertFrom]
  cases (ctx.relayHeaders.getAll n).getLast? with
  | some value => rfl
  | none => exact getAll_scriptHeaders ..

theorem requireAbsolute_ok {path rest : Text} (hpath : path = '/' :: rest)
    (hrest : rest.head? ≠ some '/') : requireAbsolute path = .ok () := by
  have htwo : "//".toList.isPrefixOf path = false := by
    rw [hpath]
    cases rest with
    | nil => rfl
    | cons c rest =>
        have hc : ('/' == c) = false := by
          rw [beq_eq_false_iff_ne]
          intro h
          exact hrest (by simp [← h])
        simp [List.isPrefixOf, hc]
  have hone : "/".toList.isPrefixOf path = true := by simp [hpath, List.isPrefixOf]
  unfold requireAbsolute
  rw [hone, htwo]
  rfl

theorem dispatch_eq_ok {ctx : RequestCtx} {request : BmcRequest} {outbound : Outbound}
    (h : dispatch ctx request = .ok outbound) :
    (∃ rest, request.path = '/' :: rest ∧ rest.head? ≠ some '/') ∧
      Method.parse request.method = some outbound.method ∧
      outbound.url = urlTo ctx.target request.path ∧
      outbound.headers = dispatchHeaders ctx request ∧ outbound.body = request.body := by
  unfold dispatch requireAbsolute at h
  split at h
  · rename_i hpath
    cases hmethod : Method.parse request.method with
    | none =>
        rw [hmethod] at h
        cases h
    | some method =>
        rw [hmethod] at h
        obtain rfl : Outbound.mk method (urlTo ctx.target request.path)
          (dispatchHeaders ctx request) request.body = outbound := by injection h
        refine ⟨?_, rfl, rfl, rfl, rfl⟩
        cases hp : request.path with
        | nil => simp [hp] at hpath
        | cons c rest =>
            simp only [hp, Bool.and_eq_true, Bool.not_eq_true'] at hpath
            obtain ⟨hone, htwo⟩ := hpath
            obtain rfl : '/' = c := by simpa [List.isPrefixOf] using hone
            refine ⟨rest, rfl, ?_⟩
            intro hhead
            cases rest with
            | nil => simp at hhead
            | cons d rest =>
                obtain rfl : d = '/' := by simpa using hhead
                simp [List.isPrefixOf] at htwo
  · cases h

end RedfishProxy.Script
