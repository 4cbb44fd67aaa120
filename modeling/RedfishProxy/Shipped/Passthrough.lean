import RedfishProxy.Script.Exchange
import RedfishProxy.Shipped.SerdeHost

/-!
# What the pass-through logs

`passthrough.rn` logs the request and the response with their bodies. Credential
headers are redacted in both records; the bodies are only clipped.

Main result:
* `passthrough_records_iff`: when two exchanges that differ in the values of
  credentials leave the same records.
-/

namespace RedfishProxy.Shipped

open Lib Http Script RuneHost

/-- `passthrough.rn`. -/
def passthrough {ν σ : Type} (host : Rune ν σ) : Handler ν σ := fun ctx _ => do
  logged (logRequest host.toHost ctx "info".toList true)
  let response ← bmc (forwarded host.toHost ctx)
  rewriteForwarded host ctx response

/-! ## Headers with other credentials -/

/-- The same name, and the same value unless it is a credential. -/
def SameEntry (entry entry' : HeaderName × HeaderValue) : Prop :=
  entry.1 = entry'.1 ∧ (isRedacted entry.1.name = false → entry.2 = entry'.2)

/-- The same headers in the same order, but for the values of credentials. -/
def SameButValues (headers headers' : HeaderMap) : Prop :=
  List.Forall₂ SameEntry headers.entries headers'.entries

namespace SameButValues

variable {headers headers' : HeaderMap}

theorem redactHeaders (h : SameButValues headers headers') :
    redactHeaders headers = redactHeaders headers' := by
  unfold Http.redactHeaders
  unfold SameButValues at h
  generalize headers.entries = entries at h
  generalize headers'.entries = entries' at h
  induction h with
  | nil => rfl
  | cons hentry _ ih =>
      obtain ⟨hname, hvalue⟩ := hentry
      rename_i e e' rest rest' _
      rw [List.map_cons, List.map_cons, ih]
      congr 1
      unfold redactHeader
      rw [← hname, e.1.map_toLower_name]
      cases hredacted : isRedacted e.1.name with
      | true => simp only [hredacted, if_true]
      | false => rw [hvalue hredacted]

theorem names (h : SameButValues headers headers') :
    headers.entries.map Prod.fst = headers'.entries.map Prod.fst := by
  unfold SameButValues at h
  generalize headers.entries = entries at h
  generalize headers'.entries = entries' at h
  induction h with
  | nil => rfl
  | cons hentry _ ih => rw [List.map_cons, List.map_cons, ih, hentry.1]

theorem getAll (h : SameButValues headers headers') {n : HeaderName}
    (hn : isRedacted n.name = false) : headers.getAll n = headers'.getAll n := by
  unfold HeaderMap.getAll
  unfold SameButValues at h
  generalize headers.entries = entries at h
  generalize headers'.entries = entries' at h
  induction h with
  | nil => rfl
  | cons hentry _ ih =>
      obtain ⟨hname, hvalue⟩ := hentry
      rename_i e e' rest rest' _
      rw [List.filterMap_cons, List.filterMap_cons, ih, ← hname]
      by_cases heq : e.1 = n
      · rw [hvalue (by rw [heq]; exact hn)]
      · simp only [heq, if_false]

theorem contentType (h : SameButValues headers headers') :
    Http.contentType headers = Http.contentType headers' := by
  unfold Http.contentType HeaderMap.get
  rw [h.getAll (by decide)]

theorem isJson (h : SameButValues headers headers') : Http.isJson headers = Http.isJson headers' := by
  unfold Http.isJson
  rw [h.contentType]

theorem refl (headers : HeaderMap) : SameButValues headers headers :=
  List.forall₂_same.mpr fun _ _ => ⟨rfl, fun _ => rfl⟩

/-! What is done to a map on its way keeps the relation. -/

theorem append (h : SameButValues headers headers') {entry entry' : HeaderName × HeaderValue}
    (hentry : SameEntry entry entry') :
    SameButValues (headers.append entry.1 entry.2) (headers'.append entry'.1 entry'.2) :=
  List.rel_append h (.cons hentry .nil)

theorem remove (h : SameButValues headers headers') (name : HeaderName) :
    SameButValues (headers.remove name) (headers'.remove name) := by
  refine List.rel_filter ?_ h
  intro entry entry' hentry
  simp only [hentry.1]

theorem appendWhere (h : SameButValues headers headers') (keep : HeaderName → Bool)
    {dest dest' : HeaderMap} (hdest : SameButValues dest dest') :
    SameButValues (HeaderMap.appendWhere keep headers dest)
      (HeaderMap.appendWhere keep headers' dest') := by
  unfold HeaderMap.appendWhere
  unfold SameButValues at h
  generalize headers.entries = entries at h
  generalize headers'.entries = entries' at h
  induction h generalizing dest dest' with
  | nil => exact hdest
  | cons hentry _ ih =>
      rename_i e e' rest rest' _
      rw [List.foldl_cons, List.foldl_cons]
      apply ih
      rw [← hentry.1]
      split
      · have happend := hdest.append hentry
        rwa [← hentry.1] at happend
      · exact hdest

theorem copyEndToEnd (h : SameButValues headers headers') :
    SameButValues (copyEndToEnd headers .new) (copyEndToEnd headers' .new) :=
  h.appendWhere isEndToEnd .nil

theorem rewriteHeader (h : SameButValues headers headers') (target : SocketAddrV4) (base : Text)
    {name : HeaderName} (hname : isRedacted name.name = false) :
    SameButValues (rewriteHeader target base headers name)
      (rewriteHeader target base headers' name) := by
  unfold Http.rewriteHeader
  simp only [h.getAll hname]
  split
  · exact h
  · have hremoved := h.remove name
    generalize headers.remove name = out at hremoved
    generalize headers'.remove name = out' at hremoved
    generalize (headers'.getAll name).map _ = values
    induction values generalizing out out' with
    | nil => exact hremoved
    | cons value values ih =>
        have hentry : SameEntry (name, value) (name, value) := ⟨rfl, fun _ => rfl⟩
        exact ih _ _ (hremoved.append hentry)

/-- A header that carries URLs is no credential. -/
theorem isRedacted_of_isUrlHeader {name : HeaderName} (h : isUrlHeader name.name = true) :
    isRedacted name.name = false := by
  have hmem : name.name ∈ bmcRelativeHeaders ++ foreignUrlHeaders := by
    unfold isUrlHeader isBmcRelative at h
    rw [Bool.or_eq_true, any_eqIgnoreAsciiCase (by decide), any_eqIgnoreAsciiCase (by decide)] at h
    exact List.mem_append.mpr h
  have hnone : ∀ t ∈ bmcRelativeHeaders ++ foreignUrlHeaders, isRedacted t = false := by decide
  exact hnone _ hmem

theorem rewriteHeaders (h : SameButValues headers headers') (target : SocketAddrV4) (base : Text) :
    SameButValues (rewriteHeaders target base headers) (rewriteHeaders target base headers') := by
  unfold Http.rewriteHeaders
  simp only [h.names]
  have hurls : ∀ name ∈ (headers'.entries.map Prod.fst).dedup.filter fun name =>
      isUrlHeader name.name, isRedacted name.name = false := by
    intro name hname
    exact isRedacted_of_isUrlHeader (List.mem_filter.mp hname).2
  generalize (headers'.entries.map Prod.fst).dedup.filter (fun name => isUrlHeader name.name) =
    names at hurls
  induction names generalizing headers headers' with
  | nil => exact h
  | cons name names ih =>
      refine ih (h.rewriteHeader target base (hurls name (by simp))) ?_
      intro n hn
      exact hurls n (by simp [hn])

end SameButValues

/-! ## Two exchanges -/

/-- A request, and the network it meets. -/
structure Exchange (σ : Type) where
  arrival : Arrival
  net : σ

/-- The replies are the same, but for the values of credentials and for bodies. -/
inductive SameReply : Except TransportError Reply → Except TransportError Reply → Prop where
  | error (error : TransportError) : SameReply (.error error) (.error error)
  | ok {reply reply' : Reply} (hstatus : reply.status = reply'.status)
      (hheaders : SameButValues reply.headers reply'.headers) : SameReply (.ok reply) (.ok reply')

/-- The bodies are the same, but for the `Password` of an object. -/
def SameButPassword {ν σ : Type} (host : Rune ν σ) (body body' : List UInt8) : Prop :=
  body = body' ∨ ∃ fields fields' : Json.Fields ν,
    host.fromSlice body = .ok (.object fields) ∧ host.fromSlice body' = .ok (.object fields') ∧
      Json.Fields.remove "Password".toList fields = Json.Fields.remove "Password".toList fields'

/-- Both bodies are no text, or the log clips them alike. -/
def RenderedAlike (fromUtf8 : List UInt8 → Except Complaint Text) (body body' : List UInt8) :
    Prop :=
  match fromUtf8 body, fromUtf8 body' with
  | .ok text, .ok text' => ClippedAlike text text'
  | .error _, .error _ => True
  | _, _ => False

theorem renderBody_eq_iff (fromUtf8 : List UInt8 → Except Complaint Text)
    (body body' : List UInt8) :
    renderBody fromUtf8 body = renderBody fromUtf8 body' ↔ RenderedAlike fromUtf8 body body' := by
  unfold renderBody RenderedAlike
  cases fromUtf8 body with
  | error error => cases fromUtf8 body' <;> simp
  | ok text =>
      cases fromUtf8 body' with
      | error error => simp
      | ok text' => rw [Option.some.injEq, truncateBody_eq_iff]

section Exchange

variable {ν σ : Type} (host : Rune ν σ) (target : SocketAddrV4) (base : Base)

/-- The context of a request. -/
def Exchange.ctx (exchange : Exchange σ) : RequestCtx :=
  requestCtx target base exchange.arrival.parts exchange.arrival.body

/-- What the BMC answers to the forwarded request. -/
def Exchange.reply (exchange : Exchange σ) : Except TransportError Reply :=
  (host.client (forward (exchange.ctx target base)) exchange.net).1

/-- What the pass-through logs, from whatever store. -/
def Exchange.records (store : ScriptStore.Store (Json ν)) (exchange : Exchange σ) : List Record :=
  (serve host (passthrough host) target base exchange.arrival store exchange.net).2.records

/-- The exchanges are the same, but for the values of credential headers and for bodies. -/
structure SameButSecrets (exchange exchange' : Exchange σ) : Prop where
  method : exchange.arrival.parts.method = exchange'.arrival.parts.method
  uri : exchange.arrival.parts.uri = exchange'.arrival.parts.uri
  headers : SameButValues exchange.arrival.parts.headers exchange'.arrival.parts.headers
  reply : SameReply (exchange.reply host target base) (exchange'.reply host target base)

/-- The bytes of a reply its record has, if it comes to one. -/
def loggedBody (reply : Reply) : Option (Option (List UInt8)) :=
  if isJson reply.headers then
    match reply.body with
    | .error _ => none
    | .ok bytes =>
      match rewriteJson host.fromSlice host.toVec target base.asStr (contentType reply.headers)
        bytes with
      | .error _ => none
      | .ok rewritten => some (some (rewritten.getD bytes))
  else some none

/-- Neither reply comes to a record, or neither body is logged, or they are logged alike. -/
def LoggedAlike (reply reply' : Reply) : Prop :=
  match loggedBody host target base reply, loggedBody host target base reply' with
  | some (some body), some (some body') => RenderedAlike host.fromUtf8 body body'
  | some none, some none => True
  | none, none => True
  | _, _ => False

/-- The same of what came back, which without a reply is the proxy's own. -/
def AnsweredAlike : Except TransportError Reply → Except TransportError Reply → Prop
  | .ok reply, .ok reply' => LoggedAlike host target base reply reply'
  | _, _ => True

/-! ## What is recorded -/

variable (ctx : RequestCtx)

def requestRecord : Record :=
  .request "info".toList ctx.parts.method.name ctx.parts.uri.path ctx.target.display
    (redactHeaders ctx.parts.headers) (renderBody host.fromUtf8 ctx.body)

def responseRecord (status : Nat) (headers : HeaderMap) (body : Option (List UInt8)) : Record :=
  .response "info".toList status ctx.target.display (redactHeaders headers)
    (body.bind (renderBody host.fromUtf8))

/-- The record of a forwarded response, with what is buffered of its body. -/
def forwardedRecord (response : Forwarded) : Record :=
  responseRecord host ctx response.status response.headers <|
    match response.body with
    | .buffered bytes => some bytes
    | .streaming _ => none

/-- A response that cannot be rewritten comes to none. -/
def forwardedRecords (response : Forwarded) : List Record :=
  match response.rewrite host.toHost ctx with
  | .ok response => [forwardedRecord host ctx response]
  | .error _ => []

def replyRecords (reply : Reply) : List Record :=
  match loggedBody host ctx.target ctx.base reply with
  | some body => [responseRecord host ctx reply.status
      (rewriteHeaders ctx.target ctx.base.asStr (copyEndToEnd reply.headers .new)) body]
  | none => []

/-- What is logged after the BMC answered, or did not. -/
def answerRecords (answer : Except TransportError Reply) : List Record :=
  match forwardedFrom host.toHost ctx answer with
  | .ok response => forwardedRecords host ctx response
  | .error _ => []

variable {host ctx}

theorem record_info (response : Forwarded) :
    response.record host.toHost ctx "info".toList true = .ok (forwardedRecord host ctx response) := by
  unfold Forwarded.record forwardedRecord
  cases response.body <;> rfl

theorem records_rewriteForwarded (machine : Machine ν σ) (response : Forwarded) :
    (exec (rewriteForwarded host ctx response) machine).2.records =
      machine.records ++ forwardedRecords host ctx response := by
  unfold rewriteForwarded forwardedRecords
  rw [exec_bind]
  cases response.rewrite host.toHost ctx with
  | error fault => simp
  | ok response =>
      rw [exec_tryResult_ok, thenExec_ok, record_info]
      rfl

/-- What a reply comes to, once it is forwarded and rewritten. -/
theorem answerRecords_ok (reply : Reply) :
    answerRecords host ctx (.ok reply) = replyRecords host ctx reply := by
  unfold replyRecords loggedBody answerRecords forwardedFrom intoForwarded
  simp only [isJson_copyEndToEnd]
  cases hjson : isJson reply.headers with
  | false => rfl
  | true =>
      cases reply.body with
      | error error => rfl
      | ok bytes =>
          have htype : contentType (rewriteHeaders ctx.target ctx.base.asStr
              (copyEndToEnd reply.headers .new)) = contentType reply.headers := by
            rw [contentType_rewriteHeaders, contentType_copyEndToEnd]
          show forwardedRecords host ctx ⟨reply.status, copyEndToEnd reply.headers .new,
            .buffered bytes⟩ = _
          unfold forwardedRecords Forwarded.rewrite rewriteResponse
          simp only [htype, if_true]
          cases rewriteJson host.fromSlice host.toVec ctx.target ctx.base.asStr
              (contentType reply.headers) bytes with
          | error fault => rfl
          | ok rewritten => rfl

/-- **The records of an exchange**: its request, and what came of it. -/
theorem records_eq (store : ScriptStore.Store (Json ν)) (exchange : Exchange σ) :
    exchange.records host target base store =
      requestRecord host (exchange.ctx target base) ::
        answerRecords host (exchange.ctx target base) (exchange.reply host target base) := by
  unfold Exchange.records serve Exchange.reply Exchange.ctx
  generalize requestCtx target base exchange.arrival.parts exchange.arrival.body = ctx
  show (exec (logged (logRequest host.toHost ctx "info".toList true) >>= fun _ =>
    bmc (forwarded host.toHost ctx) >>= fun response => rewriteForwarded host ctx response)
      (start store exchange.net)).2.records = _
  have hlogged : exec (logged (logRequest host.toHost ctx "info".toList true))
      (start store exchange.net) = (.ok (), { start store exchange.net with
        records := [requestRecord host ctx] }) := rfl
  rw [exec_bind, hlogged, thenExec_ok, exec_bind, exec_bmc, exec_forwarded]
  unfold answerRecords
  dsimp only [start]
  cases forwardedFrom host.toHost ctx (host.client (forward ctx) exchange.net).1 with
  | error fault => rfl
  | ok response => exact records_rewriteForwarded _ response

/-! ## The same records -/

/-- The body is logged exactly where it is buffered. -/
theorem loggedBody_isSome (reply : Reply) {body : Option (List UInt8)}
    (h : loggedBody host target base reply = some body) : body.isSome = isJson reply.headers := by
  unfold loggedBody at h
  split at h
  · rename_i hjson
    rw [hjson]
    split at h
    · cases h
    · split at h
      · cases h
      · injection h with h
        rw [← h]
        rfl
  · rename_i hjson
    injection h with h
    rw [← h, Bool.eq_false_iff.mpr hjson]
    rfl

/-- The records of replies that are the same but for credentials and bodies. -/
theorem replyRecords_eq_iff {reply reply' : Reply} {ctx' : RequestCtx}
    (htarget : ctx.target = ctx'.target) (hbase : ctx.base = ctx'.base)
    (hstatus : reply.status = reply'.status) (hheaders : SameButValues reply.headers reply'.headers) :
    replyRecords host ctx reply = replyRecords host ctx' reply' ↔
      LoggedAlike host ctx.target ctx.base reply reply' := by
  have hredacted := (hheaders.copyEndToEnd.rewriteHeaders ctx.target ctx.base.asStr).redactHeaders
  unfold replyRecords LoggedAlike
  rw [← htarget, ← hbase]
  cases hbody : loggedBody host ctx.target ctx.base reply with
  | none => cases loggedBody host ctx.target ctx.base reply' <;> simp
  | some body =>
      cases hbody' : loggedBody host ctx.target ctx.base reply' with
      | none => cases body <;> simp
      | some body' =>
          have hsame : body.isSome = body'.isSome := by
            rw [loggedBody_isSome _ _ reply hbody, loggedBody_isSome _ _ reply' hbody', hheaders.isJson]
          unfold responseRecord
          rw [List.singleton_inj, Record.response.injEq, hstatus, hredacted, htarget]
          cases body with
          | none =>
              obtain rfl : body' = none := by simpa using hsame.symm
              simp
          | some body =>
              obtain ⟨body', rfl⟩ := Option.isSome_iff_exists.mp hsame.symm
              simp only [true_and, Option.bind_some]
              exact renderBody_eq_iff host.fromUtf8 body body'

/-- Without a reply, the request alone says what is logged. -/
theorem answerRecords_error {ctx' : RequestCtx} (htarget : ctx.target = ctx'.target)
    (hbase : ctx.base = ctx'.base) (huri : ctx.parts.uri = ctx'.parts.uri)
    (error : TransportError) :
    answerRecords host ctx (.error error) = answerRecords host ctx' (.error error) := by
  have hurl : outboundUrl host.toHost (forward ctx) = outboundUrl host.toHost (forward ctx') := by
    unfold outboundUrl forward
    rw [htarget, huri]
  unfold answerRecords forwardedFrom forwardedRecords forwardedRecord responseRecord
    Forwarded.rewrite
  rw [hurl, huri, htarget, hbase]

variable {target base}

theorem requestRecord_eq_iff {exchange exchange' : Exchange σ}
    (h : SameButSecrets host target base exchange exchange') :
    requestRecord host (exchange.ctx target base) = requestRecord host (exchange'.ctx target base) ↔
      RenderedAlike host.fromUtf8 exchange.arrival.body exchange'.arrival.body := by
  unfold requestRecord
  rw [Record.request.injEq, ← renderBody_eq_iff]
  unfold Exchange.ctx requestCtx
  rw [h.method, h.uri, h.headers.redactHeaders]
  simp

/-- **Two exchanges leave the same records exactly when their bodies are logged
alike**, whatever the credentials in their headers are. -/
theorem passthrough_records_iff {exchange exchange' : Exchange σ}
    (h : SameButSecrets host target base exchange exchange')
    (store store' : ScriptStore.Store (Json ν)) :
    exchange.records host target base store = exchange'.records host target base store' ↔
      RenderedAlike host.fromUtf8 exchange.arrival.body exchange'.arrival.body ∧
        AnsweredAlike host target base (exchange.reply host target base)
          (exchange'.reply host target base) := by
  rw [records_eq, records_eq, List.cons.injEq]
  refine and_congr (requestRecord_eq_iff h) ?_
  have hreply := h.reply
  have hfailure : ∀ error : TransportError, answerRecords host (exchange.ctx target base)
      (.error error) = answerRecords host (exchange'.ctx target base) (.error error) := by
    intro error
    apply answerRecords_error
    · rfl
    · rfl
    · exact h.uri
  generalize exchange.reply host target base = answer at hreply ⊢
  generalize exchange'.reply host target base = answer' at hreply ⊢
  cases hreply with
  | error error => simp [hfailure, AnsweredAlike]
  | ok hstatus hheaders =>
      rw [answerRecords_ok, answerRecords_ok]
      exact replyRecords_eq_iff rfl rfl hstatus hheaders

end Exchange

/-! ## Another cookie -/

def firstCookie : HeaderValue := ⟨[105, 61, 51], by decide⟩

def secondCookie : HeaderValue := ⟨[105, 61, 52], by decide⟩

/-- A request with a cookie, and nobody to answer it. -/
def cookieExchange (cookie : HeaderValue) : Exchange Unit where
  arrival := {
    parts := { postWithCookie with headers := HeaderMap.new.append COOKIE cookie }
    body := [] }
  net := ()

theorem passthrough_records_cookie :
    SameButSecrets quietHost bmcTarget proxyBase (cookieExchange firstCookie)
        (cookieExchange secondCookie) ∧
      firstCookie ≠ secondCookie ∧
      (cookieExchange firstCookie).records quietHost bmcTarget proxyBase ScriptStore.new =
        (cookieExchange secondCookie).records quietHost bmcTarget proxyBase ScriptStore.new := by
  have hsame : SameButSecrets quietHost bmcTarget proxyBase (cookieExchange firstCookie)
      (cookieExchange secondCookie) := by
    refine ⟨rfl, rfl, .cons ⟨rfl, ?_⟩ .nil, .error unreachable⟩
    intro hplain
    exact absurd hplain (by decide)
  refine ⟨hsame, by decide, ?_⟩
  rw [passthrough_records_iff hsame]
  exact ⟨.inl rfl, trivial⟩

/-! ## A session with another password -/

/-- The body that opens a session. -/
def sessionDocument (password : Text) : Json Nat :=
  .ofFields [("UserName".toList, .string "root".toList), ("Password".toList, .string password)]

def sessionParts : Parts where
  method := .POST
  uri := { path := "/redfish/v1/SessionService/Sessions".toList, query := none }
  headers := typeHeader "application/json".toList

def sessionExchange (password : Text) : Exchange Unit where
  arrival := { parts := sessionParts, body := writeBody (sessionDocument password) }
  net := ()

theorem parseBody_session (password : Text) :
    parseBody (writeBody (sessionDocument password)) = .ok (sessionDocument password) := by
  apply parseBody_writeBody
  apply Json.fits_ofFields
  simp only [List.forall_mem_cons]
  exact ⟨.string _, .string _, by simp⟩

/-- What serde reads of the body. -/
theorem fromSlice_session (password : Text) :
    ∃ fields : Json.Fields Nat, quietHost.fromSlice (sessionExchange password).arrival.body = .ok (.object fields) ∧
      Json.Fields.remove "Password".toList fields = [("UserName".toList, .string "root".toList)] := by
  refine ⟨[("Password".toList, .string password), ("UserName".toList, .string "root".toList)],
    ?_, rfl⟩
  unfold quietHost
  rw [fromSlice_serdeHost]
  exact parseBody_session password

theorem reply_session (password : Text) :
    (sessionExchange password).reply quietHost bmcTarget proxyBase = .error unreachable := rfl

theorem sameButSecrets_session (password password' : Text) :
    SameButSecrets quietHost bmcTarget proxyBase (sessionExchange password)
      (sessionExchange password') := by
  refine ⟨rfl, rfl, .refl _, ?_⟩
  rw [reply_session, reply_session]
  exact .error unreachable

theorem fromUtf8_writeBody (document : Json Nat) :
    quietHost.fromUtf8 (writeBody document) = .ok (Json.write decimals document) := by
  show ((Json.utf8Decode (Json.utf8Encode _)).map Except.ok).getD _ = _
  rw [Json.utf8Decode_utf8Encode]
  rfl

/-- A short body is logged whole. -/
theorem renderedAlike_session {password password' : Text}
    (hshort : (Json.write decimals (sessionDocument password)).byteLen ≤ MAX_BODY_LOG)
    (h : RenderedAlike quietHost.fromUtf8 (writeBody (sessionDocument password))
      (writeBody (sessionDocument password'))) :
    sessionDocument password = sessionDocument password' := by
  unfold RenderedAlike at h
  rw [fromUtf8_writeBody, fromUtf8_writeBody] at h
  have htext : Json.write decimals (sessionDocument password) =
      Json.write decimals (sessionDocument password') := by
    rcases h with h | h
    · exact h
    · omega
  have hbody := parseBody_session password
  unfold writeBody at hbody
  rw [htext] at hbody
  have hbody' := parseBody_session password'
  unfold writeBody at hbody'
  rw [hbody'] at hbody
  injection hbody with hbody
  exact hbody.symm

/-- **The password of a session is logged**: another password, another record. -/
theorem passthrough_logs_password :
    SameButSecrets quietHost bmcTarget proxyBase (sessionExchange "a".toList)
        (sessionExchange "b".toList) ∧
      SameButPassword quietHost (sessionExchange "a".toList).arrival.body
        (sessionExchange "b".toList).arrival.body ∧
      (sessionExchange "a".toList).reply quietHost bmcTarget proxyBase =
        (sessionExchange "b".toList).reply quietHost bmcTarget proxyBase ∧
      (sessionExchange "a".toList).records quietHost bmcTarget proxyBase ScriptStore.new ≠
        (sessionExchange "b".toList).records quietHost bmcTarget proxyBase ScriptStore.new := by
  have hsame := sameButSecrets_session "a".toList "b".toList
  refine ⟨hsame, ?_, ?_, ?_⟩
  · obtain ⟨fields, hread, hremove⟩ := fromSlice_session "a".toList
    obtain ⟨fields', hread', hremove'⟩ := fromSlice_session "b".toList
    exact .inr ⟨fields, fields', hread, hread', hremove.trans hremove'.symm⟩
  · rw [reply_session, reply_session]
  · intro heq
    rw [records_eq, records_eq, List.cons.injEq, requestRecord_eq_iff hsame] at heq
    have hdocument := renderedAlike_session (by decide) heq.1
    have hpassword := congrArg
      (fun document : Json Nat => (document.get "Password".toList).bind Json.asStr) hdocument
    exact absurd hpassword (by decide)

end RedfishProxy.Shipped
