import RedfishProxy.Http.HeaderFrame
import RedfishProxy.Lib.Run
import RedfishProxy.Script.Log

/-!
# Responses a script builds

`ScriptResponse` of the `resp` module, its constructors and methods, and how the
host finishes it or a forwarded response into what the caller gets.
-/

namespace RedfishProxy.Script

open Lib Http

/-- What a handler returns when it builds the response itself. -/
structure ScriptResponse where
  status : Nat
  contentType : Text
  body : List UInt8
  headers : List (Text × Text)

/-- A status a response can have, or 500. -/
def clampStatus (status : Nat) : Nat := if 100 ≤ status ∧ status < 600 then status else 500

/-- `resp::status`. -/
def statusResponse (status : Nat) : ScriptResponse where
  status := clampStatus status
  contentType := "application/json".toList
  body := []
  headers := []

/-- `resp::text`. -/
def textResponse (status : Nat) (body : Text) : ScriptResponse where
  status := clampStatus status
  contentType := "text/plain; charset=utf-8".toList
  body := body.flatMap String.utf8EncodeChar
  headers := []

/-- `HeaderMap::new` with the type of the response, where it is a header value. -/
def typeHeader (type : Text) : HeaderMap :=
  match HeaderValue.fromStr type with
  | some value => HeaderMap.new.insert CONTENT_TYPE value
  | none => .new

/-- One header of a script, as far as it is a header. -/
def appendHeader (headers : HeaderMap) (header : Text × Text) : HeaderMap :=
  match HeaderName.fromBytes header.1, HeaderValue.fromStr header.2 with
  | some name, some value => headers.append name value
  | _, _ => headers

section Build

variable {ν V σ : Type} (host : Host ν V σ) (ctx : RequestCtx)

/-- `resp::json`. A value serde cannot write becomes a response of its own. -/
def jsonResponse (status : Nat) (value : V) : ScriptResponse :=
  match host.scriptToVec value with
  | .ok body => { statusResponse status with body }
  | .error error => { statusResponse 500 with
      body := (errorBody ("script value is not serialisable as JSON: ".toList ++
        error.text)).flatMap String.utf8EncodeChar }

namespace ScriptResponse

omit host ctx in
def withHeader (response : ScriptResponse) (name value : Text) : ScriptResponse :=
  { response with headers := response.headers ++ [(name, value)] }

/-- The record `log` emits. -/
def record (response : ScriptResponse) (level : Text) (withBody : Bool) : Except Fault Record :=
  logResponse host ctx level response.status (typeHeader response.contentType)
    (if withBody then some response.body else none)

/-- The same swap as `Forwarded.rewrite`, over the script's own headers. -/
def rewrite (response : ScriptResponse) : Except Fault ScriptResponse := do
  let headers := response.headers.foldl appendHeader (typeHeader response.contentType)
  let (headers, rewritten) ← rewriteResponse host.fromSlice host.toVec ctx.target ctx.base.asStr
    headers response.body
  return { response with
    body := rewritten.getD response.body
    headers := (headers.entries.filter fun e => e.1 ≠ CONTENT_TYPE).filterMap fun e =>
      e.2.toStr.map fun text => (e.1.name, text) }

end ScriptResponse

theorem status_jsonResponse (status : Nat) (value : V) :
    (jsonResponse host status value).status = clampStatus status ∨
      (jsonResponse host status value).status = 500 := by
  unfold jsonResponse
  cases host.scriptToVec value with
  | ok body => exact .inl rfl
  | error error => exact .inr rfl

variable {host ctx}

/-- **What `rewrite` returns**: another body, and what can be read of the headers
it has rewritten. -/
theorem rewrite_eq_ok {response response' : ScriptResponse}
    (h : response.rewrite host ctx = .ok response') :
    ∃ body, response' = { response with
      body
      headers := ((rewriteHeaders ctx.target ctx.base.asStr (response.headers.foldl appendHeader
        (typeHeader response.contentType))).entries.filter fun e => e.1 ≠ CONTENT_TYPE).filterMap
          fun e => e.2.toStr.map fun text => (e.1.name, text) } := by
  obtain ⟨⟨headers, rewritten⟩, hrewrite, h⟩ := bind_ok h
  obtain ⟨_, _, hrewrite⟩ := bind_ok hrewrite
  obtain ⟨rfl, rfl⟩ := Prod.mk.inj (Except.ok.inj hrewrite)
  exact ⟨_, (Except.ok.inj h).symm⟩

theorem status_rewrite {response response' : ScriptResponse}
    (h : response.rewrite host ctx = .ok response') : response'.status = response.status := by
  obtain ⟨_, rfl⟩ := rewrite_eq_ok h
  rfl

end Build

/-! ## The declared type on the way -/

@[simp] theorem contentType_copyEndToEnd (headers : HeaderMap) :
    contentType (copyEndToEnd headers .new) = contentType headers := by
  unfold contentType HeaderMap.get
  rw [getAll_copyEndToEnd, HeaderMap.getAll_new, if_pos (by decide), List.nil_append]

@[simp] theorem isJson_copyEndToEnd (headers : HeaderMap) :
    isJson (copyEndToEnd headers .new) = isJson headers := by
  unfold isJson
  rw [contentType_copyEndToEnd]

/-! ## What the caller gets -/

structure Response where
  status : Nat
  headers : HeaderMap
  body : ForwardedBody

def CONTENT_LENGTH : HeaderName := ⟨"content-length".toList, by decide⟩

/-- The length of a body, as a header value. -/
def lengthValue (body : List UInt8) : HeaderValue where
  bytes := (decimal body.length).flatMap String.utf8EncodeChar
  isValid := by
    intro b hb
    obtain ⟨c, hc, hb⟩ := List.mem_flatMap.mp hb
    have hdigit := isDigit_of_mem_decimal hc
    have hlt := Text.isDigit_toNat hdigit
    refine Text.ascii_cases (P := fun c => c.isDigit = true →
      ∀ b ∈ String.utf8EncodeChar c, isValueByte b = true) ?_ (by omega) hdigit b hb
    decide

/-- A response with this body, its length declared. -/
def finished (status : Nat) (headers : HeaderMap) (body : List UInt8) : Response where
  status := status
  headers := headers.insert CONTENT_LENGTH (lengthValue body)
  body := .buffered body

/-- `finish_forwarded`. A streaming body is handed straight through. -/
def finishForwarded (forwarded : Forwarded) : Response :=
  match forwarded.body with
  | .buffered bytes => finished forwarded.status forwarded.headers bytes
  | .streaming response => {
      status := forwarded.status
      headers := forwarded.headers
      body := .streaming response }

/-- Header names a script must never be able to set. -/
def scriptForbiddenHeaders : List Text :=
  ["authorization".toList, "proxy-authorization".toList, "x-auth-token".toList]

/-- One header of the response, unless a script may not set it. -/
def finishHeader (headers : HeaderMap) (header : Text × Text) : HeaderMap :=
  match HeaderName.fromBytes header.1 with
  | none => headers
  | some name =>
    if scriptForbiddenHeaders.contains name.name || isHopByHop name.name then headers
    else
      match HeaderValue.fromStr header.2 with
      | some value => headers.append name value
      | none => headers

/-- `finish_script_response`. -/
def finishScriptResponse (response : ScriptResponse) : Response :=
  finished response.status (response.headers.foldl finishHeader (typeHeader response.contentType))
    response.body

@[simp] theorem status_finishScriptResponse (response : ScriptResponse) :
    (finishScriptResponse response).status = response.status := rfl

@[simp] theorem status_finishForwarded (forwarded : Forwarded) :
    (finishForwarded forwarded).status = forwarded.status := by
  unfold finishForwarded
  cases forwarded.body <;> rfl

end RedfishProxy.Script
