import RedfishProxy.Http.Clip
import RedfishProxy.Script.Calls

/-!
# The records of the log

What `log::request` and the `log` methods hand to the subscriber: the head of
the message with credential headers redacted, and the body, clipped. A record
carries its fields as the macro renders them.
-/

namespace RedfishProxy.Http

open Lib

/-- Renders a body, unless it is not text. `fromUtf8` is the standard library's. -/
def renderBody (fromUtf8 : List UInt8 → Except Complaint Text) (body : List UInt8) : Option Text :=
  match fromUtf8 body with
  | .ok text => some (truncateBody text)
  | .error _ => none

def REDACTION : Text := "<redacted>".toList

/-- One rendered header. The name is kept, so that auth is seen to be present. -/
def redactHeader (entry : HeaderName × HeaderValue) : Text × Text :=
  let name := entry.1.name.map Char.toLower
  if isRedacted name then (name, REDACTION)
  else (name, entry.2.toStr.getD "<non-utf8>".toList)

def redactHeaders (headers : HeaderMap) : List (Text × Text) := headers.entries.map redactHeader

end RedfishProxy.Http

namespace RedfishProxy.Script

open Lib Http

/-- One record, at the level it is emitted with. -/
inductive Record where
  | request (level method path target : Text) (headers : List (Text × Text)) (body : Option Text)
  | response (level : Text) (status : Nat) (target : Text) (headers : List (Text × Text))
      (body : Option Text)
  deriving DecidableEq

/-- `emit!`: a level named at runtime has to be one there is. -/
def emit (level : Text) (record : Record) : Except Fault Record :=
  if Forwarded.levels.contains level then .ok record
  else .error [.debug level,
    .lit " is not a level; use trace, debug, info, warn or error".toList]

section Log

variable {ν V σ : Type} (host : Host ν V σ) (ctx : RequestCtx)

/-- `log::request`. -/
def logRequest (level : Text) (withBody : Bool) : Except Fault Record :=
  let body := if withBody then renderBody host.fromUtf8 ctx.body else none
  emit level (.request level ctx.parts.method.name ctx.parts.uri.path ctx.target.display
    (redactHeaders ctx.parts.headers) body)

/-- The outbound record, shared by both response shapes. -/
def logResponse (level : Text) (status : Nat) (headers : HeaderMap) (body : Option (List UInt8)) :
    Except Fault Record :=
  emit level (.response level status ctx.target.display (redactHeaders headers)
    (body.bind (renderBody host.fromUtf8)))

/-- The record `Forwarded.log` emits. A streaming body is never read for it. -/
def Forwarded.record (forwarded : Forwarded) (level : Text) (withBody : Bool) :
    Except Fault Record :=
  let body :=
    match forwarded.body, withBody with
    | .buffered bytes, true => some bytes
    | _, _ => none
  logResponse host ctx level forwarded.status forwarded.headers body

end Log
end RedfishProxy.Script
