import RedfishProxy.Shipped.Rune

/-!
# Serving a request with a script

`run_script` around a handler: the request and the context it is given, and the
response that comes of its end. A handler that does not come to a response is
answered by a 502.
-/

namespace RedfishProxy.Shipped

open Lib Http Script RuneHost

/-- `pub async fn handle(req)`, within the context of its request. -/
abbrev Handler (ν σ : Type) := RequestCtx → ScriptRequest → Script ν σ (Returned ScriptResponse)

/-- A request as it comes in. -/
structure Arrival where
  parts : Parts
  body : List UInt8

/-- `ProxyError::into_response`. -/
def errorResponse (error : Proxy.ProxyError) : Response where
  status := (intoResponse error).1
  headers := typeHeader "application/json".toList
  body := .buffered (Json.utf8Encode (intoResponse error).2)

section Answer

variable {ν σ : Type} (host : Rune ν σ) (ctx : RequestCtx)

/-- The end of a run, as the virtual machine hands it on. -/
def ended : Except Stop (Returned ScriptResponse) → Ended host.toHost ctx ScriptResponse
  | .ok (.script response) => .returned (.ok (.scriptResponse (.ok response)))
  | .ok (.forwarded response) => .returned (.ok (.forwarded (.ok response)))
  | .error (.error fault) => .returned (.err (.string (Fault.text host.unprintable fault)))
  -- the `None` itself is what the handler returns
  | .error .none => .returned (.bare (.other none))
  | .error .vm => .failed host.vmError

/-- The response to the caller. -/
def answer (result : Except Stop (Returned ScriptResponse)) : Response :=
  match runScript (ended host ctx result) with
  | .ok (.script response) => finishScriptResponse response
  | .ok (.forwarded response) => finishForwarded response
  | .error error => errorResponse error

@[simp] theorem answer_script (response : ScriptResponse) :
    answer host ctx (.ok (.script response)) = finishScriptResponse response := rfl

@[simp] theorem answer_forwarded (response : Forwarded) :
    answer host ctx (.ok (.forwarded response)) = finishForwarded response := rfl

@[simp] theorem status_answer_error (stop : Stop) :
    (answer host ctx (.error stop)).status = 502 := by
  cases stop <;> rfl

/-- What a handler starts from. -/
def start (store : ScriptStore.Store (Json ν)) (net : σ) : Machine ν σ where
  store := store
  world := { ids := none, net }
  records := []

/-- And where it is once the request is logged. -/
def opened (store : ScriptStore.Store (Json ν)) (net : σ) : Machine ν σ :=
  (start store net).logs (.request "info".toList ctx.parts.method.name ctx.parts.uri.path
    ctx.target.display (redactHeaders ctx.parts.headers) none)

/-- Every handler logs first. -/
theorem exec_opened {α : Type} (next : Script ν σ α) (store : ScriptStore.Store (Json ν))
    (net : σ) : exec (logInbound host ctx >>= fun _ => next) (start store net) =
      exec next (opened ctx store net) := by
  rw [exec_bind, exec_logInbound]
  rfl

end Answer

section Serve

variable {ν σ : Type} (host : Rune ν σ) (handler : Handler ν σ) (target : SocketAddrV4)
  (base : Base)

/-- A request, served from the first line of its handler to the last. -/
def serve (arrival : Arrival) (store : ScriptStore.Store (Json ν)) (net : σ) :
    Response × Machine ν σ :=
  let ctx := requestCtx target base arrival.parts arrival.body
  let run := exec (handler ctx (scriptRequest arrival.parts arrival.body)) (start store net)
  (answer host ctx run.1, run.2)

end Serve

/-- The caller can read the document in the response. -/
def Shows {ν σ : Type} (host : Rune ν σ) (response : Response) (document : Json ν) :
    Prop :=
  ∃ bytes, response.body = .buffered bytes ∧ host.fromSlice bytes = .ok document

section Shows

variable {ν σ : Type} {host : Rune ν σ} {response : Response} {document document' : Json ν}

theorem Shows.unique (h : Shows host response document)
    (h' : Shows host response document') : document = document' := by
  obtain ⟨bytes, hbody, hread⟩ := h
  obtain ⟨bytes', hbody', hread'⟩ := h'
  rw [hbody] at hbody'
  injection hbody' with hbytes
  rw [← hbytes, hread] at hread'
  injection hread'

theorem Carries.shows {ctx : RequestCtx} {response : ScriptResponse} {status : Nat}
    (h : Carries host ctx response status document) :
    Shows host (finishScriptResponse response) (served host ctx document) :=
  ⟨response.body, rfl, h.document⟩

end Shows
end RedfishProxy.Shipped
