import RedfishProxy.Lib.Exec
import RedfishProxy.Script.Calls

/-!
# What a call comes to

A call of the `bmc` module that goes out asks the client once. Its run is what
the module makes of the answer, on the network the client leaves.
-/

namespace RedfishProxy.Script

open Lib Http

section Exchange

variable {ν V σ : Type} (host : Host ν V σ) (ctx : RequestCtx)

/-- The world after one exchange. -/
def World.after (world : World σ) (outbound : Outbound) : World σ :=
  { world with net := (host.client outbound world.net).2 }

/-- What `bmc::forward` makes of the answer. -/
def forwardedFrom : Except TransportError Reply → Except Fault Forwarded
  | .ok response => intoForwarded response
  | .error error => .ok (gatewayFailure (if error.isTimeout then 504 else 502)
      ("forwarding ".toList ++ ctx.parts.uri.path ++ ": ".toList ++
        error.display (outboundUrl host (forward ctx))))

/-- What `dispatch` makes of it. -/
def dispatchedFrom (path : Text) (outbound : Outbound) :
    Except TransportError Reply → Except Fault Reply
  | .ok response => .ok response
  | .error error => .error [.lit "subrequest to ".toList, .display path,
      .lit " failed: ".toList, .transport error (outboundUrl host outbound)]

/-- A reply that was read to its end. -/
def readReply (response : Reply) : Except Fault BmcResponse :=
  (readBody "reading subrequest body".toList response.body).map fun body =>
    { status := response.status, headers := copyEndToEnd response.headers .new, body }

variable (world : World σ)

theorem exec_fromResult {α : Type} (result : Except Fault α) :
    exec (fromResult result : Action σ α) world = (result, world) := rfl

theorem exec_forwarded : exec (forwarded host ctx) world =
    (forwardedFrom host ctx (host.client (forward ctx) world.net).1,
      world.after host (forward ctx)) := by
  unfold forwarded
  rw [exec_bind]
  show thenExec _ (Except.ok (host.client (forward ctx) world.net).1,
    world.after host (forward ctx)) = _
  cases (host.client (forward ctx) world.net).1 <;> rfl

variable {ctx} {request : BmcRequest}

theorem exec_dispatched {outbound : Outbound} (h : dispatch ctx request = .ok outbound) :
    exec (dispatched host ctx request) world =
      (dispatchedFrom host request.path outbound (host.client outbound world.net).1,
        world.after host outbound) := by
  unfold dispatched
  rw [exec_bind, exec_fromResult, h, thenExec_ok, exec_bind]
  show thenExec _ (Except.ok (host.client outbound world.net).1, world.after host outbound) = _
  cases (host.client outbound world.net).1 <;> rfl

/-- A request that may not be made is not. -/
theorem exec_dispatched_error {fault : Fault} (h : dispatch ctx request = .error fault) :
    exec (dispatched host ctx request) world = (.error fault, world) := by
  unfold dispatched
  rw [exec_bind, exec_fromResult, h, thenExec_error]

theorem exec_sendRequest {outbound : Outbound} (h : dispatch ctx request = .ok outbound) :
    exec (sendRequest host ctx request) world =
      (dispatchedFrom host request.path outbound (host.client outbound world.net).1 >>= readReply,
        world.after host outbound) := by
  unfold sendRequest
  rw [exec_bind, exec_dispatched host world h]
  cases dispatchedFrom host request.path outbound (host.client outbound world.net).1 with
  | error fault => rfl
  | ok response =>
      rw [thenExec_ok, exec_bind, exec_fromResult]
      unfold readReply
      cases hbody : readBody "reading subrequest body".toList response.body with
      | error fault => simp only [thenExec_error, Except.bind, bind, hbody, Except.map]
      | ok body => simp only [thenExec_ok, exec_pure, bind, Except.bind, hbody, Except.map]

theorem exec_sendForwarded {outbound : Outbound} (h : dispatch ctx request = .ok outbound) :
    exec (sendForwarded host ctx request) world =
      (dispatchedFrom host request.path outbound (host.client outbound world.net).1 >>=
        intoForwarded, world.after host outbound) := by
  unfold sendForwarded
  rw [exec_bind, exec_dispatched host world h]
  cases dispatchedFrom host request.path outbound (host.client outbound world.net).1 <;> rfl

/-! ## Subrequests -/

/-- What a verb helper assembles. -/
def helperRequest (method : Method) (path : Text) (body : Option (List UInt8)) : BmcRequest where
  method := method.name
  path := path
  body := body
  contentType := some "application/json".toList
  headers := []

variable (ctx) in
/-- And what it sends. -/
def helperOutbound (method : Method) (path : Text) (body : Option (List UInt8)) : Outbound where
  method := method
  url := urlTo ctx.target path
  headers := dispatchHeaders ctx (helperRequest method path body)
  body := body

variable {path : Text}

theorem dispatch_helper (hpath : requireAbsolute path = .ok ()) (method : Method)
    (body : Option (List UInt8)) : dispatch ctx (helperRequest method path body) =
      .ok (helperOutbound ctx method path body) := by
  have hparse : Method.parse (helperRequest method path body).method = some method :=
    Method.parse_name method
  unfold dispatch
  rw [show requireAbsolute (helperRequest method path body).path = .ok () from hpath, hparse]
  rfl

/-- What a verb helper makes of the answer. -/
def helperFrom (outbound : Outbound) (path : Text) (answer : Except TransportError Reply) :
    Except Fault BmcResponse :=
  dispatchedFrom host path outbound answer >>= readReply

theorem exec_subrequest (hpath : requireAbsolute path = .ok ()) (method : Method)
    (body : Option (List UInt8)) : exec (subrequest host ctx method.name path body) world =
      (helperFrom host (helperOutbound ctx method path body) path
        (host.client (helperOutbound ctx method path body) world.net).1,
        world.after host (helperOutbound ctx method path body)) :=
  exec_sendRequest host world (dispatch_helper hpath method body)

theorem exec_subrequestWith (hpath : requireAbsolute path = .ok ()) (method : Method) {value : V}
    {body : List UInt8} (hbody : host.scriptToVec value = .ok body) :
    exec (subrequestWith host ctx method.name path value) world =
      (helperFrom host (helperOutbound ctx method path (some body)) path
        (host.client (helperOutbound ctx method path (some body)) world.net).1,
        world.after host (helperOutbound ctx method path (some body))) := by
  unfold subrequestWith
  rw [exec_bind, exec_fromResult, hbody]
  exact exec_subrequest host world hpath method (some body)

end Exchange
end RedfishProxy.Script
