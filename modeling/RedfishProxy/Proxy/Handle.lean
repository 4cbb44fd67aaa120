import RedfishProxy.Config.Routes
import RedfishProxy.Http.Base

/-!
# The request handler

`handle` picks a script for a request or refuses it, and `run_script` does the
rest. The scripts are a parameter that may do anything to a state of their own,
so that a result about `handle` says which script ran, and that none did.
-/

namespace RedfishProxy.Proxy

open Lib Config

/-- Everything the forwarding path can refuse a request for. -/
inductive ProxyError where
  | requestBody (error : Text)
  | script (status : Nat) (message : Text)
  | methodNotAllowed (method : Text)
  deriving DecidableEq

namespace ProxyError

def status : ProxyError → Nat
  | requestBody _ => 400
  | script status _ => status
  | methodNotAllowed _ => 405

/-- The `Display` of the error. -/
def display : ProxyError → Text
  | requestBody error => "reading the request body failed: ".toList ++ error
  | script _ message => message
  | methodNotAllowed method =>
    "method ".toList ++ method ++ " is not allowed on this path".toList

end ProxyError

/-- What `handle` reads of the application state. -/
structure AppState where
  target : SocketAddrV4
  externalBase : Http.Base
  defaultScript : Text
  routes : Router

/-- The `match` on the route table. -/
def selectScript (state : AppState) (parts : Parts) : Except ProxyError Text :=
  match state.routes.resolve parts.method parts.uri.path with
  | some route => .ok route.script
  | none =>
    -- Claimed for other methods: relaying the write would invert the intent.
    if state.routes.claimsPath parts.uri.path then
      .error (.methodNotAllowed parts.method.name)
    else .ok state.defaultScript

section Handle

variable {σ ρ : Type}

/-- `run_script`, with its effect on the world the scripts live in. -/
abbrev RunScript (σ ρ : Type) :=
  SocketAddrV4 → Http.Base → Text → Parts → List UInt8 → σ → Except ProxyError ρ × σ

/-- `body` is what reading the request body came to. -/
def handle (runScript : RunScript σ ρ) (state : AppState) (parts : Parts)
    (body : Except Text (List UInt8)) (world : σ) : Except ProxyError ρ × σ :=
  match body with
  | .error error => (.error (.requestBody error), world)
  | .ok body =>
    match selectScript state parts with
    | .error error => (.error error, world)
    | .ok script => runScript state.target state.externalBase script parts body world

end Handle

variable {state : AppState} {parts : Parts}

theorem selectScript_refuses_iff :
    (∃ error, selectScript state parts = .error error) ↔
      state.routes.resolve parts.method parts.uri.path = none ∧
        state.routes.claimsPath parts.uri.path = true := by
  unfold selectScript
  cases state.routes.resolve parts.method parts.uri.path with
  | some route => simp
  | none => cases state.routes.claimsPath parts.uri.path <;> simp

theorem selectScript_error {error : ProxyError} (h : selectScript state parts = .error error) :
    error = .methodNotAllowed parts.method.name := by
  unfold selectScript at h
  cases hroute : state.routes.resolve parts.method parts.uri.path with
  | some route =>
      rw [hroute] at h
      cases h
  | none =>
      rw [hroute] at h
      cases hclaims : state.routes.claimsPath parts.uri.path with
      | false => simp [hclaims] at h
      | true =>
          rw [hclaims] at h
          simpa using h.symm

end RedfishProxy.Proxy
