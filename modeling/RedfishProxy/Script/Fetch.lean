import RedfishProxy.Script.Exchange

/-!
# One internal fetch

`get_json` asks the client once and parses the answer. A BMC serves a document
at a path where its answer to that one request is the document.
-/

namespace RedfishProxy.Script

open Lib Http

section Fetch

variable {ν V σ : Type} (host : Host ν V σ) (ctx : RequestCtx)

/-- What `get_json` makes of a response. -/
def readJson (path : Text) (response : BmcResponse) : Except Fault (Json ν) :=
  if isSuccess response.status then
    (host.fromSlice response.body).mapError fun error =>
      [.lit "GET ".toList, .display path, .lit " body is not valid JSON: ".toList,
        .complaint error]
  else
    .error [.lit "GET ".toList, .display path, .lit " returned ".toList,
      .display (decimal response.status)]

/-- The request of `get_json`. -/
def getOutbound (path : Text) : Outbound := helperOutbound ctx .GET path none

/-- And what it makes of the answer. -/
def fetchedFrom (path : Text) (answer : Except TransportError Reply) : Except Fault (Json ν) :=
  helperFrom host (getOutbound ctx path) path answer >>= readJson host path

variable {ctx} {path : Text}

theorem exec_getJson (hpath : requireAbsolute path = .ok ()) (world : World σ) :
    exec (getJson host ctx path) world =
      (fetchedFrom host ctx path (host.client (getOutbound ctx path) world.net).1,
        world.after host (getOutbound ctx path)) := by
  unfold getJson fetchedFrom
  rw [exec_bind, show "GET".toList = Method.GET.name from rfl, exec_subrequest host world hpath]
  show thenExec _ (helperFrom host (getOutbound ctx path) path
    (host.client (getOutbound ctx path) world.net).1, world.after host (getOutbound ctx path)) = _
  cases helperFrom host (getOutbound ctx path) path
      (host.client (getOutbound ctx path) world.net).1 with
  | error fault => rfl
  | ok response =>
      rw [thenExec_ok]
      show _ = (readJson host path response, _)
      unfold readJson
      cases isSuccess response.status <;> rfl

/-- A path that is none fails before anything is sent. -/
theorem exec_getJson_refused {fault : Fault} (hpath : requireAbsolute path = .error fault)
    (world : World σ) : exec (getJson host ctx path) world = (.error fault, world) := by
  have hdispatch : dispatch ctx (helperRequest .GET path none) = .error fault := by
    unfold dispatch
    rw [show requireAbsolute (helperRequest .GET path none).path = .error fault from hpath]
    rfl
  have hsend : exec (subrequest host ctx "GET".toList path none) world = (.error fault, world) := by
    show exec (sendRequest host ctx (helperRequest .GET path none)) world = _
    unfold sendRequest
    rw [exec_bind, exec_dispatched_error host world hdispatch, thenExec_error]
  unfold getJson
  rw [exec_bind, hsend, thenExec_error]

/-- A fetch has nothing to do with the ids. -/
theorem ids_getJson (path : Text) (world : World σ) :
    (exec (getJson host ctx path) world).2.ids = world.ids := by
  cases hpath : requireAbsolute path with
  | error fault => rw [exec_getJson_refused host hpath]
  | ok _ =>
      rw [exec_getJson host hpath]
      rfl

variable (ctx) in
/-- The BMC serves this document at the path, wherever the invariant of its
state holds, and keeps the invariant. -/
structure Serves (Inv : σ → Prop) (path : Text) (doc : Json ν) : Prop where
  answer : ∀ net, Inv net → ∃ reply bytes,
    (host.client (getOutbound ctx path) net).1 = .ok reply ∧ isSuccess reply.status = true ∧
      reply.body = .ok bytes ∧ host.fromSlice bytes = .ok doc
  keeps : ∀ net, Inv net → Inv (host.client (getOutbound ctx path) net).2

variable {host} {Inv : σ → Prop} {doc : Json ν}

/-- A document that came whole is what the fetch comes to. -/
theorem fetchedFrom_reply {reply : Reply} {bytes : List UInt8}
    (hstatus : isSuccess reply.status = true) (hbody : reply.body = .ok bytes)
    (hparse : host.fromSlice bytes = .ok doc) :
    fetchedFrom host ctx path (.ok reply) = .ok doc := by
  show (readReply reply >>= readJson host path) = _
  rw [readReply, hbody]
  show readJson host path _ = _
  rw [readJson, if_pos hstatus]
  show (host.fromSlice bytes).mapError _ = _
  rw [hparse]
  rfl

theorem Serves.exec_getJson (h : Serves host ctx Inv path doc)
    (hpath : requireAbsolute path = .ok ()) {world : World σ} (hworld : Inv world.net) :
    ∃ next, exec (getJson host ctx path) world = (.ok doc, next) ∧ Inv next.net := by
  obtain ⟨reply, bytes, hanswer, hstatus, hbody, hparse⟩ := h.answer world.net hworld
  refine ⟨world.after host (getOutbound ctx path), ?_, h.keeps world.net hworld⟩
  rw [Script.exec_getJson host hpath, hanswer, fetchedFrom_reply hstatus hbody hparse]

end Fetch

end RedfishProxy.Script
