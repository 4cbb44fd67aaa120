import RedfishProxy.Script.Traffic
import RedfishProxy.Shipped.Setting
import RedfishProxy.Shipped.Dressing

/-!
# A handler, question by question

What a handler does that others can see, or come between: a request to the BMC, a
call of the store, a record of the log. A run of it is a dialogue of these, and a
`Licence` says which of them it may contain. The log has a shape of its own: the
request is recorded first, and the response last, with its status.

Main results:
* `Part.bmc`, `Part.storeCall`, `Rest.finishScript`, …: each part a handler is made
  of keeps to a licence that covers it.
-/

namespace RedfishProxy.Shipped

open Lib Http Script RuneHost

/-- What others can see, or come between. -/
inductive Ask (ν : Type) where
  | send (outbound : Outbound)
  | call (op : ScriptStore.Op (Json ν))
  | log (record : Record)

def Ask.Answer {ν : Type} : Ask ν → Type
  | .send _ => Except TransportError Reply
  | .call _ => Except Text (ScriptStore.Reply (Json ν))
  | .log _ => Unit

/-- What a handler shares with the others. -/
structure Site (ν σ : Type) where
  store : ScriptStore.Store (Json ν)
  net : σ
  records : List Record

/-- A handler has nothing to itself but the ids it resolved. -/
def Machine.split {ν σ : Type} : Machine ν σ ≃ Option Ids × Site ν σ where
  toFun machine := (machine.world.ids, ⟨machine.store, machine.world.net, machine.records⟩)
  invFun parts := ⟨parts.2.store, ⟨parts.1, parts.2.net⟩, parts.2.records⟩
  left_inv _ := rfl
  right_inv _ := rfl

/-! ## The shape of a run -/

inductive Phase where
  | fresh
  | serving
  | answered (status : Nat)
  deriving DecidableEq

/-- What a request may still do: so many calls of the store, and so many requests
to the BMC beside those that fetch. -/
structure Left where
  calls : Nat
  acts : Nat

instance : Preorder Left where
  le left left' := left.calls ≤ left'.calls ∧ left.acts ≤ left'.acts
  le_refl _ := ⟨Nat.le_refl _, Nat.le_refl _⟩
  le_trans _ _ _ h h' := ⟨h.1.trans h'.1, h.2.trans h'.2⟩

theorem lessCalls {calls acts : Nat} (more : Nat) :
    (⟨calls, acts⟩ : Left) ≤ ⟨calls + more, acts⟩ := ⟨Nat.le_add_right .., Nat.le_refl _⟩

theorem lessCall {calls acts : Nat} : (⟨calls, acts⟩ : Left) ≤ ⟨calls + 1, acts⟩ := lessCalls 1

theorem lessAct {calls acts : Nat} : (⟨calls, acts⟩ : Left) ≤ ⟨calls, acts + 1⟩ :=
  ⟨Nat.le_refl _, Nat.le_add_right ..⟩

/-- How far a request is. -/
structure Stage where
  left : Left
  phase : Phase

instance : Preorder Stage where
  le stage stage' := stage.phase = stage'.phase ∧ stage.left ≤ stage'.left
  le_refl _ := ⟨rfl, le_rfl⟩
  le_trans _ _ _ h h' := ⟨h.1.trans h'.1, h.2.trans h'.2⟩

theorem serving_le {left left' : Left} (h : left ≤ left') :
    (⟨left, .serving⟩ : Stage) ≤ ⟨left', .serving⟩ := ⟨rfl, h⟩

/-- What the run of a script may do. -/
structure Licence (ν : Type) where
  sends : Outbound → Prop
  calls : ScriptStore.Op (Json ν) → Prop
  /-- What the record of the request shows of its body. -/
  shows : Option Text

/-- The record of a request. -/
def openingRecord (ctx : RequestCtx) (body : Option Text) : Record :=
  .request "info".toList ctx.parts.method.name ctx.parts.uri.path ctx.target.display
    (redactHeaders ctx.parts.headers) body

/-- The steps of a run. -/
inductive Licence.Allows {ν : Type} (licence : Licence ν) (ctx : RequestCtx) :
    Stage → Ask ν → Stage → Prop where
  | opens (left : Left) : licence.Allows ctx ⟨left, .fresh⟩
      (.log (openingRecord ctx licence.shows)) ⟨left, .serving⟩
  | fetches {outbound : Outbound} (h : licence.sends outbound) (hget : outbound.method = .GET)
      (left : Left) : licence.Allows ctx ⟨left, .serving⟩ (.send outbound) ⟨left, .serving⟩
  | acts {outbound : Outbound} (h : licence.sends outbound) (calls acts : Nat) :
      licence.Allows ctx ⟨⟨calls, acts + 1⟩, .serving⟩ (.send outbound)
        ⟨⟨calls, acts⟩, .serving⟩
  | calls {op : ScriptStore.Op (Json ν)} (h : licence.calls op) (calls acts : Nat) :
      licence.Allows ctx ⟨⟨calls + 1, acts⟩, .serving⟩ (.call op) ⟨⟨calls, acts⟩, .serving⟩
  | answers (left : Left) (status : Nat) (headers : HeaderMap) (body : Option Text) :
      licence.Allows ctx ⟨left, .serving⟩
        (.log (.response "info".toList status ctx.target.display (redactHeaders headers) body))
        ⟨left, .answered status⟩

def statusOf : Returned ScriptResponse → Nat
  | .script response => response.status
  | .forwarded response => response.status

/-- A response has been recorded with its status; what stops a run has not. -/
def Concludes (stage : Stage) : Except Stop (Returned ScriptResponse) → Prop
  | .ok outcome => stage.phase = .answered (statusOf outcome)
  | .error _ => stage.phase = .serving

section Serving

variable {ν σ α β : Type} (host : Rune ν σ)

/-- How the world answers. -/
def answerAsk : (question : Ask ν) → Site ν σ → question.Answer × Site ν σ
  | .send outbound, site =>
    ((host.client outbound site.net).1, { site with net := (host.client outbound site.net).2 })
  | .call op, site =>
    let ended := ScriptStore.step host.serde site.store ⟨some 0, op⟩
    (ended.1, { site with store := ended.2 })
  | .log record, site => ((), { site with records := site.records ++ [record] })

variable (ctx : RequestCtx) (licence : Licence ν)

/-- A computation that keeps to the licence, from a stage on. -/
abbrev Performs (stage : Stage) (script : Script ν σ α) (ends : Stage → Except Stop α → Prop) :
    Type :=
  Told Machine.split (answerAsk host) (licence.Allows ctx) stage script ends

/-- A part of a handler, with what it is given and what it leaves. -/
abbrev Part (left left' : Left) (script : Script ν σ α) : Type :=
  Performs host ctx licence ⟨left, .serving⟩ script (Told.Reaches ⟨left', .serving⟩)

/-- The rest of a handler. -/
abbrev Rest (left : Left) (script : Script ν σ (Returned ScriptResponse)) : Type :=
  Performs host ctx licence ⟨left, .serving⟩ script Concludes

/-- A handler as a whole. -/
abbrev Whole (left : Left) (script : Script ν σ (Returned ScriptResponse)) : Type :=
  Performs host ctx licence ⟨left, .fresh⟩ script Concludes

variable {host ctx licence} {left left' : Left}

namespace Part

/-- What asks nothing. -/
def silent {script : Script ν σ α} (result : Except Stop α)
    (h : ∀ machine, exec script machine = (result, machine)) :
    Part host ctx licence left left script := Told.silent result h fun _ hstage => hstage

def pure (value : α) : Part host ctx licence left left (Pure.pure value : Script ν σ α) :=
  silent (.ok value) fun _ => rfl

def tryResult (result : Except Fault α) :
    Part host ctx licence left left (Shipped.tryResult result : Script ν σ α) :=
  silent (result.mapError Stop.error) fun _ => rfl

def tryOption : ∀ value : Option α,
    Part host ctx licence left left (Shipped.tryOption value : Script ν σ α)
  | some value => silent (.ok value) fun _ => rfl
  | none => silent (.error .none) fun _ => rfl

def orStop : ∀ value : Option α,
    Part host ctx licence left left (Shipped.orStop value : Script ν σ α)
  | some value => silent (.ok value) fun _ => rfl
  | none => silent (.error .vm) fun _ => rfl

def requestJson (req : ScriptRequest) :
    Part host ctx licence left left (Shipped.requestJson host req) := tryResult _

def ite {c : Prop} [Decidable c] {a b : Script ν σ α} (ha : Part host ctx licence left left' a)
    (hb : Part host ctx licence left left' b) :
    Part host ctx licence left left' (if c then a else b) := Told.ite ha hb

def andThen {left'' : Left} {script : Script ν σ α} {next : α → Script ν σ β}
    (first : Part host ctx licence left left' script)
    (rest : ∀ value, Part host ctx licence left' left'' (next value))
    (h : left'' ≤ left') : Part host ctx licence left left'' (script >>= next) :=
  Told.andThen first rest ⟨rfl, h⟩

/-- One part after the other, where the second gives nothing up. -/
def before {script : Script ν σ α} {next : α → Script ν σ β}
    (first : Part host ctx licence left left' script)
    (rest : ∀ value, Part host ctx licence left' left' (next value)) :
    Part host ctx licence left left' (script >>= next) := first.andThen rest le_rfl

/-- What is not used up. -/
def less {left'' : Left} {script : Script ν σ α} (part : Part host ctx licence left left' script)
    (h : left'' ≤ left') : Part host ctx licence left left'' script where
  dialogue := part.dialogue
  tells := part.tells
  keeps own stage hstage := (part.keeps own stage hstage).mono (fun _ _ _ hrule => hrule)
    fun _ _ hended => (serving_le h).trans hended

end Part

/-! ## Requests to the BMC -/

/-- The requests of an action, as questions of the handler. -/
def sending :
    Dialogue Outbound (fun _ => Except TransportError Reply) (Except Fault α × Option Ids) →
      Dialogue (Ask ν) Ask.Answer (Except Stop α × Option Ids)
  | .done ended => .done (ended.1.mapError Stop.error, ended.2)
  | .ask outbound next => .ask (.send outbound) fun answer => sending (next answer)

theorem play_sending (dialogue : Dialogue Outbound (fun _ => Except TransportError Reply)
    (Except Fault α × Option Ids)) (site : Site ν σ) :
    (sending dialogue).play (answerAsk host) site =
      let played := dialogue.play (fun outbound => host.client outbound) site.net
      ((played.1.1.mapError Stop.error, played.1.2), { site with net := played.2 }) := by
  induction dialogue generalizing site with
  | done ended => rfl
  | ask outbound next ih => exact ih _ _

variable (ctx licence) in
/-- The requests it may send, from stage to stage. -/
abbrev Licence.Sending (stage : Stage) (outbound : Outbound) (stage' : Stage) : Prop :=
  licence.Allows ctx stage (.send outbound) stage'

theorem keeps_sending {stage bound : Stage}
    {dialogue : Dialogue Outbound (fun _ => Except TransportError Reply)
      (Except Fault α × Option Ids)}
    (h : dialogue.Keeps (licence.Sending ctx) (fun stage' _ => bound ≤ stage') stage) :
    (sending dialogue).Keeps (licence.Allows ctx) (fun stage' _ => bound ≤ stage') stage := by
  induction dialogue generalizing stage with
  | done ended => exact h
  | ask outbound next ih =>
      obtain ⟨stage', hallows, hnext⟩ := h
      exact ⟨stage', hallows, fun answer => ih answer (hnext answer)⟩

/-- **An action of the `bmc` module** sends what it may. -/
def Part.bmc {action : Action σ α} (told : Sends host.toHost (licence.Sending ctx)
      ⟨left, .serving⟩ ⟨left', .serving⟩ action) :
    Part host ctx licence left left' (Shipped.bmc action : Script ν σ α) where
  dialogue own := sending (told.dialogue own)
  tells own site := by
    rw [play_sending]
    exact congrArg (fun ended : Except Fault α × World σ => (ended.1.mapError Stop.error,
      (⟨site.store, ended.2, site.records⟩ : Machine ν σ))) (told.tells own site.net)
  keeps own stage hstage := keeps_sending (told.keeps own stage hstage)

/-- What `dispatch` makes of requests with this method may be sent. -/
def Licence.Dispatches (licence : Licence ν) (ctx : RequestCtx) (method : Text) : Prop :=
  ∀ request, request.method = method → ∀ outbound, dispatch ctx request = .ok outbound →
    licence.sends outbound

section Ways

variable {calls acts : Nat} {outbound : Outbound}

/-- A request that acts is counted. -/
theorem goes_act (h : licence.sends outbound) : Goes (licence.Sending ctx)
    ⟨⟨calls, acts + 1⟩, .serving⟩ ⟨⟨calls, acts⟩, .serving⟩ outbound := by
  rintro ⟨⟨calls', acts'⟩, phase⟩ ⟨rfl, hcalls, hacts⟩
  obtain ⟨more, rfl⟩ := Nat.exists_eq_add_of_lt (show acts < acts' from hacts)
  exact ⟨_, .acts h _ _, rfl, hcalls, Nat.le_add_right ..⟩

/-- A fetch is not. -/
theorem goes_fetch (h : licence.sends outbound) (hget : outbound.method = .GET) :
    Goes (licence.Sending ctx) ⟨left, .serving⟩ ⟨left, .serving⟩ outbound := by
  rintro ⟨later, phase⟩ ⟨rfl, hlater⟩
  exact ⟨_, .fetches h hget _, rfl, hlater⟩

theorem lets_act {method : Text} (h : licence.Dispatches ctx method) :
    Lets ctx (licence.Sending ctx) ⟨⟨calls, acts + 1⟩, .serving⟩ ⟨⟨calls, acts⟩, .serving⟩
      method where
  less := serving_le lessAct
  goes request hrequest outbound hsent := goes_act (h request hrequest outbound hsent)

theorem lets_fetch (h : licence.Dispatches ctx "GET".toList) :
    Lets ctx (licence.Sending ctx) ⟨left, .serving⟩ ⟨left, .serving⟩ "GET".toList where
  less := le_rfl
  goes request hrequest outbound hsent := by
    have hparse := (dispatch_eq_ok hsent).2.1
    have hname : "GET".toList = Method.GET.name := rfl
    rw [hrequest, hname, Method.parse_name] at hparse
    exact goes_fetch (h request hrequest outbound hsent) (Option.some.inj hparse).symm

end Ways

/-! ## Calls of the store -/

section Calls

variable {calls acts : Nat}

/-- One call. -/
def Part.storeCall {op : ScriptStore.Op (Json ν)} (h : licence.calls op) :
    Part host ctx licence ⟨calls + 1, acts⟩ ⟨calls, acts⟩ (Shipped.storeCall host op) :=
  Told.ask (.call op) (fun reply => reply.mapError fun text => Stop.error [.display text])
    (fun _ _ => rfl) fun stage hstage => by
      obtain ⟨⟨calls', acts'⟩, phase⟩ := stage
      obtain ⟨rfl, hcalls, hacts⟩ := hstage
      obtain ⟨more, rfl⟩ := Nat.exists_eq_add_of_lt (show calls < calls' from hcalls)
      exact ⟨_, .calls h _ _, fun _ => ⟨rfl, Nat.le_add_right .., hacts⟩⟩

def Part.storeSet {key : Text} {value : Json ν} (h : licence.calls (.set key value)) :
    Part host ctx licence ⟨calls + 1, acts⟩ ⟨calls, acts⟩ (Shipped.storeSet host key value) :=
  (Part.storeCall h).before fun _ => .pure _

def Part.storeRemovePrefix {start : Text} (h : licence.calls (.removePrefix start)) :
    Part host ctx licence ⟨calls + 1, acts⟩ ⟨calls, acts⟩ (Shipped.storeRemovePrefix host start) :=
  (Part.storeCall h).before fun _ => .pure _

def Part.storeGetOr {key : Text} {fallback : Json ν} (h : licence.calls (.getOr key fallback)) :
    Part host ctx licence ⟨calls + 1, acts⟩ ⟨calls, acts⟩
      (Shipped.storeGetOr host key fallback) :=
  (Part.storeCall h).before fun reply =>
    match reply with
    | .valueOr value => .pure value
    | .value _ | .done | .removed _ | .removedPrefix _ | .held _ =>
      .silent (.error .vm) fun _ => rfl

end Calls

/-! ## Records -/

/-- The first line of a handler. -/
def Whole.logInbound {script : Script ν σ (Returned ScriptResponse)} (hshows : licence.shows = none)
    (rest : Rest host ctx licence left script) :
    Whole host ctx licence left (Shipped.logInbound host ctx >>= fun _ => script) :=
  Told.bind
    (Told.ask (.log (openingRecord ctx none)) .ok (fun _ _ => rfl) fun stage hstage => by
      obtain ⟨later, phase⟩ := stage
      obtain ⟨rfl, hlater⟩ := hstage
      have hopens : licence.Allows ctx _ (.log (openingRecord ctx licence.shows)) _ := .opens later
      rw [hshows] at hopens
      exact ⟨_, hopens, fun _ => ⟨rfl, hlater⟩⟩)
    (fun _ => rest) fun _ _ hstage => hstage.1.symm

namespace Rest

/-- What comes before the end of a handler. -/
def after {script : Script ν σ α} {next : α → Script ν σ (Returned ScriptResponse)}
    (first : Part host ctx licence left left' script)
    (rest : ∀ value, Rest host ctx licence left' (next value)) :
    Rest host ctx licence left (script >>= next) :=
  Told.bind first rest fun _ _ hstage => hstage.1.symm

def ite {c : Prop} [Decidable c] {a b : Script ν σ (Returned ScriptResponse)}
    (ha : Rest host ctx licence left a) (hb : Rest host ctx licence left b) :
    Rest host ctx licence left (if c then a else b) := Told.ite ha hb

/-- The record of a response, and the response. -/
def finishing {script : Script ν σ (Returned ScriptResponse)} (outcome : Returned ScriptResponse)
    (headers : HeaderMap) (body : Option Text)
    (h : ∀ machine, exec script machine = (.ok outcome, machine.logs
      (.response "info".toList (statusOf outcome) ctx.target.display (redactHeaders headers)
        body))) : Rest host ctx licence left script :=
  Told.ask (.log (.response "info".toList (statusOf outcome) ctx.target.display
      (redactHeaders headers) body)) (fun _ => .ok outcome) (fun _ _ => h _) fun stage hstage => by
    obtain ⟨later, phase⟩ := stage
    obtain ⟨rfl, _⟩ := hstage
    exact ⟨_, .answers later _ headers body, fun _ => rfl⟩

def finishScript (response : ScriptResponse) :
    Rest host ctx licence left (Shipped.finishScript host ctx response) :=
  finishing (.script response) (typeHeader response.contentType)
    (renderBody host.fromUtf8 response.body) fun _ => rfl

def rewriteScript (response : ScriptResponse) :
    Rest host ctx licence left (Shipped.rewriteScript host ctx response) :=
  after (.tryResult _) finishScript

/-- The record shows the body of a forwarded response that is buffered. -/
def forwardedBody (host : Rune ν σ) (response : Forwarded) : Option Text :=
  match response.body with
  | .buffered bytes => renderBody host.fromUtf8 bytes
  | .streaming _ => none

def rewriteForwarded (response : Forwarded) :
    Rest host ctx licence left (Shipped.rewriteForwarded host ctx response) :=
  after (.tryResult _) fun response =>
    finishing (.forwarded response) response.headers (forwardedBody host response) fun _ => by
      obtain ⟨status, headers, body⟩ := response
      cases body <;> rfl

end Rest

end Serving
end RedfishProxy.Shipped
