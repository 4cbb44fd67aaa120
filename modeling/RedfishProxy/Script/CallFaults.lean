import RedfishProxy.Http.FaultLeak
import RedfishProxy.Script.Calls

/-!
# The errors of the `bmc` module

Every error a call of the module can end in, traced to the call that puts it
together: its parts are kept apart, and what the client says is about a URL of
the target (`runCall_wellFormed`).
-/

namespace RedfishProxy.Script

open Lib Http

variable {ν V σ : Type} {host : Host ν V σ} {ctx : RequestCtx}

section Results

variable {raised : TransportError → Prop} {target : SocketAddrV4}

theorem requireAbsolute_fails (path : Text) :
    Fails (Fault.WellFormed raised target) (requireAbsolute path) := by
  unfold requireAbsolute
  split
  · exact .ok ()
  · exact .error ⟨rfl, by simp [Part.Aimed]⟩

theorem dispatch_fails (request : BmcRequest) :
    Fails (Fault.WellFormed raised target) (dispatch ctx request) := by
  refine .bind (requireAbsolute_fails _) fun _ => ?_
  cases Method.parse request.method with
  | none => exact .error ⟨rfl, by simp [Part.Aimed]⟩
  | some method => exact .ok _

theorem newRequest_fails (method path : Text) :
    Fails (Fault.WellFormed raised target) (newRequest method path) :=
  .bind (requireAbsolute_fails path) fun _ => .ok _

/-! Where a noun or a verb goes into the literal, the caller's one decides. -/

theorem bodyJson_fails (body : List UInt8) {what : Text}
    (h : ∀ error, Fault.check [.lit (what ++ " body is not valid JSON: ".toList),
      .complaint error] = true) : Fails (Fault.WellFormed raised target) (bodyJson host body what) :=
  .mapError fun error => ⟨h error, by simp [Part.Aimed]⟩

theorem bodyText_fails (body : List UInt8) {what : Text}
    (h : ∀ error, Fault.check [.lit (what ++ " body is not valid UTF-8: ".toList),
      .complaint error] = true) : Fails (Fault.WellFormed raised target) (bodyText host body what) :=
  .mapError fun error => ⟨h error, by simp [Part.Aimed]⟩

theorem readBody_fails (body : Except Text (List UInt8)) {what : Text}
    (h : ∀ error, Fault.check [.lit (what ++ " failed: ".toList), .display error] = true) :
    Fails (Fault.WellFormed raised target) (readBody what body) :=
  .mapError fun error => ⟨h error, by simp [Part.Aimed]⟩

theorem intoForwarded_fails (response : Reply) :
    Fails (Fault.WellFormed raised target) (intoForwarded response) := by
  unfold intoForwarded
  show Fails _ (if isJson (copyEndToEnd response.headers .new) then _ else _)
  split
  · exact .bind (readBody_fails _ fun _ => rfl) fun _ => .ok _
  · exact .ok _

theorem toScriptValue_fails (json : Json ν) :
    Fails (Fault.WellFormed raised target) (toScriptValue host json) :=
  .mapError fun _ => ⟨rfl, by simp [Part.Aimed]⟩

theorem memberPath_fails (id : Text) : Fails (Fault.WellFormed raised target) (memberPath host id) := by
  unfold memberPath
  split
  · exact .ok _
  · split
    · exact .ok _
    · exact .error ⟨rfl, by simp [Part.Aimed]⟩

theorem rewriteJson_fails (base : Text) (type : Option Text) (body : List UInt8) :
    Fails (Fault.WellFormed raised target)
      (rewriteJson host.fromSlice host.toVec target base type body) := by
  unfold rewriteJson
  split
  · exact .ok _
  · split
    · exact .ok _
    · split
      · exact .error ⟨rfl, by simp [Part.Aimed]⟩
      · split
        · exact .error ⟨rfl, by simp [Part.Aimed]⟩
        · exact .ok _

end Results

/-! ## The requests -/

/-- The errors the client answers with. -/
def Raises (host : Host ν V σ) (error : TransportError) : Prop :=
  ∃ outbound net, (host.client outbound net).1 = .error error

/-- A request goes to a URL of the target, so that is the URL a failure names. -/
theorem aimed_of_dispatch {request : BmcRequest} {outbound : Outbound}
    (h : dispatch ctx request = .ok outbound) {error : TransportError}
    (herror : Raises host error) :
    (Part.transport error (outboundUrl host outbound)).Aimed (Raises host) ctx.target := by
  obtain ⟨⟨rest, hpath, _⟩, _, hurl, _, _⟩ := dispatch_eq_ok h
  have hback : ∀ c, (Whatwg.cleanTail ('/' :: rest)).head? = some c →
      Whatwg.endsAuthority c = true := by
    intro c hc
    rw [Whatwg.cleanTail_cons (by decide)] at hc
    obtain rfl : '/' = c := by simpa using hc
    decide
  have hsent : outbound.url = urlTo ctx.target ('/' :: rest) := by rw [hurl, hpath]
  have hparse := Whatwg.parse_relayed host.pathSet ctx.target (host.parseHost_display _) hback
  have hparsed : outboundUrl host outbound = some _ :=
    (congrArg (Whatwg.parse host.parseHost host.pathSet) hsent).trans hparse
  exact ⟨herror, _, hparsed, rfl, rfl, Whatwg.head?_serialize_parsePath _ _⟩

section Actions

/-- A call that ends in an error ends in one of these. -/
abbrev Traced (host : Host ν V σ) (ctx : RequestCtx) {α : Type} (action : Action σ α) : Prop :=
  Throws (Fault.WellFormed (Raises host) ctx.target) action

theorem dispatched_traced (request : BmcRequest) : Traced host ctx (dispatched host ctx request) := by
  refine .bindYields (.fromResult (dispatch_fails request)) fun outbound houtbound => ?_
  have hsent : dispatch ctx request = .ok outbound := houtbound.fromResult
  refine .bindYields (.lift _) fun answer hanswer => ?_
  cases answer with
  | ok response => exact .pure _
  | error error =>
      obtain ⟨world, hclient⟩ := hanswer.lift
      apply Throws.throw
      refine ⟨rfl, ?_⟩
      intro part hpart
      simp only [List.mem_cons, List.not_mem_nil, or_false] at hpart
      rcases hpart with rfl | rfl | rfl | rfl
      · trivial
      · trivial
      · trivial
      · exact aimed_of_dispatch hsent ⟨outbound, world.net, hclient⟩

theorem sendRequest_traced (request : BmcRequest) : Traced host ctx (sendRequest host ctx request) :=
  .bind (dispatched_traced request) fun _ =>
    .bind (.fromResult (readBody_fails _ fun _ => rfl)) fun _ => .pure _

theorem sendForwarded_traced (request : BmcRequest) :
    Traced host ctx (sendForwarded host ctx request) :=
  .bind (dispatched_traced request) fun response => .fromResult (intoForwarded_fails response)

/-- `bmc::forward` fails only at the body: no answer is a response. -/
theorem forwarded_traced : Traced host ctx (forwarded host ctx) := by
  refine .bind (.lift _) fun answer => ?_
  cases answer with
  | ok response => exact .fromResult (intoForwarded_fails response)
  | error error => exact .pure _

theorem subrequestWith_traced (method path : Text) (body : V) :
    Traced host ctx (subrequestWith host ctx method path body) := by
  refine .bind (.fromResult (.mapError fun _ => ⟨rfl, by simp [Part.Aimed]⟩)) fun encoded => ?_
  exact sendRequest_traced _

theorem getJson_traced (path : Text) : Traced host ctx (getJson host ctx path) := by
  refine .bind (sendRequest_traced _) fun response => ?_
  have hparse : Traced host ctx (fromResult ((host.fromSlice response.body).mapError fun error =>
      [.lit "GET ".toList, .display path, .lit " body is not valid JSON: ".toList,
        .complaint error]) : Action σ (Json ν)) :=
    .fromResult (.mapError fun _ => ⟨rfl, by simp [Part.Aimed]⟩)
  show Traced host ctx (if !isSuccess response.status then _ else _)
  split
  · exact .bind (.throw ⟨rfl, by simp [Part.Aimed]⟩) fun _ => hparse
  · exact hparse

theorem expandMember_traced (path : Text) (member : Json ν) :
    Traced host ctx (expandMember host ctx path member) := by
  unfold expandMember
  split
  · exact .throw ⟨rfl, by simp [Part.Aimed]⟩
  · exact .bind (.fromResult (memberPath_fails _)) fun link => getJson_traced link

theorem expandCollection_traced (path : Text) : Traced host ctx (expandCollection host ctx path) := by
  refine .bind (.fromResult (requireAbsolute_fails path)) fun _ => ?_
  refine .bind (getJson_traced _) fun collection => ?_
  show Traced host ctx (if _ then _ else _)
  split
  · exact .fromResult (toScriptValue_fails _)
  · refine .bind (.mapM _ fun member _ => expandMember_traced path member) fun expanded => ?_
    exact .fromResult (toScriptValue_fails _)

theorem expandOrEmpty_traced (path name : Text) :
    Traced host ctx (expandOrEmpty host ctx path name) := by
  refine .bind (.attempt _) fun outcome => ?_
  cases outcome with
  | ok collection => exact .pure _
  | error _ => exact .fromResult (toScriptValue_fails _)

/-- A failed fetch is passed over. -/
theorem findBios_traced (ids : List Text) : Traced host ctx (findBios host ctx ids) := by
  induction ids with
  | nil => exact .pure _
  | cons id ids ih =>
      refine .bind (.attempt _) fun outcome => ?_
      cases outcome with
      | ok system =>
          show Traced host ctx (if _ then _ else _)
          split
          · exact .pure _
          · exact ih
      | error _ => exact ih

theorem resolveIds_traced : Traced host ctx (resolveIds host ctx) := by
  refine .bind (.lift _) fun world => ?_
  cases world.ids with
  | some ids => exact .pure _
  | none =>
      refine .bind (getJson_traced _) fun collection => ?_
      dsimp only
      split
      · exact .throw ⟨rfl, by simp [Part.Aimed]⟩
      · refine .bind (findBios_traced _) fun found => ?_
        split
        · exact .bind (.pure _) fun _ => .bind (.lift _) fun _ => .pure _
        · refine .bind (getJson_traced _) fun managers => ?_
          split
          · exact .bind (.pure _) fun _ => .bind (.lift _) fun _ => .pure _
          · exact .bind (.throw ⟨rfl, by simp [Part.Aimed]⟩) fun _ =>
              .bind (.lift _) fun _ => .pure _

/-- **Every error of the module, traced.** -/
theorem runCall_wellFormed (call : Call V) : Traced host ctx (runCall host ctx call) := by
  cases call with
  | requestJson => exact .map (.fromResult (bodyJson_fails _ fun _ => rfl)) _
  | requestText => exact .map (.fromResult (bodyText_fails _ fun _ => rfl)) _
  | request method path => exact .map (.fromResult (newRequest_fails method path)) _
  | json request value =>
      exact .map (.fromResult (.bind (.mapError fun _ => ⟨rfl, by simp [Part.Aimed]⟩)
        fun _ => .ok _)) _
  | base64 request body =>
      exact .map (.fromResult (.bind (.mapError fun _ => ⟨rfl, by simp [Part.Aimed]⟩)
        fun _ => .ok _)) _
  | path request value =>
      exact .map (.fromResult (.bind (requireAbsolute_fails value) fun _ => .ok _)) _
  | header request name value =>
      refine .map (.fromResult ?_) _
      unfold BmcRequest.header
      split
      · exact .ok _
      · exact .error ⟨rfl, by simp [Part.Aimed]⟩
  -- the calls that go to the BMC
  | send request => exact .map (sendRequest_traced request) _
  | forward => exact .map forwarded_traced _
  | forwardWith request => exact .map (sendForwarded_traced request) _
  -- the calls that read or change a value they are given
  | forwardedJson forwarded =>
      refine .map (.fromResult ?_) _
      unfold Forwarded.json
      split
      · exact bodyJson_fails _ fun _ => rfl
      · exact .error ⟨rfl, by simp [Part.Aimed]⟩
  | forwardedText forwarded =>
      refine .map (.fromResult ?_) _
      unfold Forwarded.text
      split
      · exact bodyText_fails _ fun _ => rfl
      · exact .error ⟨rfl, by simp [Part.Aimed]⟩
  | buffer forwarded =>
      refine .map (.fromResult ?_) _
      unfold Forwarded.buffer
      split
      · exact .ok _
      · exact .bind (readBody_fails _ fun _ => rfl) fun _ => .ok _
  | rewrite forwarded =>
      refine .map (.fromResult ?_) _
      unfold Forwarded.rewrite
      split
      · exact .bind (.bind (rewriteJson_fails _ _ _) fun _ => .ok _) fun _ => .ok _
      · exact .ok _
  | log forwarded level =>
      refine .map (.fromResult ?_) _
      unfold Forwarded.log
      split
      · exact .ok _
      · exact .error ⟨rfl, by simp [Part.Aimed]⟩
  | responseJson response => exact .map (.fromResult (bodyJson_fails _ fun _ => rfl)) _
  | responseText response => exact .map (.fromResult (bodyText_fails _ fun _ => rfl)) _
  -- the helpers, which are made of the calls above
  | get path => exact .map (sendRequest_traced _) _
  | delete path => exact .map (sendRequest_traced _) _
  | post path body => exact .map (subrequestWith_traced _ path body) _
  | patch path body => exact .map (subrequestWith_traced _ path body) _
  | put path body => exact .map (subrequestWith_traced _ path body) _
  | expandCollection path => exact .map (expandCollection_traced path) _
  | expandOrEmpty path name => exact .map (expandOrEmpty_traced path name) _
  | sleep millis =>
      refine .map (.fromResult ?_) _
      unfold Script.sleep
      split
      · exact .error ⟨rfl, by simp [Part.Aimed]⟩
      · exact .ok _
  | systemId => exact .map resolveIds_traced _
  | managerId => exact .map resolveIds_traced _
  | pathOf id => exact .map (.fromResult (memberPath_fails id)) _

end Actions

end RedfishProxy.Script
