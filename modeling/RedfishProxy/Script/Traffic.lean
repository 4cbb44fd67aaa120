import RedfishProxy.Lib.Dialogue
import RedfishProxy.Script.Probe

/-!
# What goes out to the BMC

The actions of the `bmc` module as dialogues: the questions are the requests to
the BMC. Which requests an action can send is said once for each way out, and
follows for every call.

Main result:
* `Sends.runCall`: whatever a call is given, and whatever the BMC answers, it
  sends the inbound request, or one that `dispatch` made for it.
-/

namespace RedfishProxy.Script

open Lib Http

section Traffic

variable {ν V σ α β P : Type} [Preorder P] (host : Host ν V σ) (ctx : RequestCtx)
  (rule : P → Outbound → P → Prop)

/-- The ids are the request's own, and the network is shared. -/
def World.split : World σ ≃ Option Ids × σ where
  toFun world := (world.ids, world.net)
  invFun parts := ⟨parts.1, parts.2⟩
  left_inv _ := rfl
  right_inv _ := rfl

/-- An action that sends what the rule has it send, from one stage to another. -/
abbrev Sends (stage stage' : P) (action : Action σ α) : Type :=
  Told World.split (fun outbound => host.client outbound) rule stage action (Told.Reaches stage')

/-- The request may go out at this stage, and leaves that one. -/
def Goes (stage stage' : P) (outbound : Outbound) : Prop :=
  ∀ later, stage ≤ later → ∃ after, rule later outbound after ∧ stage' ≤ after

/-- And so may what `dispatch` makes of requests with this method. -/
structure Lets (stage stage' : P) (method : Text) : Prop where
  less : stage' ≤ stage
  goes : ∀ request, request.method = method → ∀ outbound, dispatch ctx request = .ok outbound →
    Goes rule stage stage' outbound

/-- What a script can have sent: the inbound request, or one `dispatch` made. -/
def Issued (outbound : Outbound) : Prop :=
  outbound = forward ctx ∨ ∃ request, dispatch ctx request = .ok outbound

/-- The one stage of a protocol that does not change. -/
inductive Anytime where
  | anytime

instance : Preorder Anytime where
  le _ _ := True
  le_refl _ := True.intro
  le_trans _ _ _ _ _ := True.intro

/-- Any number of them. -/
abbrev AnyIssued (_ : Anytime) (outbound : Outbound) (_ : Anytime) : Prop := Issued ctx outbound

theorem lets_issued (method : Text) : Lets ctx (AnyIssued ctx) .anytime .anytime method :=
  ⟨le_rfl, fun request _ _ h _ _ => ⟨.anytime, .inr ⟨request, h⟩, le_rfl⟩⟩

namespace Sends

variable {host ctx rule} {stage stage' stage'' : P}

def pure (value : α) : Sends host rule stage stage (Pure.pure value : Action σ α) :=
  Told.pure value fun _ h => h

def throw (fault : Fault) : Sends host rule stage stage (MonadExcept.throw fault : Action σ α) :=
  Told.throw fault fun _ h => h

def fromResult (result : Except Fault α) :
    Sends host rule stage stage (Lib.fromResult result : Action σ α) :=
  Told.silent result (fun _ => rfl) fun _ h => h

def andThen {action : Action σ α} {next : α → Action σ β}
    (first : Sends host rule stage stage' action)
    (rest : ∀ value, Sends host rule stage' stage' (next value)) :
    Sends host rule stage stage' (action >>= next) :=
  Told.andThen first rest le_rfl

/-- The rest knows what a result was. -/
def given (hless : stage' ≤ stage) : ∀ (result : Except Fault α) {next : α → Action σ β},
    (∀ value, result = .ok value → Sends host rule stage stage' (next value)) →
      Sends host rule stage stage' (Lib.fromResult result >>= next)
  | .ok value, _, rest => Told.congr (fun _ => rfl) (rest value rfl)
  | .error fault, _, _ => Told.congr (fun _ => rfl)
      (Told.throw fault fun _ hstage => hless.trans hstage)

/-- The client is asked once. -/
def client {outbound : Outbound} (h : Goes rule stage stage' outbound) :
    Sends host rule stage stage' (ExceptT.lift (clientSend host outbound) : Action σ _) :=
  Told.ask outbound .ok (fun _ _ => rfl) fun later hlater =>
    let ⟨after, hrule, hafter⟩ := h later hlater
    ⟨after, hrule, fun _ => hafter⟩

/-! ## The ways out -/

/-- `bmc::forward`. -/
def forwarded (h : Goes rule stage stage' (forward ctx)) :
    Sends host rule stage stage' (Script.forwarded host ctx) :=
  (client h).andThen fun answer =>
    match answer with
    | .ok _ => fromResult _
    | .error _ => pure _

/-- What `dispatch` refuses is not sent. -/
def dispatched {request : BmcRequest} (h : Lets ctx rule stage stage' request.method) :
    Sends host rule stage stage' (Script.dispatched host ctx request) where
  dialogue own :=
    match dispatch ctx request with
    | .error fault => .done (.error fault, own)
    | .ok outbound => .ask outbound fun answer =>
      .done (dispatchedFrom host request.path outbound answer, own)
  tells own net := by
    cases hsent : dispatch ctx request with
    | error fault => exact exec_dispatched_error host _ hsent
    | ok outbound => exact exec_dispatched host _ hsent
  keeps own later hlater := by
    cases hsent : dispatch ctx request with
    | error fault => exact h.less.trans hlater
    | ok outbound =>
        obtain ⟨after, hrule, hafter⟩ := h.goes request rfl outbound hsent later hlater
        exact ⟨after, hrule, fun _ => hafter⟩

def sendRequest {request : BmcRequest} (h : Lets ctx rule stage stage' request.method) :
    Sends host rule stage stage' (Script.sendRequest host ctx request) :=
  (dispatched h).andThen fun _ => (fromResult _).andThen fun _ => pure _

def sendForwarded {request : BmcRequest} (h : Lets ctx rule stage stage' request.method) :
    Sends host rule stage stage' (Script.sendForwarded host ctx request) :=
  (dispatched h).andThen fun _ => fromResult _

def subrequest {method path : Text} {body : Option (List UInt8)}
    (h : Lets ctx rule stage stage' method) :
    Sends host rule stage stage' (Script.subrequest host ctx method path body) := sendRequest h

def subrequestWith {method path : Text} {body : V} (h : Lets ctx rule stage stage' method) :
    Sends host rule stage stage' (Script.subrequestWith host ctx method path body) :=
  Told.andThen (fromResult _) (fun _ => subrequest h) h.less

/-! ## Fetches -/

section Fetches

variable (hget : Lets ctx rule stage stage "GET".toList)

def getJson (path : Text) : Sends host rule stage stage (Script.getJson host ctx path) :=
  (subrequest hget).andThen fun _ =>
    Told.ite (andThen (throw _) fun _ => fromResult _) (fromResult _)

def expandMember (path : Text) (member : Json ν) :
    Sends host rule stage stage (Script.expandMember host ctx path member) := by
  unfold Script.expandMember
  exact match (member.index "@odata.id".toList).asStr with
    | none => throw _
    | some id => (fromResult _).andThen fun link => getJson hget link

def expandCollection (path : Text) :
    Sends host rule stage stage (Script.expandCollection host ctx path : Action σ V) :=
  (fromResult _).andThen fun _ => (getJson hget _).andThen fun _ =>
    Told.ite (fromResult _) <|
      andThen (Told.mapM (expandMember hget path) _) fun _ => fromResult _

def expandOrEmpty (path name : Text) :
    Sends host rule stage stage (Script.expandOrEmpty host ctx path name : Action σ V) :=
  andThen (Told.attempt (expandCollection hget path)) fun outcome =>
    match outcome with
    | .ok _ => pure _
    | .error _ => fromResult _

/-! The ids are resolved by asking, or are there already. -/

def probe : ∀ probe : Probe ν α, Sends host rule stage stage (probe.run host ctx : Action σ α)
  | .done outcome => fromResult outcome
  | .get path next => andThen (Told.attempt (getJson hget path)) fun outcome =>
    Sends.probe (next outcome)

def keepIds (ids : Ids) : Sends host rule stage stage (Script.keepIds ids : Action σ Ids) where
  dialogue _ := .done (.ok ids, some ids)
  tells _ _ := rfl
  keeps _ _ hstage := hstage

/-- What a look at the ids is followed by. -/
def afterLook (host : Host ν V σ) (ctx : RequestCtx) : Option Ids → Action σ Ids
  | some ids => Pure.pure ids
  | none => (resolveProbe (ν := ν)).run host ctx >>= Script.keepIds

def resolveIds : Sends host rule stage stage (Script.resolveIds host ctx) :=
  Told.byOwn (afterLook host ctx)
    (fun own net => by
      rw [exec_resolveIds]
      cases own with
      | some ids => rfl
      | none => exact (exec_bind _ _ _).symm)
    fun own => match own with
      | some ids => pure ids
      | none => andThen (probe hget _) keepIds

end Fetches

/-! ## Every call -/

/-- Whatever it is given and whatever the BMC answers, a call sends nothing else. -/
def runCall : ∀ call : Call V,
    Sends host (AnyIssued ctx) .anytime .anytime (Script.runCall host ctx call)
  | .requestJson => .map _ (fromResult _)
  | .requestText => .map _ (fromResult _)
  | .request _ _ => .map _ (fromResult _)
  | .json _ _ => .map _ (fromResult _)
  | .base64 _ _ => .map _ (fromResult _)
  | .path _ _ => .map _ (fromResult _)
  | .header _ _ _ => .map _ (fromResult _)
  | .send _ => .map _ (sendRequest (lets_issued ctx _))
  | .forward => .map _ (forwarded fun _ _ => ⟨.anytime, .inl rfl, le_rfl⟩)
  | .forwardWith _ => .map _ (sendForwarded (lets_issued ctx _))
  | .forwardedJson _ => .map _ (fromResult _)
  | .forwardedText _ => .map _ (fromResult _)
  | .buffer _ => .map _ (fromResult _)
  | .rewrite _ => .map _ (fromResult _)
  | .log _ _ => .map _ (fromResult _)
  | .responseJson _ => .map _ (fromResult _)
  | .responseText _ => .map _ (fromResult _)
  | .get _ => .map _ (subrequest (lets_issued ctx _))
  | .delete _ => .map _ (subrequest (lets_issued ctx _))
  | .post _ _ => .map _ (subrequestWith (lets_issued ctx _))
  | .patch _ _ => .map _ (subrequestWith (lets_issued ctx _))
  | .put _ _ => .map _ (subrequestWith (lets_issued ctx _))
  | .expandCollection _ => .map _ (expandCollection (lets_issued ctx _) _)
  | .expandOrEmpty _ _ => .map _ (expandOrEmpty (lets_issued ctx _) _ _)
  | .sleep _ => .map _ (fromResult _)
  | .systemId => .map _ (resolveIds (lets_issued ctx _))
  | .managerId => .map _ (resolveIds (lets_issued ctx _))
  | .pathOf _ => .map _ (fromResult _)

end Sends
end Traffic
end RedfishProxy.Script
