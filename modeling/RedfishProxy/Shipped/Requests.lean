import RedfishProxy.Lib.Serialise
import RedfishProxy.Shipped.Licences

/-!
# Requests in service

The proxy with the shipped scripts, under any routes: a request is read, given a
script or refused, and served, while others are. What they share is the store;
what the BMC answers is anything. A caller may hang up, and its request then
goes no further. The units and the files are those a request finds, so a reload
or an edit may come between any two.

Main results:
* `play_opening`: a request that is served alone is what `handle` makes of it.
* `follows`: in any run, each request keeps to the protocol of its script.
-/

namespace RedfishProxy.Shipped

open Lib Http Config Script RuneHost ScriptUtil

/-- A request, with what it finds. -/
structure Incoming where
  parts : Parts
  body : Except Text (List UInt8)
  scripts : Scripts ShippedScript
  disk : Disk

/-- A request with the script it is given. -/
structure Admitted where
  script : ShippedScript
  parts : Parts
  body : List UInt8
  disk : Disk

/-- The response to a request that is refused, or to one that was served. -/
def respondWith : Except Proxy.ProxyError Response → Response
  | .ok response => response
  | .error error => errorResponse error

namespace Admitted

def req (admitted : Admitted) : ScriptRequest := scriptRequest admitted.parts admitted.body

def ctx (app : Proxy.AppState) (admitted : Admitted) : RequestCtx :=
  requestCtx app.target app.externalBase admitted.parts admitted.body

end Admitted

section Requests

variable {ν σ : Type} (host : Rune ν σ) (app : Proxy.AppState) (scriptDir : Text)

/-- `handle`, up to the handler of the script. -/
def receive (incoming : Incoming) : Except Proxy.ProxyError Admitted :=
  match incoming.body with
  | .error error => .error (.requestBody error)
  | .ok body =>
    match Proxy.selectScript app incoming.parts with
    | .error error => .error error
    | .ok script =>
      match unitOrFailure incoming.scripts script with
      | .error message => .error (.script 502 message)
      | .ok unit => .ok ⟨unit, incoming.parts, body, incoming.disk⟩

namespace Admitted

variable (admitted : Admitted)

/-- What the script may do. -/
def licence : Licence ν := admitted.script.licence host (admitted.ctx app) admitted.req

/-- How often it may call the store and act on the BMC. -/
def left : Left := admitted.script.left host admitted.req

/-- The handler, question by question, and the response that comes of it. -/
def dialogue : Dialogue (Ask ν) Ask.Answer Response :=
  ((admitted.script.performs : admitted.script.Keeps host admitted.disk scriptDir
    (admitted.ctx app) admitted.req).dialogue none).bind fun ended =>
      .done (answer host (admitted.ctx app) ended.1)

end Admitted

/-- A request, question by question. -/
def opening (incoming : Incoming) : Dialogue (Ask ν) Ask.Answer Response :=
  match receive app incoming with
  | .error error => .done (errorResponse error)
  | .ok admitted => admitted.dialogue host app scriptDir

/-! ## One request alone -/

/-- `run_script` of the shipped scripts, on what a request finds. -/
def runShipped (incoming : Incoming) : Proxy.RunScript (Site ν σ) Response :=
  fun target base script parts body site =>
    match unitOrFailure incoming.scripts script with
    | .error message => (.error (.script 502 message), site)
    | .ok unit =>
      let ctx := requestCtx target base parts body
      let run := exec (unit.handler host incoming.disk scriptDir ctx (scriptRequest parts body))
        (Machine.split.symm (none, site))
      (.ok (answer host ctx run.1), (Machine.split run.2).2)

variable {host app scriptDir}

theorem play_dialogue (admitted : Admitted) (site : Site ν σ) :
    (admitted.dialogue host app scriptDir).play (answerAsk host) site =
      let run := exec (admitted.script.handler host admitted.disk scriptDir (admitted.ctx app)
        admitted.req) (Machine.split.symm (none, site))
      (answer host (admitted.ctx app) run.1, (Machine.split run.2).2) := by
  have htells := (admitted.script.performs : admitted.script.Keeps host admitted.disk scriptDir
    (admitted.ctx app) admitted.req).tells none site
  rw [htells]
  exact Dialogue.play_bind ..

/-- **A request that is served alone** is what `handle` makes of it. -/
theorem play_opening (incoming : Incoming) (site : Site ν σ) :
    (opening host app scriptDir incoming).play (answerAsk host) site =
      let handled := Proxy.handle (runShipped host scriptDir incoming) app incoming.parts
        incoming.body site
      (respondWith handled.1, handled.2) := by
  unfold opening receive Proxy.handle
  cases incoming.body with
  | error error => rfl
  | ok body =>
      simp only
      cases Proxy.selectScript app incoming.parts with
      | error error => rfl
      | ok script =>
          simp only [runShipped]
          cases unitOrFailure incoming.scripts script with
          | error message => rfl
          | ok unit => exact play_dialogue _ _

/-! ## The protocol of a request -/

variable (host app)

/-- The steps a request may take. -/
def Steps (incoming : Incoming) (stage : Stage) (question : Ask ν) (stage' : Stage) : Prop :=
  ∃ admitted, receive app incoming = .ok admitted ∧
    (admitted.licence host app).Allows (admitted.ctx app) stage question stage'

/-- Where it stands before the first. -/
def firstStage (incoming : Incoming) : Stage :=
  match receive app incoming with
  | .error _ => ⟨⟨0, 0⟩, .fresh⟩
  | .ok admitted => ⟨admitted.left host, .fresh⟩

/-- How it ends: it is refused, or fails, or its response is the recorded one. -/
inductive Settles (incoming : Incoming) : Stage → Response → Prop where
  | refused {error : Proxy.ProxyError} (h : receive app incoming = .error error) (left : Left) :
      Settles incoming ⟨left, .fresh⟩ (errorResponse error)
  | failed {admitted : Admitted} (h : receive app incoming = .ok admitted) (left : Left)
      {response : Response} (hstatus : response.status = 502) :
      Settles incoming ⟨left, .serving⟩ response
  | answered {admitted : Admitted} (h : receive app incoming = .ok admitted) (left : Left)
      {response : Response} :
      Settles incoming ⟨left, .answered response.status⟩ response

variable {host app}

variable (host) in
theorem status_answer_ok (ctx : RequestCtx) (outcome : Returned ScriptResponse) :
    (answer host ctx (.ok outcome)).status = statusOf outcome := by
  cases outcome with
  | script response => rfl
  | forwarded response =>
      obtain ⟨status, headers, body⟩ := response
      cases body <;> rfl

theorem keeps_opening (incoming : Incoming) :
    (opening host app scriptDir incoming).Keeps (Steps host app incoming) (Settles app incoming)
      (firstStage host app incoming) := by
  unfold opening firstStage
  cases hreceive : receive app incoming with
  | error error => exact .refused hreceive ⟨0, 0⟩
  | ok admitted =>
      have hkeeps := (admitted.script.performs : admitted.script.Keeps host admitted.disk scriptDir
        (admitted.ctx app) admitted.req).keeps none _ le_rfl
      refine (hkeeps.mono (fun _ _ _ hallows => ⟨admitted, hreceive, hallows⟩)
        fun _ _ hends => hends).bind ?_
      rintro ⟨left, phase⟩ ⟨result, own⟩ hconcludes
      cases result with
      | error stop =>
          obtain rfl : phase = .serving := hconcludes
          exact .failed hreceive left (status_answer_error ..)
      | ok outcome =>
          obtain rfl : phase = .answered (statusOf outcome) := hconcludes
          rw [← status_answer_ok host (admitted.ctx app)]
          exact .answered hreceive left

/-! ## Many requests -/

variable (host) in
/-- The store is what requests share. -/
def storeShared : Sharing (@Ask.Answer ν) (ScriptStore.Store (Json ν))
  | .call op => some fun store => ScriptStore.step host.serde store ⟨some 0, op⟩
  | .send _ => none
  | .log _ => none

/-- The requests in service, and the store. -/
abbrev InService (ν : Type) := Threads (@Ask.Answer ν) Incoming Response (ScriptStore.Store (Json ν))

abbrev ServiceEvent (ν : Type) := ThreadEvent (@Ask.Answer ν) Incoming

variable (host app scriptDir) in
/-- A request arrives, or one goes on. -/
def serviceStep : InService ν → ServiceEvent ν → InService ν :=
  Threads.step (storeShared host) (opening host app scriptDir)

variable (host app scriptDir) in
/-- A state of the proxy, from a store on. -/
def Reached (store : ScriptStore.Store (Json ν)) (pool : InService ν) : Prop :=
  ∃ events, Visits (serviceStep host app scriptDir) (Threads.empty store) events pool

variable {store : ScriptStore.Store (Json ν)} {pool : InService ν}

/-- **Every request keeps to its protocol**, whatever the others do. -/
theorem follows (h : Reached host app scriptDir store pool) :
    Threads.Follow (Steps host app) (Settles app) (firstStage host app) pool := by
  obtain ⟨events, hvisits⟩ := h
  exact Threads.keeps_protocol keeps_opening hvisits

/-- What was asked, the script of the request may ask. -/
theorem asked_allowed (h : Reached host app scriptDir store pool) {id : Nat} {question : Ask ν}
    (hasked : (id, question) ∈ pool.asked) :
    ∃ (thread : Thread (@Ask.Answer ν) Incoming Response) (admitted : Admitted)
        (stage stage' : Stage), pool.threads[id]? = some thread ∧
      receive app thread.request = .ok admitted ∧
      (admitted.licence host app).Allows (admitted.ctx app) stage question stage' := by
  obtain ⟨events, hvisits⟩ := h
  have h : Reached host app scriptDir store pool := ⟨events, hvisits⟩
  have hlt : id < pool.threads.length := Threads.arrived hvisits _ hasked
  obtain ⟨thread, hthread⟩ : ∃ thread, pool.threads[id]? = some thread :=
    ⟨_, List.getElem?_eq_getElem hlt⟩
  obtain ⟨_, hwalks, _⟩ := follows h id thread hthread
  have hmem : question ∈ pool.askedBy id :=
    List.mem_map.mpr ⟨(id, question), List.mem_filter.mpr ⟨hasked, by simp⟩, rfl⟩
  obtain ⟨stage, stage', admitted, hreceive, hallows⟩ := hwalks.rule_of_mem question hmem
  exact ⟨thread, admitted, stage, stage', hthread, hreceive, hallows⟩

/-- The store is what the calls make of it. -/
theorem store_eq (h : Reached host app scriptDir store pool) :
    pool.shared = after (Threads.put (storeShared host)) store (pool.asked.map Prod.snd) := by
  obtain ⟨events, hvisits⟩ := h
  exact Threads.shared_eq hvisits

end Requests

/-! ## A proxy without routes -/

/-- Every request is given this script. -/
def appWith (script : ShippedScript) : Proxy.AppState where
  target := bmcTarget
  externalBase := proxyBase
  defaultScript := script.file
  routes := .ofRoutes []

def bareDisk : Disk where
  tree := {
    entry := fun path => if path.isEmpty then .ok .dir else .error "no such file".toList
    notDirectory := "not a directory".toList
    isDirectory := "is a directory".toList
    tooManyLinks := "too many links".toList
    root := rfl
    isName := by
      intro place name found h
      rw [if_neg (by simp)] at h
      cases h }
  cwd := []
  notFound := "no such file".toList
  realCwd := .root

/-- A request without a body, for the script of that proxy. -/
def incomingTo (script : ShippedScript) (method : Method) (path : Text) : Incoming where
  parts := { method, uri := { path, query := none }, headers := .new }
  body := .ok []
  scripts := ⟨AList.insert (components script.file) script ∅⟩
  disk := bareDisk

theorem unit_incomingTo (script : ShippedScript) (method : Method) (path : Text) :
    unitOrFailure (incomingTo script method path).scripts script.file = .ok script := by
  unfold unitOrFailure Scripts.unitFor incomingTo
  rw [AList.lookup_insert]

theorem receive_appWith (script : ShippedScript) (method : Method) (path : Text) :
    receive (appWith script) (incomingTo script method path) =
      .ok ⟨script, (incomingTo script method path).parts, [], bareDisk⟩ := by
  have hselect : Proxy.selectScript (appWith script) (incomingTo script method path).parts =
      .ok script.file := rfl
  have hbody : (incomingTo script method path).body = .ok [] := rfl
  unfold receive
  simp only [hbody, hselect, unit_incomingTo]
  rfl

/-- A BMC that is not there. -/
def nobody {ν : Type} : Outside (@Ask.Answer ν)
  | .send _ => .error unreachable
  | .call _ => .error []
  | .log _ => ()

/-! ## A proxy with a route for its reset -/

def configResetPath : Text := "/redfish/v1/Managers/1/Actions/Oem/SmcManagerConfig.Reset".toList

/-- The factory reset has a route, and any other request changes the BIOS password. -/
def passwordApp : Proxy.AppState :=
  { appWith .biosChangePassword with
    routes := .ofRoutes [{
      matcher := fun path => path == configResetPath
      methods := []
      specificity := configResetPath.byteLen
      script := ShippedScript.smcManagerConfigReset.file }] }

def factoryReset : Incoming := incomingTo .smcManagerConfigReset .POST configResetPath

def passwordPath : Text := "/redfish/v1/Systems/1/Bios/Actions/Bios.ChangePassword".toList

def newPassword : Json Nat := .object [("NewPassword".toList, .string "b".toList),
  ("PasswordName".toList, .string "SetupPassword".toList)]

def passwordChange : Incoming :=
  { incomingTo .biosChangePassword .POST passwordPath with
    parts := {
      method := .POST
      uri := { path := passwordPath, query := none }
      headers := typeHeader "application/json".toList }
    body := .ok (writeBody newPassword) }

theorem receive_passwordChange : receive passwordApp passwordChange =
    .ok ⟨.biosChangePassword, passwordChange.parts, writeBody newPassword, bareDisk⟩ := by
  have hunit : unitOrFailure passwordChange.scripts ShippedScript.biosChangePassword.file =
      .ok .biosChangePassword := unit_incomingTo _ .POST passwordPath
  have hselect : Proxy.selectScript passwordApp passwordChange.parts =
      .ok ShippedScript.biosChangePassword.file := rfl
  have hbody : passwordChange.body = .ok (writeBody newPassword) := rfl
  unfold receive
  simp only [hbody, hselect, hunit]
  rfl

/-- The request is recorded, and then the call is made. -/
theorem opening_passwordChange : ∃ record rest,
    opening quietHost passwordApp [] passwordChange =
      .ask (.log record) fun _ => .ask (.call (.set uefiKey (.bool true))) rest := by
  have hfits : Json.Fits serdeLimit newPassword := by
    refine .object (by decide) ?_
    simp only [List.forall_mem_cons]
    exact ⟨.string _, .string _, by simp⟩
  have hread : bodyJson quietHost.toHost (writeBody newPassword) "request".toList =
      .ok newPassword := bodyJson_writeBody _ hfits _
  have hbody : (scriptRequest passwordChange.parts (writeBody newPassword)).body =
      writeBody newPassword := rfl
  have hjson : (scriptRequest passwordChange.parts (writeBody newPassword)).isJson = true := rfl
  unfold opening
  rw [receive_passwordChange]
  simp only [Admitted.dialogue, ShippedScript.performs, Whole.logInbound, Told.bind, Told.ask,
    Dialogue.bind, Told.resume, Rest.after, Part.namesPassword, Part.ite, Told.ite, Part.before,
    Part.andThen, Told.andThen, Part.requestJson, Part.tryResult, Part.silent, Told.silent,
    Admitted.req, hjson, if_true]
  rw [hbody, hread]
  -- the text of the body is of no more use
  generalize writeBody newPassword = bytes
  exact ⟨_, _, rfl⟩

end RedfishProxy.Shipped
