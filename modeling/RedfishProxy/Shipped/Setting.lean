import RedfishProxy.Shipped.Serve

/-!
# Resources the store keeps one member of

`sys_lockdown.rn`, `kcs_interface.rn`, `host_interface.rn` and `secure_boot.rn`
are one handler with values of their own; `smc_manager_config_reset.rn` drops
what all of them keep. A request calls the store once at most, and its answer
follows from the reply: its `Plan`.

Main result:
* `lockdown_follows`: a run of any of the handlers is its plan.
-/

namespace RedfishProxy.Shipped

open Lib Http Script RuneHost ScriptUtil

/-- `req.method == "PATCH" || req.method == "PUT"`. -/
def isWrite (req : ScriptRequest) : Bool :=
  req.method == "PATCH".toList || req.method == "PUT".toList

/-- The body of a refusal. -/
def errorDocument {ν : Type} (message : Text) : Json ν :=
  .ofFields [("error".toList, .ofFields [
    ("code".toList, .string "Base.1.0.GeneralError".toList),
    ("message".toList, .string message)])]

/-- What the four handlers differ in. -/
structure Setting (ν : Type) where
  /-- The member a write sets. -/
  member : Text
  accepts : Json ν → Bool
  refusal : Text
  fallback : Json ν

/-! ## The handlers -/

section Handlers

variable {ν σ : Type} (host : Rune ν σ) (ctx : RequestCtx)

/-- The loop-free part of a write: whether the member was seen, and is kept. -/
def takeSetting (setting : Setting ν) (key : Text) (req : ScriptRequest) : Script ν σ Bool :=
  if req.isJson then do
    let body ← requestJson host req
    match valueAt body setting.member with
    | some value =>
      if setting.accepts value then do
        storeSet host key value
        return true
      else return false
    | none => return false
  else return false

/-- The branch of a `PATCH` or a `PUT`. -/
def writeSetting (setting : Setting ν) (key : Text) (req : ScriptRequest) :
    Script ν σ (Returned ScriptResponse) := do
  let seen ← takeSetting host setting key req
  if !seen then
    finishScript host ctx (jsonResponse host.toHost 400 (errorDocument setting.refusal))
  else finishScript host ctx (statusResponse 204)

/-- And of any other method. A document the machine cannot build stops it. -/
def readSetting (setting : Setting ν) (key : Text) (document : Json ν → Option (Json ν)) :
    Script ν σ (Returned ScriptResponse) := do
  let value ← storeGetOr host key setting.fallback
  let document ← orStop (document value)
  rewriteScript host ctx (jsonResponse host.toHost 200 document)

def serveSetting (setting : Setting ν) (key : Text) (document : Json ν → Option (Json ν))
    (req : ScriptRequest) : Script ν σ (Returned ScriptResponse) :=
  if isWrite req then writeSetting host ctx setting key req
  else readSetting host ctx setting key document

/-- `value is bool`. -/
def isBool : Json ν → Bool
  | .bool _ => true
  | _ => false

/-! `sys_lockdown.rn` -/

def sysLockdownSetting : Setting ν where
  member := "SysLockdownEnabled".toList
  accepts := isBool
  refusal := "SysLockdownEnabled is required and must be a boolean".toList
  fallback := .bool false

def sysLockdownKey (manager : Text) : Text :=
  "supermicro/".toList ++ manager ++ "/SysLockdownEnabled".toList

def sysLockdownDocument (manager : Text) (value : Json ν) : Option (Json ν) :=
  some <| .ofFields [
    ("@odata.id".toList, .string
      ("/redfish/v1/Managers/".toList ++ manager ++ "/Oem/Supermicro/SysLockdown".toList)),
    ("@odata.type".toList, .string "#SysLockdown.v1_0_0.SysLockdown".toList),
    ("Id".toList, .string "SysLockdown".toList),
    ("Name".toList, .string "System Lockdown".toList),
    ("SysLockdownEnabled".toList, value)]

def sysLockdown (req : ScriptRequest) : Script ν σ (Returned ScriptResponse) := do
  logInbound host ctx
  let manager ← tryOption (segment req.path 4)
  serveSetting host ctx sysLockdownSetting (sysLockdownKey manager) (sysLockdownDocument manager)
    req

/-! `kcs_interface.rn` -/

/-- Only the four the vendor defines. -/
def isPrivilege : Json ν → Bool
  | .string value => value == "Administrator".toList || value == "Operator".toList ||
      value == "User".toList || value == "Callback".toList
  | _ => false

def kcsInterfaceSetting : Setting ν where
  member := "Privilege".toList
  accepts := isPrivilege
  refusal := "Privilege must be Administrator, Operator, User or Callback".toList
  fallback := .string "Administrator".toList

def kcsInterfaceKey (manager : Text) : Text :=
  "supermicro/".toList ++ manager ++ "/KCSPrivilege".toList

def kcsInterfaceDocument (manager : Text) (value : Json ν) : Option (Json ν) :=
  some <| .ofFields [
    ("@odata.id".toList, .string
      ("/redfish/v1/Managers/".toList ++ manager ++ "/Oem/Supermicro/KCSInterface".toList)),
    ("@odata.type".toList, .string "#KCSInterface.v1_0_0.KCSInterface".toList),
    ("Id".toList, .string "KCSInterface".toList),
    ("Name".toList, .string "KCS Interface".toList),
    ("Privilege".toList, value)]

def kcsInterface (req : ScriptRequest) : Script ν σ (Returned ScriptResponse) := do
  logInbound host ctx
  let manager ← tryOption (segment req.path 4)
  serveSetting host ctx kcsInterfaceSetting (kcsInterfaceKey manager)
    (kcsInterfaceDocument manager) req

/-! `host_interface.rn` -/

def hostInterfaceSetting : Setting ν where
  member := "InterfaceEnabled".toList
  accepts := isBool
  refusal := "InterfaceEnabled is required and must be a boolean".toList
  fallback := .bool true

def hostInterfaceKey (manager id : Text) : Text :=
  "supermicro/".toList ++ manager ++ '/' :: id ++ "/HostInterfaceEnabled".toList

def hostInterfaceDocument (manager id : Text) (value : Json ν) : Option (Json ν) :=
  some <| .ofFields [
    ("@odata.id".toList, .string
      ("/redfish/v1/Managers/".toList ++ manager ++ "/HostInterfaces/".toList ++ id)),
    ("@odata.type".toList, .string "#HostInterface.v1_3_0.HostInterface".toList),
    ("Id".toList, .string id),
    ("Name".toList, .string "Host Interface".toList),
    ("InterfaceEnabled".toList, value),
    ("HostInterfaceType".toList, .string "NetworkHostInterface".toList),
    ("Status".toList, .ofFields [
      ("State".toList, .string "Enabled".toList), ("Health".toList, .string "OK".toList)])]

def hostInterface (req : ScriptRequest) : Script ν σ (Returned ScriptResponse) := do
  logInbound host ctx
  let manager ← tryOption (segment req.path 4)
  let id ← tryOption (segment req.path 6)
  serveSetting host ctx hostInterfaceSetting (hostInterfaceKey manager id)
    (hostInterfaceDocument manager id) req

/-! `secure_boot.rn` -/

def secureBootSetting : Setting ν where
  member := "SecureBootEnable".toList
  accepts := isBool
  refusal := "SecureBootEnable is required and must be a boolean".toList
  fallback := .bool false

def secureBootKey (system : Text) : Text :=
  "supermicro/".toList ++ system ++ "/SecureBootEnable".toList

/-- `if enabled` stops at a value that is no bool. -/
def secureBootDocument (system : Text) (enabled : Json ν) : Option (Json ν) :=
  match enabled with
  | .bool on =>
    let current := if on then "Enabled".toList else "Disabled".toList
    some <| .ofFields [
      ("@odata.id".toList, .string ("/redfish/v1/Systems/".toList ++ system ++ "/SecureBoot".toList)),
      ("@odata.type".toList, .string "#SecureBoot.v1_1_0.SecureBoot".toList),
      ("Id".toList, .string "SecureBoot".toList),
      ("Name".toList, .string "UEFI Secure Boot".toList),
      ("SecureBootEnable".toList, enabled),
      ("SecureBootCurrentBoot".toList, .string current),
      ("SecureBootMode".toList, .string "UserMode".toList)]
  | _ => none

def secureBoot (req : ScriptRequest) : Script ν σ (Returned ScriptResponse) := do
  logInbound host ctx
  let system ← tryOption (segment req.path 4)
  serveSetting host ctx secureBootSetting (secureBootKey system) (secureBootDocument system) req

/-! `smc_manager_config_reset.rn` -/

def smcManagerConfigReset (_ : ScriptRequest) : Script ν σ (Returned ScriptResponse) := do
  logInbound host ctx
  storeRemovePrefix host "supermicro/".toList
  finishScript host ctx (statusResponse 204)

end Handlers

/-! ## One call at most -/

/-- What a request calls the store for, and how it ends from there. -/
structure Plan (ν : Type) where
  op : Option (ScriptStore.Op (Json ν))
  result : Option (Except Text (ScriptStore.Reply (Json ν))) →
    Except Stop (Returned ScriptResponse)

section Plans

variable {ν σ : Type} (host : Rune ν σ) (ctx : RequestCtx)

/-- A request that leaves the store alone. -/
def Plan.alone (result : Except Stop (Returned ScriptResponse)) : Plan ν where
  op := none
  result _ := result

/-- The reply to a call, or the error that `?` hands on. -/
def Plan.calls (op : ScriptStore.Op (Json ν))
    (next : ScriptStore.Reply (Json ν) → Except Stop (Returned ScriptResponse)) : Plan ν where
  op := some op
  result reply :=
    match reply with
    | some (.ok reply) => next reply
    | some (.error text) => .error (.error [.display text])
    | none => .error .vm

/-- The call of a plan on a store. -/
def Plan.replyFrom (plan : Plan ν) (store : ScriptStore.Store (Json ν)) :
    Option (Except Text (ScriptStore.Reply (Json ν))) × ScriptStore.Store (Json ν) :=
  match plan.op with
  | some op =>
    (some (ScriptStore.step host.serde store ⟨some 0, op⟩).1,
      ScriptStore.next host.serde store ⟨some 0, op⟩)
  | none => (none, store)

/-- The run is the plan, and it changes the store as its one call does. -/
def Follows (plan : Plan ν) (run : Script ν σ (Returned ScriptResponse)) : Prop :=
  ∀ machine, (exec run machine).1 = plan.result (plan.replyFrom host machine.store).1 ∧
    (exec run machine).2.store = (plan.replyFrom host machine.store).2

/-- What a write gives for the member, where it is acceptable. -/
def givenValue (setting : Setting ν) (req : ScriptRequest) : Except Fault (Option (Json ν)) :=
  if req.isJson then
    (bodyJson host.toHost req.body "request".toList).map fun body =>
      (valueAt body setting.member).filter setting.accepts
  else .ok none

def writePlan (setting : Setting ν) (key : Text) (req : ScriptRequest) : Plan ν :=
  match givenValue host setting req with
  | .error fault => Plan.alone (.error (.error fault))
  | .ok none => Plan.alone
      (.ok (.script (jsonResponse host.toHost 400 (errorDocument setting.refusal))))
  | .ok (some value) =>
    Plan.calls (.set key value) fun _ => .ok (.script (statusResponse 204))

/-- The end of a read that was given this value. -/
def readResult (document : Json ν → Option (Json ν)) (value : Json ν) :
    Except Stop (Returned ScriptResponse) :=
  match document value with
  | none => .error .vm
  | some document =>
    ((jsonResponse host.toHost 200 document).rewrite host.toHost ctx).map Returned.script
      |>.mapError Stop.error

def readPlan (setting : Setting ν) (key : Text) (document : Json ν → Option (Json ν)) : Plan ν :=
  Plan.calls (.getOr key setting.fallback) fun reply =>
    match reply with
    | .valueOr value => readResult host ctx document value
    | _ => .error .vm

def settingPlan (setting : Setting ν) (key : Text) (document : Json ν → Option (Json ν))
    (req : ScriptRequest) : Plan ν :=
  if isWrite req then writePlan host setting key req else readPlan host ctx setting key document

def resetPlan : Plan ν :=
  Plan.calls (.removePrefix "supermicro/".toList) fun _ => .ok (.script (statusResponse 204))

end Plans

section Follows

variable {ν σ α : Type} {host : Rune ν σ} {ctx : RequestCtx}

/-- What goes before without touching the store. -/
theorem Follows.after {plan : Plan ν} {first : Script ν σ α} {value : α}
    {next : α → Script ν σ (Returned ScriptResponse)}
    (hfirst : ∀ machine : Machine ν σ, ∃ machine' : Machine ν σ,
      exec first machine = (.ok value, machine') ∧ machine'.store = machine.store)
    (h : Follows host plan (next value)) : Follows host plan (first >>= next) := by
  intro machine
  obtain ⟨machine', hrun, hstore⟩ := hfirst machine
  rw [exec_bind, hrun, thenExec_ok, ← hstore]
  exact h machine'

/-- A stop before any call. -/
theorem Follows.stop {stop : Stop} {first : Script ν σ α}
    {next : α → Script ν σ (Returned ScriptResponse)}
    (hfirst : ∀ machine : Machine ν σ, exec first machine = (.error stop, machine)) :
    Follows host (Plan.alone (.error stop)) (first >>= next) := by
  intro machine
  rw [exec_bind, hfirst, thenExec_error]
  exact ⟨rfl, rfl⟩

/-- A call, and an end that leaves the store alone. -/
theorem Follows.calls {op : ScriptStore.Op (Json ν)}
    {result : ScriptStore.Reply (Json ν) → Except Stop (Returned ScriptResponse)}
    {next : ScriptStore.Reply (Json ν) → Script ν σ (Returned ScriptResponse)}
    (hnext : ∀ reply (machine : Machine ν σ), (exec (next reply) machine).1 = result reply ∧
      (exec (next reply) machine).2.store = machine.store) :
    Follows host (Plan.calls op result) (storeCall host op >>= next) := by
  intro machine
  have hreply : (Plan.calls op result).replyFrom host machine.store =
      (some (ScriptStore.step host.serde machine.store ⟨some 0, op⟩).1,
        ScriptStore.next host.serde machine.store ⟨some 0, op⟩) := rfl
  rw [exec_bind, exec_storeCall, hreply]
  cases (ScriptStore.step host.serde machine.store ⟨some 0, op⟩).1 with
  | ok reply => exact hnext reply _
  | error text => exact ⟨rfl, rfl⟩

theorem follows_finish (response : ScriptResponse) :
    Follows host (Plan.alone (.ok (.script response))) (finishScript host ctx response) := by
  intro machine
  exact ⟨rfl, rfl⟩

theorem Follows.congr {plan : Plan ν} {run run' : Script ν σ (Returned ScriptResponse)}
    (h : Follows host plan run) (heq : ∀ machine, exec run' machine = exec run machine) :
    Follows host plan run' := by
  intro machine
  rw [heq]
  exact h machine

/-- The given value is kept, and nothing else is done. -/
theorem exec_takeSetting (setting : Setting ν) (key : Text) (req : ScriptRequest)
    (machine : Machine ν σ) : exec (takeSetting host setting key req) machine =
      exec (tryResult (givenValue host setting req) >>= fun given => match given with
        | some value => storeCall host (.set key value) >>= fun _ => pure true
        | none => pure false) machine := by
  unfold takeSetting givenValue requestJson
  generalize bodyJson host.toHost req.body "request".toList = read
  cases req.isJson with
  | false => rfl
  | true =>
      cases read with
      | error fault => rfl
      | ok body =>
          simp only [if_true, Except.map, exec_bind, exec_tryResult_ok, thenExec_ok]
          cases valueAt body setting.member with
          | none => rfl
          | some value =>
              cases haccepts : setting.accepts value with
              | false => simp [Option.filter, haccepts]
              | true =>
                  simp only [Option.filter, haccepts, if_true, storeSet, exec_bind, exec_storeCall]
                  cases (ScriptStore.step host.serde machine.store
                    ⟨some 0, .set key value⟩).1 <;> rfl

theorem follows_writeSetting (setting : Setting ν) (key : Text) (req : ScriptRequest) :
    Follows host (writePlan host setting key req)
      (writeSetting (σ := σ) host ctx setting key req) := by
  have htake : ∀ machine : Machine ν σ, exec (takeSetting host setting key req) machine = _ :=
    exec_takeSetting setting key req
  unfold writePlan
  cases hgiven : givenValue host setting req with
  | error fault =>
      apply Follows.stop
      intro machine
      rw [htake, hgiven]
      rfl
  | ok given =>
      rw [hgiven] at htake
      cases given with
      | none => exact Follows.after (fun machine => ⟨machine, htake machine, rfl⟩) (follows_finish _)
      | some value =>
          have hcalls : Follows host _ (storeCall host (.set key value) >>= fun _ =>
              finishScript host ctx (statusResponse 204) : Script ν σ _) :=
            Follows.calls fun reply machine => ⟨rfl, rfl⟩
          refine hcalls.congr ?_
          intro machine
          unfold writeSetting
          rw [exec_bind, htake]
          simp only [exec_bind, exec_tryResult_ok, exec_storeCall, thenExec_ok]
          cases (ScriptStore.step host.serde machine.store ⟨some 0, .set key value⟩).1 <;> rfl

theorem follows_readSetting (setting : Setting ν) (key : Text)
    (document : Json ν → Option (Json ν)) :
    Follows host (readPlan host ctx setting key document)
      (readSetting (σ := σ) host ctx setting key document) := by
  have hcalls : Follows host (readPlan host ctx setting key document)
      (storeCall host (.getOr key setting.fallback) >>= fun reply => match reply with
        | .valueOr value => do
          let document ← orStop (document value)
          rewriteScript host ctx (jsonResponse host.toHost 200 document)
        | _ => throw .vm : Script ν σ _) := by
    apply Follows.calls
    intro reply machine
    cases reply with
    | valueOr value =>
        show (exec (orStop (document value) >>= fun document =>
            rewriteScript host ctx (jsonResponse host.toHost 200 document)) machine).1 =
              readResult host ctx document value ∧
          (exec (orStop (document value) >>= fun document =>
            rewriteScript host ctx (jsonResponse host.toHost 200 document)) machine).2.store =
              machine.store
        unfold readResult
        cases document value with
        | none => exact ⟨rfl, rfl⟩
        | some built =>
            simp only [exec_bind, exec_orStop_some, thenExec_ok, rewriteScript]
            cases (jsonResponse host.toHost 200 built).rewrite host.toHost ctx with
            | error fault => exact ⟨rfl, rfl⟩
            | ok response => exact ⟨rfl, rfl⟩
    | value value => exact ⟨rfl, rfl⟩
    | done => exact ⟨rfl, rfl⟩
    | removed was => exact ⟨rfl, rfl⟩
    | removedPrefix count => exact ⟨rfl, rfl⟩
    | held is => exact ⟨rfl, rfl⟩
  refine hcalls.congr ?_
  intro machine
  unfold readSetting storeGetOr
  simp only [exec_bind, exec_storeCall]
  cases (ScriptStore.step host.serde machine.store ⟨some 0, .getOr key setting.fallback⟩).1 with
  | error text => rfl
  | ok reply => cases reply <;> rfl

theorem follows_serveSetting (setting : Setting ν) (key : Text)
    (document : Json ν → Option (Json ν)) (req : ScriptRequest) :
    Follows host (settingPlan host ctx setting key document req)
      (serveSetting (σ := σ) host ctx setting key document req) := by
  unfold settingPlan serveSetting
  split
  · exact follows_writeSetting setting key req
  · exact follows_readSetting setting key document

theorem follows_smcManagerConfigReset (req : ScriptRequest) :
    Follows host resetPlan (smcManagerConfigReset (σ := σ) host ctx req) := by
  refine Follows.after (fun machine => ⟨_, exec_logInbound machine, rfl⟩) ?_
  have hcalls : Follows host resetPlan (storeCall host (.removePrefix "supermicro/".toList) >>=
      fun _ => finishScript host ctx (statusResponse 204) : Script ν σ _) :=
    Follows.calls fun reply machine => ⟨rfl, rfl⟩
  refine hcalls.congr ?_
  intro machine
  unfold storeRemovePrefix
  simp only [exec_bind, exec_storeCall]
  cases (ScriptStore.step host.serde machine.store
    ⟨some 0, .removePrefix "supermicro/".toList⟩).1 <;> rfl

end Follows
end RedfishProxy.Shipped
