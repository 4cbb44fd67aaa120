import RedfishProxy.Shipped.BootStore
import RedfishProxy.Shipped.Dressing
import RedfishProxy.Shipped.Setting

/-!
# The system and what hangs off it

`systems.rn`, `system_settings.rn` and `boot_options.rn`. A `PATCH` of the system
or of its settings relays the boot overrides of its body; the one of the system
keeps the order besides.

Main results:
* `exec_patchBoot`: what a relayed override comes to.
* `exec_dressSystem`: the document of a system, with the order of the store.
-/

namespace RedfishProxy.Shipped

open Lib Http Script RuneHost ScriptUtil
open ScriptStore (IsKey Bounded)

section Handlers

variable {ν σ : Type} (host : Rune ν σ) (ctx : RequestCtx)

def systemPath (system : Text) : Text := "/redfish/v1/Systems/".toList ++ system

def orderKey (system : Text) : Text := "supermicro/".toList ++ system ++ "/BootOrder".toList

/-- The order of a machine that reports none. -/
def stubOrder : Json ν := .array [.string "Boot0000".toList, .string "Boot0001".toList]

/-! `systems.rn` -/

/-- A body is parsed only where the reply declared one. -/
def finishOverride (reply : BmcResponse) : Script ν σ (Returned ScriptResponse) :=
  if isJson reply.headers then do
    let document ← tryResult (bodyJson host.toHost reply.body "response".toList)
    rewriteScript host ctx (jsonResponse host.toHost reply.status document)
  else finishScript host ctx (statusResponse reply.status)

/-- The override goes to the BMC, and its status comes back. -/
def patchBoot (system : Text) (boot : Json.Fields ν) : Script ν σ (Returned ScriptResponse) := do
  let reply ← bmc (subrequestWith host.toHost ctx "PATCH".toList (systemPath system)
    (.ofFields [("Boot".toList, .object boot)]))
  finishOverride host ctx reply

/-- Once the body is read: nothing is relayed when there is no override. -/
def finishBoot (system : Text) (taken : Taken ν) : Script ν σ (Returned ScriptResponse) :=
  if taken.count = 0 then finishScript host ctx (statusResponse 204)
  else patchBoot host ctx system taken.boot

def patchSystem (system : Text) (req : ScriptRequest) : Script ν σ (Returned ScriptResponse) := do
  let taken ← bootOverrides host (storeSet host (orderKey system)) req
  finishBoot host ctx system taken

/-- Missing, no text, or nothing but blanks. -/
def isBlank : Option (Json ν) → Bool
  | some (.string text) => (trim text).isEmpty
  | _ => true

/-- `uuid.replace("-", "").to_uppercase()`. -/
def serialOfUuid (uuid : Text) : Text := host.toUppercase (uuid.filter (· != '-'))

/-- The digest of address and manager id. -/
def digestSerial : Script ν σ Text := do
  let ids ← bmc (resolveIds host.toHost ctx)
  return host.toUppercase (host.sha256 (ctx.target.display ++ ids.manager))

/-- `derive_serial`: the UUID, or else the digest. -/
def deriveSerial (sys : Json ν) : Script ν σ Text :=
  match valueAt sys "UUID".toList with
  | some (.string uuid) =>
    if (trim uuid).isEmpty then digestSerial host ctx else return serialOfUuid host uuid
  | _ => digestSerial host ctx

/-- The document with a serial. -/
def withSerial (sys : Json ν) : Script ν σ (Json ν) :=
  if isBlank (valueAt sys "SerialNumber".toList) then do
    let serial ← deriveSerial host ctx sys
    setEach [("SerialNumber".toList, .string serial)] sys
  else return sys

/-- The BMC's own order, or the stub. -/
def ownOrder (sys : Json ν) : Json ν :=
  match valueAt sys "Boot/BootOrder".toList with
  | some (.array (item :: items)) => .array (item :: items)
  | _ => stubOrder

/-- What is set before the order is asked for. -/
def linkMembers (system : Text) : List (Text × Json ν) := [
  ("@Redfish.Settings/@odata.type".toList, .string "#Settings.v1_3_5.Settings".toList),
  ("@Redfish.Settings/SettingsObject/@odata.id".toList,
    .string (systemPath system ++ "/Settings".toList)),
  ("Boot/BootOptions/@odata.id".toList, .string (systemPath system ++ "/BootOptions".toList))]

/-- And from the order on. -/
def systemMembers (system : Text) (order : Json ν) : List (Text × Json ν) := [
  ("Boot/BootOrder".toList, order),
  ("SecureBoot/@odata.id".toList, .string (systemPath system ++ "/SecureBoot".toList)),
  ("SerialConsole/MaxConcurrentSessions".toList, .number (host.ofNat 1)),
  ("SerialConsole/SSH/ServiceEnabled".toList, .bool true),
  ("SerialConsole/SSH/Port".toList, .number (host.ofNat 22)),
  ("SerialConsole/IPMI/ServiceEnabled".toList, .bool true),
  ("SerialConsole/IPMI/Port".toList, .number (host.ofNat 623)),
  ("Manufacturer".toList, .string "Supermicro".toList),
  ("Model".toList, .string "Super Server".toList)]

def dressSystem (system : Text) (sys : Json ν) : Script ν σ (Json ν) := do
  let sys ← withSerial host ctx sys
  let sys ← setEach (linkMembers system) sys
  let order ← storeGetOr host (orderKey system) (ownOrder sys)
  setEach (systemMembers host system order) sys

def readSystem (system : Text) : Script ν σ (Returned ScriptResponse) :=
  dressed host ctx (dressSystem host ctx system)

def systems : Handler ν σ := fun ctx req => do
  logInbound host ctx
  let system ← tryOption (segment req.path 4)
  if system.isEmpty then relay host ctx
  else if req.method == "PATCH".toList then patchSystem host ctx system req
  else readSystem host ctx system

/-! `system_settings.rn` -/

def patchSettings (system : Text) (req : ScriptRequest) : Script ν σ (Returned ScriptResponse) := do
  let taken ← bootOverrides host (fun _ => pure ()) req
  finishBoot host ctx system taken

/-- The `Boot` of the document, if the BMC answered with one. -/
def currentBoot (current : BmcResponse) : Script ν σ (Json ν) :=
  if isSuccess current.status && isJson current.headers then do
    let document ← tryResult (bodyJson host.toHost current.body "response".toList)
    return (valueAt document "Boot".toList).getD (.ofFields [])
  else return .ofFields []

def bootMembers (system : Text) : List (Text × Json ν) := [
  ("BootOrder".toList, stubOrder),
  ("BootOptions/@odata.id".toList, .string (systemPath system ++ "/BootOptions".toList))]

def settingsDocument (system : Text) (boot : Json ν) : Json ν := .ofFields [
  ("@odata.id".toList, .string (systemPath system ++ "/Settings".toList)),
  ("@odata.type".toList, .string "#ComputerSystem.v1_20_0.ComputerSystem".toList),
  ("Id".toList, .string "Settings".toList),
  ("Name".toList, .string "System Settings".toList),
  ("Boot".toList, boot)]

def readSettings (system : Text) : Script ν σ (Returned ScriptResponse) := do
  let current ← bmc (subrequest host.toHost ctx "GET".toList (systemPath system) none)
  let boot ← currentBoot host current
  let boot ← setEach (bootMembers system) boot
  rewriteScript host ctx (jsonResponse host.toHost 200 (settingsDocument system boot))

def systemSettings : Handler ν σ := fun ctx req => do
  logInbound host ctx
  let system ← tryOption (segment req.path 4)
  if isWrite req then patchSettings host ctx system req else readSettings host ctx system

/-! `boot_options.rn` -/

def bootOptionsDocument (system : Text) : Json ν :=
  let base := systemPath system ++ "/BootOptions".toList
  .ofFields [
    ("@odata.id".toList, .string base),
    ("@odata.type".toList, .string "#BootOptionCollection.BootOptionCollection".toList),
    ("Name".toList, .string "Boot Option Collection".toList),
    ("Members".toList, .array [
      .ofFields [("@odata.id".toList, .string (base ++ "/Boot0000".toList))],
      .ofFields [("@odata.id".toList, .string (base ++ "/Boot0001".toList))]]),
    ("Members@odata.count".toList, .number (host.ofNat 2))]

def bootOptions : Handler ν σ := fun ctx req => do
  logInbound host ctx
  let system ← tryOption (segment req.path 4)
  rewriteScript host ctx (jsonResponse host.toHost 200 (bootOptionsDocument host system))

end Handlers

/-- The id is the last piece of the path. -/
theorem systemPath_eq (system : Text) :
    systemPath system = "/redfish/v1/Systems".toList ++ '/' :: system := by
  have hfront : "/redfish/v1/Systems/".toList = "/redfish/v1/Systems".toList ++ ['/'] := by decide
  unfold systemPath
  rw [hfront, List.append_assoc, List.singleton_append]

/-! ## How deep a boot write is -/

section Fits

variable {ν σ : Type} {host : Rune ν σ}

theorem fits_entryAt {d : Nat} {value entry found : Json ν} {entries : List (Json ν)}
    (h : Json.Fits (d + 1) value) (hentries : entriesOf host value = some entries)
    (hentry : entry ∈ entries) (hfound : entryAt entry 1 = some found) : Json.Fits d found := by
  unfold entriesOf at hentries
  split at hentries
  · injection hentries with hentries
    rw [← hentries] at hentry
    have hitem := h.item hentry
    unfold entryAt at hfound
    split at hfound
    · obtain ⟨d, rfl⟩ := hitem.of_array
      exact (hitem.item (List.mem_of_getElem? hfound)).mono (Nat.le_succ d)
    · cases hfound
  · injection hentries with hentries
    rw [← hentries] at hentry
    obtain ⟨field, hfield, rfl⟩ := List.mem_map.mp hentry
    obtain rfl : field.2 = found := by
      injection hfound
    exact h.field ((host.order_perm _).mem_iff.mp hfield)
  · split at hentries
    · injection hentries with hentries
      rw [← hentries] at hentry
      cases hentry
    · cases hentries
  · cases hentries

/-- What is read of an entry is at its second place. -/
theorem entryAt_of_readEntry {entry : Json ν} {member : Text × Json ν}
    (h : readEntry entry = some (some member)) : entryAt entry 1 = some member.2 := by
  unfold readEntry at h
  split at h
  · cases h
  · cases h
  · rename_i value _ hvalue
    obtain ⟨name, _, hmember⟩ := Option.map_eq_some_iff.mp h
    injection hmember with hmember
    rw [← hmember]
    exact hvalue

theorem mem_readEntries {entries : List (Json ν)} {member : Text × Json ν}
    (h : member ∈ (readEntries entries).members) :
    ∃ entry ∈ entries, readEntry entry = some (some member) := by
  induction entries with
  | nil => cases h
  | cons entry entries ih =>
      unfold readEntries at h
      cases hentry : readEntry entry with
      | none =>
          rw [hentry] at h
          cases h
      | some read =>
          rw [hentry] at h
          cases read with
          | none =>
              obtain ⟨e, he, hread⟩ := ih h
              exact ⟨e, List.mem_cons_of_mem _ he, hread⟩
          | some first =>
              rcases List.mem_cons.mp h with rfl | h
              · exact ⟨entry, by simp, hentry⟩
              · obtain ⟨e, he, hread⟩ := ih h
                exact ⟨e, List.mem_cons_of_mem _ he, hread⟩

/-- A body that was read is within the limit. -/
theorem fits_of_bodyJson {body : List UInt8} {what : Text} {value : Json ν}
    (h : bodyJson host.toHost body what = .ok value) : Json.Fits host.limit value := by
  unfold bodyJson at h
  cases hread : host.scriptFromSlice body with
  | error error =>
      rw [hread] at h
      cases h
  | ok read =>
      rw [hread] at h
      rw [← Except.ok.inj h]
      exact fits_of_scriptFromSlice hread

/-- The members of a body are two levels down at least. -/
theorem fits_of_mem_members {req : ScriptRequest} {member : Text × Json ν}
    (h : member ∈ (bootWrite host req).members) : Json.Fits (host.limit - 2) member.2 := by
  unfold bootWrite at h
  split at h
  · split at h
    · cases h
    · rename_i body hbody
      have hfits : Json.Fits host.limit body := fits_of_bodyJson hbody
      split at h
      · cases h
      · rename_i fields hfields
        split at h
        · cases h
        · rename_i entries hentries
          obtain ⟨hle, hdeep⟩ := walk_fits hfits hfields
          have hone : ("Boot".toList.splitOn '/').length = 1 := by decide
          rw [hone] at hle hdeep
          obtain ⟨entry, hentry, hread⟩ := mem_readEntries h
          have hlimit := host.limit_ge
          have hstep : Json.Fits (host.limit - 2 + 1) fields := by
            rwa [show host.limit - 2 + 1 = host.limit - 1 by omega]
          exact fits_entryAt hstep hentries hentry (entryAt_of_readEntry hread)
  · cases h

theorem fits_of_mem_orders {req : ScriptRequest} {order : Json ν}
    (h : order ∈ (bootWrite host req).orders) : Json.Fits (host.limit - 2) order := by
  obtain ⟨member, hmember, horder⟩ := List.mem_filterMap.mp h
  split at horder
  · injection horder with horder
    rw [← horder]
    exact fits_of_mem_members hmember
  · cases horder

/-- And so the overrides can be relayed. -/
theorem fits_taken (req : ScriptRequest) :
    Json.Fits host.limit (.ofFields [("Boot".toList, .object (bootWrite host req).taken.boot)]) := by
  have hlimit := host.limit_ge
  have hboot : Json.Fits (host.limit - 2 + 1) (.object (bootWrite host req).taken.boot) := by
    unfold BootWrite.taken
    have hmembers : ∀ member ∈ (bootWrite host req).members,
        Json.Fits (host.limit - 2) member.2 := fun _ h => fits_of_mem_members h
    generalize (bootWrite host req).members = members at hmembers
    have hnothing : Json.Fits (host.limit - 2 + 1) (.object (Taken.nothing : Taken ν).boot) :=
      .object .nil fun field hfield => absurd hfield (by simp [Taken.nothing])
    generalize (Taken.nothing : Taken ν) = taken at hnothing
    induction members generalizing taken with
    | nil => exact hnothing
    | cons member members ih =>
        apply ih (fun m hm => hmembers m (by simp [hm]))
        unfold Taken.add
        split
        · exact hnothing.insert (hmembers member (by simp)) _
        · exact hnothing
  refine (Json.fits_ofFields ?_).mono (show host.limit - 2 + 1 + 1 ≤ host.limit by omega)
  simp only [List.forall_mem_cons]
  exact ⟨hboot, by simp⟩

end Fits

/-! ## A relayed override -/

section Override

variable {ν σ : Type} (host : Rune ν σ) (ctx : RequestCtx)

/-- A value as a script writes it. -/
def encoded (value : Json ν) : List UInt8 :=
  match host.scriptToVec value with
  | .ok body => body
  | .error _ => []

/-- What the BMC is asked. -/
def overrideOutbound (system : Text) (boot : Json.Fields ν) : Outbound :=
  helperOutbound ctx .PATCH (systemPath system)
    (some (encoded host (.ofFields [("Boot".toList, .object boot)])))

/-- The status the caller gets for what the BMC answers. -/
def overrideStatus (reply : Except TransportError Reply) : Nat :=
  match reply with
  | .error _ => 502
  | .ok reply =>
    match reply.body with
    | .error _ => 502
    | .ok bytes =>
      if isJson reply.headers then
        match host.fromSlice bytes with
        | .ok _ => clampStatus reply.status
        | .error _ => 502
      else clampStatus reply.status

theorem requireAbsolute_systemPath (system : Text) :
    requireAbsolute (systemPath system) = .ok () := by
  have hpath : systemPath system = '/' :: ("redfish/v1/Systems/".toList ++ system) := rfl
  apply requireAbsolute_ok hpath
  show some 'r' ≠ some '/'
  decide

/-- The request for the system itself, and what is read of its reply. -/
def systemOutbound (system : Text) : Outbound := helperOutbound ctx .GET (systemPath system) none

def systemReply (system : Text) (net : σ) : Except Fault BmcResponse :=
  helperFrom host.toHost (systemOutbound ctx system) (systemPath system)
    (host.client (systemOutbound ctx system) net).1

variable {host ctx}

/-- A reply that is read to its end. -/
theorem systemReply_ok {system : Text} {net : σ} {reply : Reply} {bytes : List UInt8}
    (hreply : (host.client (systemOutbound ctx system) net).1 = .ok reply)
    (hbody : reply.body = .ok bytes) : systemReply host ctx system net =
      .ok ⟨reply.status, copyEndToEnd reply.headers .new, bytes⟩ := by
  unfold systemReply helperFrom
  rw [hreply]
  show readReply reply = _
  unfold readReply readBody
  rw [hbody]
  rfl

theorem exec_getSystem (ctx : RequestCtx) (system : Text) (machine : Machine ν σ) :
    exec (bmc (subrequest host.toHost ctx "GET".toList (systemPath system) none)) machine =
      ((systemReply host ctx system machine.world.net).mapError Stop.error,
        { machine with world := machine.world.after host.toHost (systemOutbound ctx system) }) := by
  have hget : exec (subrequest host.toHost ctx "GET".toList (systemPath system) none)
      machine.world = _ :=
    exec_subrequest host.toHost machine.world (requireAbsolute_systemPath system) .GET none
  rw [exec_bmc, hget]
  rfl

/-- The status the caller gets for a reply that was read. -/
theorem status_finishOverride (reply : Reply) {bytes : List UInt8} (hbody : reply.body = .ok bytes)
    (machine : Machine ν σ) :
    (answer host ctx (exec (finishOverride host ctx
      ⟨reply.status, copyEndToEnd reply.headers .new, bytes⟩) machine).1).status =
        overrideStatus host (.ok reply) := by
  unfold finishOverride overrideStatus
  simp only [isJson_copyEndToEnd, hbody]
  cases isJson reply.headers with
  | false => rfl
  | true =>
      simp only [if_true]
      unfold bodyJson
      rw [exec_bind]
      cases hread : host.fromSlice bytes with
      | error error =>
          rw [scriptFromSlice_of_error hread]
          exact status_answer_error host ctx _
      | ok document =>
          obtain ⟨response, record, hrun, hcarries⟩ := exec_rewriteScript host ctx machine
            (fits_scriptValue (host.fits_of_fromSlice _ _ hread)) reply.status
          rw [scriptFromSlice_of_fromSlice hread]
          show (answer host ctx (exec (rewriteScript host ctx
            (jsonResponse host.toHost reply.status (host.scriptValue document))) machine).1).status = _
          rw [hrun, answer_script, status_finishScriptResponse]
          exact hcarries.status

/-- The reply is all it takes. -/
theorem finishOverride_keeps {γ : Type} {view : Machine ν σ → γ}
    (hview : ∀ (machine : Machine ν σ) (record : Record),
      view (machine.logs record) = view machine) (reply : BmcResponse) :
    Keeps view (finishOverride host ctx reply) :=
  .ite ((Keeps.tryResult _).bind fun _ => .rewriteScript hview _) (.finishScript hview _)

theorem patchBoot_keepsStore (system : Text) (boot : Json.Fields ν) :
    KeepsStore (patchBoot host ctx system boot) :=
  (Keeps.bmc _).bind fun reply => finishOverride_keeps Machine.logs_store reply

/-- **What a relayed override comes to**: one exchange, and its status. -/
theorem exec_patchBoot (ctx : RequestCtx) (system : Text) {boot : Json.Fields ν}
    (hfits : Json.Fits host.limit (.ofFields [("Boot".toList, .object boot)]))
    (machine : Machine ν σ) :
    (answer host ctx (exec (patchBoot host ctx system boot) machine).1).status =
        overrideStatus host
          (host.client (overrideOutbound host ctx system boot) machine.world.net).1 ∧
      (exec (patchBoot host ctx system boot) machine).2.world =
        machine.world.after host.toHost (overrideOutbound host ctx system boot) := by
  obtain ⟨body, hbody, _⟩ := host.scriptToVec_ok _ hfits
  have hencoded : encoded host (.ofFields [("Boot".toList, .object boot)]) = body := by
    unfold encoded
    rw [hbody]
  have hpatch : exec (subrequestWith host.toHost ctx "PATCH".toList (systemPath system)
      (.ofFields [("Boot".toList, .object boot)])) machine.world = _ :=
    exec_subrequestWith host.toHost machine.world (requireAbsolute_systemPath system) .PATCH hbody
  unfold patchBoot overrideOutbound
  rw [hencoded, exec_bind, exec_bmc, hpatch]
  generalize helperOutbound ctx .PATCH (systemPath system) (some body) = outbound
  generalize machine.world.after host.toHost outbound = world
  cases (host.client outbound machine.world.net).1 with
  | error error => exact ⟨status_answer_error host ctx _, rfl⟩
  | ok reply =>
      have hhelper : helperFrom host.toHost outbound (systemPath system) (.ok reply) =
        readReply reply := rfl
      rw [hhelper]
      unfold readReply readBody
      cases hread : reply.body with
      | error error =>
          refine ⟨(status_answer_error host ctx _).trans ?_, rfl⟩
          unfold overrideStatus
          simp only [hread]
      | ok bytes =>
          exact ⟨status_finishOverride reply hread _,
            finishOverride_keeps Machine.logs_world _ _⟩

end Override

/-! ## A boot write -/

section Write

variable {ν σ : Type} (host : Rune ν σ) (ctx : RequestCtx)

/-- The status for what was collected, and the network after it. -/
def bootStatus (system : Text) (taken : Taken ν) (net : σ) : Nat :=
  if taken.count = 0 then 204
  else overrideStatus host (host.client (overrideOutbound host ctx system taken.boot) net).1

def bootNet (system : Text) (taken : Taken ν) (net : σ) : σ :=
  if taken.count = 0 then net
  else (host.client (overrideOutbound host ctx system taken.boot) net).2

variable {host ctx}

theorem exec_finishBoot (ctx : RequestCtx) (system : Text) {taken : Taken ν}
    (hfits : Json.Fits host.limit (.ofFields [("Boot".toList, .object taken.boot)]))
    (machine : Machine ν σ) :
    (answer host ctx (exec (finishBoot host ctx system taken) machine).1).status =
        bootStatus host ctx system taken machine.world.net ∧
      (exec (finishBoot host ctx system taken) machine).2.store = machine.store ∧
      (exec (finishBoot host ctx system taken) machine).2.world.net =
        bootNet host ctx system taken machine.world.net := by
  unfold finishBoot bootStatus bootNet
  split
  · exact ⟨rfl, rfl, rfl⟩
  · obtain ⟨hstatus, hworld⟩ := exec_patchBoot ctx system hfits machine
    exact ⟨hstatus, patchBoot_keepsStore _ _ machine, by rw [hworld]; rfl⟩

/-- **What a `PATCH` of a system comes to.** The orders are kept first; where one
is refused, or the loop stops, nothing else happens. -/
theorem exec_patchSystem (ctx : RequestCtx) (system : Text) (req : ScriptRequest)
    (machine : Machine ν σ) :
    let write := bootWrite host req
    let kept := keepAll host (orderKey system) write.orders machine.store
    let run := exec (patchSystem host ctx system req) machine
    run.2.store = kept.2 ∧
      ((kept.1 = .ok () ∧ write.ended = .ok () ∧
          (answer host ctx run.1).status = bootStatus host ctx system write.taken machine.world.net ∧
          run.2.world.net = bootNet host ctx system write.taken machine.world.net) ∨
        (¬ (kept.1 = .ok () ∧ write.ended = .ok ()) ∧ (answer host ctx run.1).status = 502 ∧
          run.2.world.net = machine.world.net)) := by
  intro write kept run
  have hrun : run = thenExec (finishBoot host ctx system)
      (exec (write.follow (storeSet host (orderKey system))) machine) := by
    show exec (bootOverrides host (storeSet host (orderKey system)) req >>= _) machine = _
    rw [exec_bind, exec_bootOverrides]
  have hfits : Json.Fits host.limit (.ofFields [("Boot".toList, .object write.taken.boot)]) :=
    fits_taken req
  unfold BootWrite.follow at hrun
  rw [exec_bind, exec_forM_storeSet] at hrun
  generalize hresult : keepAll host (orderKey system) write.orders machine.store = result at hrun
  have hkept : kept = result := hresult
  rw [hrun, hkept]
  obtain ⟨result, store⟩ := result
  cases result with
  | error text => exact ⟨rfl, .inr ⟨by simp, status_answer_error host ctx _, rfl⟩⟩
  | ok value =>
      cases hended : write.ended with
      | error stop => exact ⟨rfl, .inr ⟨by simp, status_answer_error host ctx _, rfl⟩⟩
      | ok value =>
          obtain ⟨hstatus, hstore, hnet⟩ := exec_finishBoot ctx system hfits
            { machine with store := store }
          exact ⟨hstore, .inl ⟨rfl, rfl, hstatus, hnet⟩⟩

end Write

/-! ## A read -/

section Read

variable {ν σ : Type} {host : Rune ν σ} {ctx : RequestCtx}

theorem withSerial_keepsStore (sys : Json ν) : KeepsStore (withSerial host ctx sys) := by
  have hdigest : KeepsStore (digestSerial host ctx) := (Keeps.bmc _).bind fun _ => .pure _
  unfold withSerial deriveSerial
  refine .ite (Keeps.bind ?_ fun serial => setEach_keeps _ sys) (.pure sys)
  split
  · exact .ite hdigest (.pure _)
  · exact hdigest

theorem dressSystem_keepsStore (system : Text) (sys : Json ν) :
    KeepsStore (dressSystem host ctx system sys) :=
  (withSerial_keepsStore sys).bind fun sys => (setEach_keeps _ sys).bind fun _ =>
    (Keeps.storeGetOr _ _).bind fun _ => setEach_keeps _ _

theorem keyPaths_serial (serial : Text) :
    ∀ path ∈ [("SerialNumber".toList, (.string serial : Json ν))].map Prod.fst, IsKeyPath path := by
  show ∀ path ∈ ["SerialNumber".toList], IsKeyPath path
  decide

theorem keyPaths_linkMembers (system : Text) :
    ∀ path ∈ (linkMembers (ν := ν) system).map Prod.fst, IsKeyPath path := by
  show ∀ path ∈ ["@Redfish.Settings/@odata.type".toList,
    "@Redfish.Settings/SettingsObject/@odata.id".toList, "Boot/BootOptions/@odata.id".toList],
    IsKeyPath path
  decide

theorem keyPaths_systemMembers (system : Text) (order : Json ν) :
    ∀ path ∈ (systemMembers host system order).map Prod.fst, IsKeyPath path := by
  show ∀ path ∈ ["Boot/BootOrder".toList, "SecureBoot/@odata.id".toList,
    "SerialConsole/MaxConcurrentSessions".toList, "SerialConsole/SSH/ServiceEnabled".toList,
    "SerialConsole/SSH/Port".toList, "SerialConsole/IPMI/ServiceEnabled".toList,
    "SerialConsole/IPMI/Port".toList, "Manufacturer".toList, "Model".toList], IsKeyPath path
  decide

/-- A serial is set, or there is one, or it cannot be derived. -/
theorem exec_withSerial (sys : Json ν) (machine : Machine ν σ) :
    (∃ stop, (exec (withSerial host ctx sys) machine).1 = .error stop) ∨
      (exec (withSerial host ctx sys) machine).1 = .ok sys ∨
      ∃ serial, (exec (withSerial host ctx sys) machine).1 =
        .ok (writtenEach [("SerialNumber".toList, .string serial)] sys) := by
  unfold withSerial
  split
  · rw [exec_bind]
    cases exec (deriveSerial host ctx sys) machine with
    | mk result machine' =>
        cases result with
        | error stop => exact .inl ⟨stop, rfl⟩
        | ok serial =>
            refine .inr (.inr ⟨serial, ?_⟩)
            rw [thenExec_ok, exec_setEach (keyPaths_serial serial)]
  · exact .inr (.inl rfl)

/-- The document the caller is served, before it is rewritten. -/
def dressedSystem (host : Rune ν σ) (system : Text) (order sys : Json ν) : Json ν :=
  writtenEach (systemMembers host system order) (writtenEach (linkMembers system) sys)

theorem ownOrder_eq (sys : Json ν) : ownOrder sys =
    match (sys.get "Boot".toList).bind fun boot => boot.get "BootOrder".toList with
    | some (.array (item :: items)) => .array (item :: items)
    | _ => stubOrder := by
  unfold ownOrder
  have hsplit : "Boot/BootOrder".toList.splitOn '/' = ["Boot".toList, "BootOrder".toList] := by
    decide
  rw [valueAt_of_keys hsplit (by decide) (by decide)]

theorem boot_linked (system : Text) (sys : Json ν) :
    (writtenEach (linkMembers system) sys).get "Boot".toList =
      some (written (.string (systemPath system ++ "/BootOptions".toList))
        ["BootOptions".toList, "@odata.id".toList]
        ((sys.get "Boot".toList).getD (.object []))) := by
  have hsplit : "Boot/BootOptions/@odata.id".toList.splitOn '/' =
      ["Boot".toList, "BootOptions".toList, "@odata.id".toList] := by decide
  -- the members before it are not under `Boot`
  have hfirst : (writtenEach ((linkMembers system).take 2) sys).get "Boot".toList =
      sys.get "Boot".toList := by
    apply get_writtenEach_of_ne
    show ∀ path ∈ ["@Redfish.Settings/@odata.type".toList,
      "@Redfish.Settings/SettingsObject/@odata.id".toList], (path.splitOn '/').head? ≠ _
    decide
  have hlast : writtenEach (linkMembers system) sys =
      written (.string (systemPath system ++ "/BootOptions".toList))
        ("Boot/BootOptions/@odata.id".toList.splitOn '/')
        (writtenEach ((linkMembers system).take 2) sys) := rfl
  rw [hlast, hsplit, get_written, if_pos rfl, ← get_eq_asFields, hfirst]

/-- Neither the serial nor the links are the BMC's order. -/
theorem ownOrder_linked (system : Text) (sys : Json ν) :
    ownOrder (writtenEach (linkMembers system) sys) = ownOrder sys := by
  have hne : "BootOrder".toList ≠ "BootOptions".toList := by decide
  rw [ownOrder_eq, ownOrder_eq, boot_linked, Option.bind_some, get_written, if_neg hne,
    ← get_eq_asFields]
  cases sys.get "Boot".toList <;> rfl

theorem ownOrder_serial (serial : Text) (sys : Json ν) :
    ownOrder (writtenEach [("SerialNumber".toList, .string serial)] sys) = ownOrder sys := by
  rw [ownOrder_eq, ownOrder_eq, get_writtenEach_of_ne]
  show ∀ path ∈ ["SerialNumber".toList], _
  decide

/-- What is dressed has the order of its own that the document had. -/
theorem ownOrder_withSerial {sys serialised : Json ν} {machine : Machine ν σ}
    (h : (exec (withSerial host ctx sys) machine).1 = .ok serialised) :
    ownOrder serialised = ownOrder sys := by
  rcases exec_withSerial sys machine with ⟨stop, hstop⟩ | hsame | ⟨serial, hserial⟩
  · rw [hstop] at h
    cases h
  · rw [hsame] at h
    injection h with h
    rw [h]
  · rw [hserial] at h
    injection h with h
    rw [← h, ownOrder_serial]

theorem fits_withSerial {sys serialised : Json ν} {machine : Machine ν σ}
    (hfits : Json.Fits host.limit sys)
    (h : (exec (withSerial host ctx sys) machine).1 = .ok serialised) :
    Json.Fits host.limit serialised := by
  rcases exec_withSerial sys machine with ⟨stop, hstop⟩ | hsame | ⟨serial, hserial⟩
  · rw [hstop] at h
    cases h
  · rw [hsame] at h
    injection h with h
    rwa [← h]
  · rw [hserial] at h
    injection h with h
    rw [← h]
    refine fits_writtenEach hfits ?_
    simp only [List.forall_mem_cons]
    exact ⟨⟨0, .string _, le_trans (by decide) host.limit_ge⟩, by simp⟩

/-- **A document is dressed with the order of the store**, or with its own. -/
theorem exec_dressSystem {machine : Machine ν σ} (h : Bounded host.serde machine.store)
    {system : Text} (hkey : IsKey (orderKey system)) {sys serialised : Json ν}
    (hserial : (exec (withSerial host ctx sys) machine).1 = .ok serialised) :
    (exec (dressSystem host ctx system sys) machine).1 = .ok (dressedSystem host system
      (((machine.store.entries.lookup (orderKey system)).map host.scriptValue).getD (ownOrder sys))
        serialised) := by
  have hown := ownOrder_withSerial hserial
  have hstore : (exec (withSerial host ctx sys) machine).2.store = machine.store :=
    withSerial_keepsStore sys machine
  unfold dressSystem
  rw [exec_bind]
  cases hrun : exec (withSerial host ctx sys) machine with
  | mk result machine' =>
      rw [hrun] at hserial hstore
      have hresult : result = .ok serialised := hserial
      rw [hresult, thenExec_ok, exec_bind, exec_setEach (keyPaths_linkMembers system), thenExec_ok,
        exec_bind, exec_storeGetOr (by rwa [hstore]) hkey, thenExec_ok,
        exec_setEach (keyPaths_systemMembers system _), ownOrder_linked, hown]
      rw [show machine'.store = machine.store from hstore]
      rfl

/-- It is not, without a serial or a key. -/
theorem exec_dressSystem_error {machine : Machine ν σ} {system : Text} {sys : Json ν}
    (h : (∃ stop, (exec (withSerial host ctx sys) machine).1 = .error stop) ∨
      ¬ IsKey (orderKey system)) :
    ∃ stop, (exec (dressSystem host ctx system sys) machine).1 = .error stop := by
  unfold dressSystem
  rw [exec_bind]
  cases hrun : exec (withSerial host ctx sys) machine with
  | mk result machine' =>
      cases result with
      | error stop => exact ⟨stop, rfl⟩
      | ok serialised =>
          rcases h with ⟨stop, hstop⟩ | hkey
          · rw [hrun] at hstop
            cases hstop
          · obtain ⟨text, htext⟩ := exec_storeGetOr_error hkey
              (ownOrder (writtenEach (linkMembers system) serialised)) machine'
            refine ⟨.error [.display text], ?_⟩
            rw [thenExec_ok, exec_bind, exec_setEach (keyPaths_linkMembers system), thenExec_ok,
              exec_bind, htext]
            rfl

/-! ### The served document -/

theorem get_dressedSystem_boot (system : Text) (order sys : Json ν) :
    (dressedSystem host system order sys).get "Boot".toList =
      some (written order ["BootOrder".toList]
        (((writtenEach (linkMembers system) sys).get "Boot".toList).getD (.object []))) := by
  have hsplit : "Boot/BootOrder".toList.splitOn '/' = ["Boot".toList, "BootOrder".toList] := by
    decide
  have hmembers : systemMembers host system order =
      ("Boot/BootOrder".toList, order) :: (systemMembers host system order).drop 1 := rfl
  unfold dressedSystem
  rw [hmembers, writtenEach_cons, get_writtenEach_of_ne]
  · rw [hsplit, get_written, if_pos rfl, ← get_eq_asFields]
  · show ∀ path ∈ ["SecureBoot/@odata.id".toList, "SerialConsole/MaxConcurrentSessions".toList,
      "SerialConsole/SSH/ServiceEnabled".toList, "SerialConsole/SSH/Port".toList,
      "SerialConsole/IPMI/ServiceEnabled".toList, "SerialConsole/IPMI/Port".toList,
      "Manufacturer".toList, "Model".toList], (path.splitOn '/').head? ≠ _
    decide

/-- The order is where a client looks for it. -/
theorem index_dressedSystem_order (ctx : RequestCtx) (system : Text) (order sys : Json ν) :
    ((served host ctx (dressedSystem host system order sys)).index "Boot".toList).index
      "BootOrder".toList = served host ctx order := by
  unfold Json.index
  rw [get_served, get_dressedSystem_boot, Option.map_some, Option.getD_some, get_served,
    get_written, if_pos rfl]
  rfl

theorem fits_ownOrder {d : Nat} {sys : Json ν} (h : Json.Fits (d + 3) sys) :
    Json.Fits (d + 1) (ownOrder sys) := by
  have hstub : Json.Fits (d + 1) (stubOrder : Json ν) := by
    refine .array ?_
    simp only [List.forall_mem_cons]
    exact ⟨.string _, .string _, by simp⟩
  unfold ownOrder
  split
  · rename_i item items hfound
    have hlength : ("Boot/BootOrder".toList.splitOn '/').length = 2 := by decide
    have hfits := (walk_fits h hfound).2
    rwa [hlength] at hfits
  · exact hstub

theorem fits_ownOrder_limit {sys : Json ν} (h : Json.Fits host.limit sys) :
    Json.Fits (host.limit - 2) (ownOrder sys) := by
  have hlimit := host.limit_ge
  have hdeep : Json.Fits (host.limit - 3 + 3) sys := by
    rwa [show host.limit - 3 + 3 = host.limit by omega]
  have hown := fits_ownOrder hdeep
  rwa [show host.limit - 3 + 1 = host.limit - 2 by omega] at hown

theorem fits_dressedSystem {system : Text} {order sys : Json ν} (h : Json.Fits host.limit sys)
    (horder : Json.Fits (host.limit - 2) order) :
    Json.Fits host.limit (dressedSystem host system order sys) := by
  have hlimit := host.limit_ge
  unfold dressedSystem
  refine fits_writtenEach (fits_writtenEach h ?_) ?_
  · unfold linkMembers
    simp only [List.forall_mem_cons]
    refine ⟨⟨0, .string _, ?_⟩, ⟨0, .string _, ?_⟩, ⟨0, .string _, ?_⟩, by simp⟩
    all_goals exact le_trans (by decide) hlimit
  · unfold systemMembers
    simp only [List.forall_mem_cons]
    refine ⟨⟨host.limit - 2, horder, ?_⟩, ⟨0, .string _, ?_⟩, ⟨0, .number _, ?_⟩, ⟨0, .bool _, ?_⟩,
      ⟨0, .number _, ?_⟩, ⟨0, .bool _, ?_⟩, ⟨0, .number _, ?_⟩, ⟨0, .string _, ?_⟩,
      ⟨0, .string _, ?_⟩, by simp⟩
    · have hlength : ("Boot/BootOrder".toList.splitOn '/').length = 2 := by decide
      rw [hlength]
      omega
    all_goals exact le_trans (by decide) hlimit

theorem readSystem_keepsStore (system : Text) : KeepsStore (readSystem host ctx system) :=
  dressed_keepsStore (dressSystem_keepsStore system)

end Read
end RedfishProxy.Shipped
