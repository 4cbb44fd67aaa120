import RedfishProxy.Shipped.Documents

/-!
# What is asked of the firmware

`bios_settings.rn`, `bios_sd.rn`, `bios_reset_bios.rn`, `oem_system_reset.rn` and
`update_service.rn`. The first three relay the request to the spelling the BMC
has the resource under; the reset is a request of the proxy's own.
-/

namespace RedfishProxy.Shipped

open Lib Http Script RuneHost ScriptUtil

section Firmware

variable {ν σ : Type} (host : Rune ν σ) (ctx : RequestCtx)

/-! `bios_settings.rn` -/

def biosSettings : Handler ν σ := fun ctx req => do
  logInbound host ctx
  let system ← tryOption (segment req.path 4)
  let reply ← bmc (forwarded host.toHost ctx)
  let reply ← if reply.status = 404 then biosRequest host ctx system "/BIOS/Settings"
    else pure reply
  rewriteForwarded host ctx reply

/-! `bios_reset_bios.rn` -/

def biosResetBios : Handler ν σ := fun ctx req => do
  logInbound host ctx
  let system ← tryOption (segment req.path 4)
  let reply ← biosRequest host ctx system "/BIOS/Actions/Bios.ResetBios"
  rewriteForwarded host ctx reply

/-! `bios_sd.rn` -/

/-- Nothing is pending. -/
def nothingPending (path : Text) : Json ν := .ofFields [
  ("@odata.id".toList, .string path),
  ("@odata.type".toList, .string "#Bios.v1_1_0.Bios".toList),
  ("Id".toList, .string "SD".toList),
  ("Name".toList, .string "BIOS Pending Settings".toList),
  ("Attributes".toList, .ofFields [])]

/-- The attributes are there, or are none. -/
def pendingMembers (pending : Json ν) : List (Text × Json ν) :=
  match valueAt pending "Attributes".toList with
  | some _ => []
  | none => [("Attributes".toList, .ofFields [])]

def readPending (path : Text) (reply : Forwarded) : Script ν σ (Returned ScriptResponse) := do
  if !isSuccess reply.status || !isJson reply.headers then
    respond host ctx (nothingPending path)
  else
    let pending ← tryResult (reply.json host.toHost)
    let pending ← setEach (pendingMembers pending) pending
    respond host ctx pending

def biosSd : Handler ν σ := fun ctx req => do
  logInbound host ctx
  let system ← tryOption (segment req.path 4)
  let reply ← biosRequest host ctx system "/BIOS/Settings"
  if isWrite req then rewriteForwarded host ctx reply
  else readPending host ctx req.path reply

/-! `oem_system_reset.rn` -/

def resetPath (system : Text) : Text :=
  systemPath system ++ "/Actions/ComputerSystem.Reset".toList

def forceRestart : Json ν := .ofFields [("ResetType".toList, .string "ForceRestart".toList)]

def oemSystemReset : Handler ν σ := fun ctx req => do
  logInbound host ctx
  let system ← tryOption (segment req.path 4)
  let reply ← bmc (subrequestWith host.toHost ctx "POST".toList (resetPath system) forceRestart)
  if !isSuccess reply.status then
    finishScript host ctx (jsonResponse host.toHost reply.status (errorDocument
      ("the underlying reset was refused with ".toList ++ decimal reply.status)))
  else accept host ctx

/-! `update_service.rn` -/

def synthesisedService (base : Text) : Json ν := .ofFields [
  ("@odata.id".toList, .string base),
  ("@odata.type".toList, .string "#UpdateService.v1_11_0.UpdateService".toList),
  ("Id".toList, .string "UpdateService".toList),
  ("Name".toList, .string "Update Service".toList),
  ("ServiceEnabled".toList, .bool true)]

def inventoryMembers : List (Text × Json ν) := [
  ("FirmwareInventory/@odata.id".toList,
    .string "/redfish/v1/UpdateService/FirmwareInventory".toList)]

/-- The BMC's own service, or one made up. -/
def ownService (base : Text) (upstream : Forwarded) : Script ν σ (Json ν) :=
  if isSuccess upstream.status && isJson upstream.headers then
    tryResult (upstream.json host.toHost)
  else return synthesisedService base

def updateService : Handler ν σ := fun ctx req => do
  logInbound host ctx
  let upstream ← bmc (forwarded host.toHost ctx)
  let service ← ownService host req.path upstream
  let service ← setEach inventoryMembers service
  respond host ctx service

end Firmware
end RedfishProxy.Shipped
