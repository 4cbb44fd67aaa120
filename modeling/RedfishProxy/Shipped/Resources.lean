import RedfishProxy.Shipped.Systems

/-!
# The resources around the system

`chassis.rn`, `chassis_collection.rn`, `manager.rn`, `service_root.rn` and
`bios.rn`. Each forwards its request and dresses the document that comes back.
-/

namespace RedfishProxy.Shipped

open Lib Http Script RuneHost ScriptUtil

section Handlers

variable {ν σ : Type} (host : Rune ν σ) (ctx : RequestCtx)

/-- A member of a collection, or the collection itself, which is relayed. -/
def memberHandler (dress : RequestCtx → Text → Json ν → Script ν σ (Json ν)) : Handler ν σ :=
  fun ctx req => do
    logInbound host ctx
    let id ← tryOption (segment req.path 4)
    if id.isEmpty then relay host ctx else dressed host ctx (dress ctx id)

/-! `chassis.rn` -/

/-- A text that is more than blanks. -/
def named : Option (Json ν) → Option Text
  | some (.string text) => if (trim text).isEmpty then none else some text
  | _ => none

/-- `derive_serial`: what the system reports, or what `systems.rn` derives. -/
def chassisSerial : Script ν σ Text := do
  let ids ← bmc (resolveIds host.toHost ctx)
  let system ← bmc (subrequest host.toHost ctx "GET".toList (systemPath ids.system) none)
  if isSuccess system.status && isJson system.headers then
    let sys ← tryResult (bodyJson host.toHost system.body "response".toList)
    match named (valueAt sys "SerialNumber".toList) with
    | some text => return text
    | none =>
      match named (valueAt sys "UUID".toList) with
      | some uuid => return serialOfUuid host uuid
      | none => digestSerial host ctx
  else digestSerial host ctx

def chassisMembers (id serial : Text) : List (Text × Json ν) := [
  ("SerialNumber".toList, .string serial),
  ("PCIeDevices/@odata.id".toList,
    .string ("/redfish/v1/Chassis/".toList ++ id ++ "/PCIeDevices".toList)),
  ("Manufacturer".toList, .string "Supermicro".toList)]

def dressChassis (id : Text) (chassis : Json ν) : Script ν σ (Json ν) := do
  let serial ← chassisSerial host ctx
  setEach (chassisMembers id serial) chassis

def chassis : Handler ν σ := memberHandler host (dressChassis host)

/-! `chassis_collection.rn` -/

/-- The identity of an entry, if it has one. -/
def bareLink (entry : Json ν) : Option (Json ν) :=
  (valueAt entry "@odata.id".toList).map fun id => .ofFields [("@odata.id".toList, id)]

/-- What the loop over the members pushes. -/
def bareLinks (collection : Json ν) : Script ν σ (List (Json ν)) :=
  match valueAt collection "Members".toList with
  | some entries => do
    let entries ← orStop (entriesOf host entries)
    return entries.filterMap bareLink
  | none => return []

def dressChassisCollection (collection : Json ν) : Script ν σ (Json ν) := do
  let members ← bareLinks host collection
  setEach [("Members".toList, .array members),
    ("Members@odata.count".toList, .number (host.ofNat members.length))] collection

def chassisCollection : Handler ν σ := fun ctx _ => do
  logInbound host ctx
  dressed host ctx (dressChassisCollection host)

/-! `manager.rn` -/

def managerPath (id : Text) : Text := "/redfish/v1/Managers/".toList ++ id

def managerMembers (id : Text) : List (Text × Json ν) := [
  ("Oem/Supermicro/@odata.type".toList, .string "#Smc.v1_0_0.Manager".toList),
  ("Oem/Supermicro/KCSInterface/@odata.id".toList,
    .string (managerPath id ++ "/Oem/Supermicro/KCSInterface".toList)),
  ("Oem/Supermicro/SysLockdown/@odata.id".toList,
    .string (managerPath id ++ "/Oem/Supermicro/SysLockdown".toList)),
  ("EthernetInterfaces/@odata.id".toList,
    .string (managerPath id ++ "/EthernetInterfaces".toList)),
  ("NetworkProtocol/@odata.id".toList, .string (managerPath id ++ "/NetworkProtocol".toList)),
  ("Manufacturer".toList, .string "Supermicro".toList),
  ("Model".toList, .string "Super Server".toList),
  ("FirmwareVersion".toList, .string "01.05.01".toList)]

def dressManager (id : Text) (manager : Json ν) : Script ν σ (Json ν) :=
  setEach (managerMembers id) manager

def manager : Handler ν σ := memberHandler host fun _ => dressManager

/-! `service_root.rn` -/

def vendorBlock : Json ν := .ofFields [
  ("Supermicro".toList, .ofFields [("@odata.type".toList, .string "#Smc.v1_0_0.Smc".toList)])]

def rootMembers : List (Text × Json ν) := [
  ("Vendor".toList, .string "Supermicro".toList),
  ("Product".toList, .string "Super Server".toList),
  ("Oem".toList, vendorBlock)]

def link (path : String) : Json ν := .ofFields [("@odata.id".toList, .string path.toList)]

/-- The root of a BMC that serves none. -/
def synthesisedRoot : Json ν := .ofFields [
  ("@odata.id".toList, .string "/redfish/v1".toList),
  ("@odata.type".toList, .string "#ServiceRoot.v1_10_0.ServiceRoot".toList),
  ("Id".toList, .string "RootService".toList),
  ("Name".toList, .string "Root Service".toList),
  ("RedfishVersion".toList, .string "1.11.0".toList),
  ("Vendor".toList, .string "Supermicro".toList),
  ("Product".toList, .string "Super Server".toList),
  ("Oem".toList, vendorBlock),
  ("Systems".toList, link "/redfish/v1/Systems"),
  ("Chassis".toList, link "/redfish/v1/Chassis"),
  ("Managers".toList, link "/redfish/v1/Managers"),
  ("UpdateService".toList, link "/redfish/v1/UpdateService"),
  ("SessionService".toList, link "/redfish/v1/SessionService"),
  ("AccountService".toList, link "/redfish/v1/AccountService"),
  ("Links".toList, .ofFields [("Sessions".toList, link "/redfish/v1/SessionService/Sessions")])]

def serviceRoot : Handler ν σ := fun ctx _ => do
  logInbound host ctx
  let upstream ← bmc (forwarded host.toHost ctx)
  if isSuccess upstream.status && isJson upstream.headers then
    let root ← tryResult (upstream.json host.toHost)
    let root ← setEach rootMembers root
    rewriteScript host ctx (jsonResponse host.toHost 200 root)
  else rewriteScript host ctx (jsonResponse host.toHost 200 synthesisedRoot)

/-! `bios.rn` -/

/-- The request again, at the path of the firmware: in capitals, or as the
caller has it. -/
def biosRequest (system : Text) (spelling : String) : Script ν σ Forwarded :=
  bmc do
    let request ← fromResult ((inbound ctx).setPath (systemPath system ++ spelling.toList))
    sendForwarded host.toHost ctx request

def writeBios (system : Text) : Script ν σ (Returned ScriptResponse) := do
  let written ← biosRequest host ctx system "/BIOS/Settings"
  -- Firmware that spells it `Bios` 404s the upper-case path.
  let written ← if written.status = 404 then biosRequest host ctx system "/Bios/Settings"
    else pure written
  rewriteForwarded host ctx written

def biosMembers (id : Text) : List (Text × Json ν) := [
  ("@Redfish.Settings/@odata.type".toList, .string "#Settings.v1_3_5.Settings".toList),
  ("@Redfish.Settings/SettingsObject/@odata.id".toList,
    .string (id ++ "/Settings".toList))]

/-- The TPM attribute is there, or is set. -/
def tpmMembers (bios : Json ν) : List (Text × Json ν) :=
  match valueAt bios "Attributes/SecurityDeviceSupport".toList with
  | some _ => []
  | none => [("Attributes/SecurityDeviceSupport".toList, .string "Enabled".toList)]

def dressBios (system : Text) (bios : Json ν) : Script ν σ (Json ν) := do
  let id := (valueAt bios "@odata.id".toList).getD
    (.string (systemPath system ++ "/Bios".toList))
  let bios ← setEach (tpmMembers bios) bios
  let id ← orStop (host.shown id)
  setEach (biosMembers id) bios

def readBios (system : Text) : Script ν σ (Returned ScriptResponse) := do
  let reply ← bmc (forwarded host.toHost ctx)
  let reply ← if reply.status = 404 then biosRequest host ctx system "/BIOS" else pure reply
  dressing host ctx (dressBios host system) reply

def bios : Handler ν σ := fun ctx req => do
  logInbound host ctx
  let system ← tryOption (segment req.path 4)
  if isWrite req then writeBios host ctx system else readBios host ctx system

end Handlers
end RedfishProxy.Shipped
