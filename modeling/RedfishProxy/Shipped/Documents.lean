import RedfishProxy.Shipped.Setting
import RedfishProxy.Shipped.Resources

/-!
# Resources the BMC does not serve

The scripts that make up their document: collections of fixed members, empty
collections, settings nobody keeps, and what the BMC has no resource for. A
document depends on the path of the request, and on nothing else but the network
option of a system, which has an address of the BMC in it.
-/

namespace RedfishProxy.Shipped

open Lib Http Script RuneHost ScriptUtil

section Documents

variable {ν σ : Type} (host : Rune ν σ) (ctx : RequestCtx)

/-- `resp::json(200, document).rewrite()?.log("info", true)`. -/
def respond (document : Json ν) : Script ν σ (Returned ScriptResponse) :=
  rewriteScript host ctx (jsonResponse host.toHost 200 document)

/-- A handler that reads nothing but the path. -/
def synthesised (document : Text → Json ν) : Handler ν σ := fun ctx req => do
  logInbound host ctx
  respond host ctx (document req.path)

/-- And one of a member, by the ids of its parent and its own. -/
def synthesisedMember (document : Text → Text → Json ν) : Handler ν σ := fun ctx req => do
  logInbound host ctx
  let parent ← tryOption (segment req.path 4)
  let id ← tryOption (segment req.path 6)
  respond host ctx (document parent id)

/-! ## Collections -/

def memberLink (base member : Text) : Json ν :=
  .ofFields [("@odata.id".toList, .string (base ++ '/' :: member))]

/-- A collection of these members. -/
def collectionDocument (type name : String) (members : List Text) (base : Text) : Json ν :=
  .ofFields [
    ("@odata.id".toList, .string base),
    ("@odata.type".toList, .string type.toList),
    ("Name".toList, .string name.toList),
    ("Members".toList, .array (members.map (memberLink base))),
    ("Members@odata.count".toList, .number (host.ofNat members.length))]

/-! `host_interfaces.rn` -/

def hostInterfaces : Handler ν σ := synthesised host <|
  collectionDocument host "#HostInterfaceCollection.HostInterfaceCollection"
    "Host Interface Collection" ["Self".toList]

/-! `manager_ethernet_interfaces.rn` -/

def managerEthernetInterfaces : Handler ν σ := synthesised host <|
  collectionDocument host "#EthernetInterfaceCollection.EthernetInterfaceCollection"
    "Ethernet Interface Collection" ["eth0".toList]

/-! `serial_interfaces.rn` -/

def serialInterfaces : Handler ν σ := synthesised host <|
  collectionDocument host "#SerialInterfaceCollection.SerialInterfaceCollection"
    "Serial Interface Collection" ["1".toList]

/-- `util::empty_collection` with a type. -/
def emptyCollectionOf (name : String) (type path : Text) : Script ν σ (Json ν) :=
  setEach [("@odata.type".toList, .string type)]
    (emptyCollectionJson host.toHost path name.toList)

/-! `empty_collection.rn` -/

/-- The type of a collection, by the last segment of its path. -/
def collectionType (name : Text) : Text :=
  '#' :: name ++ "Collection.".toList ++ name ++ "Collection".toList

/-- The arms of the `match`. A kind in the plural is typed in the singular where
it is known. -/
def collectionKind (name : Text) : Text :=
  if name = "Storage".toList then "#StorageCollection.StorageCollection".toList
  else if name = "Memory".toList then "#MemoryCollection.MemoryCollection".toList
  else if name = "LogServices".toList then "#LogServiceCollection.LogServiceCollection".toList
  else if name = "Sensors".toList then "#SensorCollection.SensorCollection".toList
  else if name = "NetworkAdapters".toList then
    "#NetworkAdapterCollection.NetworkAdapterCollection".toList
  else if name = "Tasks".toList then "#TaskCollection.TaskCollection".toList
  else collectionType name

def emptyCollection : Handler ν σ := fun ctx req => do
  logInbound host ctx
  let name ← tryOption (segment req.path (-1))
  let collection ← emptyCollectionOf host "Collection" (collectionKind name) req.path
  respond host ctx collection

/-! `firmware_inventory.rn` -/

def firmwareInventory : Handler ν σ := fun ctx req => do
  logInbound host ctx
  let collection ← emptyCollectionOf host "Firmware Inventory Collection"
    "#SoftwareInventoryCollection.SoftwareInventoryCollection".toList req.path
  respond host ctx collection

/-! ## Fixed documents -/

/-! `chassis_power.rn` -/

def powerDocument (path : Text) : Json ν := .ofFields [
  ("@odata.id".toList, .string path),
  ("@odata.type".toList, .string "#Power.v1_7_1.Power".toList),
  ("Id".toList, .string "Power".toList),
  ("Name".toList, .string "Power".toList),
  ("PowerControl".toList, .array []),
  ("PowerControl@odata.count".toList, .number (host.ofNat 0)),
  ("Voltages".toList, .array []),
  ("Voltages@odata.count".toList, .number (host.ofNat 0)),
  ("PowerSupplies".toList, .array []),
  ("PowerSupplies@odata.count".toList, .number (host.ofNat 0))]

def chassisPower : Handler ν σ := synthesised host (powerDocument host)

/-! `network_protocol.rn` -/

def networkProtocolDocument (manager : Text) : Json ν := .ofFields [
  ("@odata.id".toList, .string (managerPath manager ++ "/NetworkProtocol".toList)),
  ("@odata.type".toList, .string "#ManagerNetworkProtocol.v1_5_0.ManagerNetworkProtocol".toList),
  ("Id".toList, .string "NetworkProtocol".toList),
  ("Name".toList, .string "Manager Network Protocol".toList),
  ("IPMI".toList, .ofFields [
    ("ProtocolEnabled".toList, .bool true), ("Port".toList, .number (host.ofNat 623))])]

def networkProtocol : Handler ν σ := fun ctx req => do
  logInbound host ctx
  let manager ← tryOption (segment req.path 4)
  respond host ctx (networkProtocolDocument host manager)

/-! `serial_interface.rn` -/

def serialInterfaceDocument (manager id : Text) : Json ν := .ofFields [
  ("@odata.id".toList, .string (managerPath manager ++ "/SerialInterfaces/".toList ++ id)),
  ("@odata.type".toList, .string "#SerialInterface.v1_1_0.SerialInterface".toList),
  ("Id".toList, .string id),
  ("Name".toList, .string "Serial Interface".toList),
  ("InterfaceEnabled".toList, .bool true),
  ("SignalType".toList, .string "Rs232".toList),
  ("BitRate".toList, .string "115200".toList),
  ("Parity".toList, .string "None".toList),
  ("DataBits".toList, .string "8".toList),
  ("StopBits".toList, .string "1".toList),
  ("FlowControl".toList, .string "None".toList),
  ("ConnectorType".toList, .string "RJ45".toList),
  ("PinOut".toList, .string "Cyclades".toList)]

def serialInterface : Handler ν σ := synthesisedMember host serialInterfaceDocument

/-! ## Writes that are accepted and dropped -/

/-- `resp::status(204).log("info", true)`. -/
def accept : Script ν σ (Returned ScriptResponse) := finishScript host ctx (statusResponse 204)

/-! `manager_reset.rn` -/

def managerReset : Handler ν σ := fun ctx _ => do
  logInbound host ctx
  accept host ctx

/-! `account_service.rn` -/

def accountServiceDocument : Json ν := .ofFields [
  ("@odata.id".toList, .string "/redfish/v1/AccountService".toList),
  ("@odata.type".toList, .string "#AccountService.v1_5_0.AccountService".toList),
  ("Id".toList, .string "AccountService".toList),
  ("Name".toList, .string "Account Service".toList),
  ("ServiceEnabled".toList, .bool true),
  ("AccountLockoutThreshold".toList, .number (host.ofNat 0)),
  ("AccountLockoutDuration".toList, .number (host.ofNat 0)),
  ("AccountLockoutCounterResetAfter".toList, .number (host.ofNat 0)),
  ("Accounts".toList, link "/redfish/v1/AccountService/Accounts"),
  ("Status".toList, .ofFields [
    ("State".toList, .string "Enabled".toList), ("Health".toList, .string "OK".toList)])]

def accountService : Handler ν σ := fun ctx req => do
  logInbound host ctx
  if isWrite req then accept host ctx
  else respond host ctx (accountServiceDocument host)

/-! ## Boot options -/

/-- Where the settings of an option are. -/
def optionSettings (base : Text) : Json ν := .ofFields [
  ("@odata.type".toList, .string "#Settings.v1_3_5.Settings".toList),
  ("SettingsObject".toList, .ofFields [
    ("@odata.id".toList, .string (base ++ "/Settings".toList))])]

/-- What the documents of the options differ in. -/
def optionDocument (base option display device : Text) : Json ν := .ofFields [
  ("@odata.id".toList, .string base),
  ("@odata.type".toList, .string "#BootOption.v1_0_4.BootOption".toList),
  ("Id".toList, .string option),
  ("Name".toList, .string "Boot Option".toList),
  ("BootOptionReference".toList, .string option),
  ("DisplayName".toList, .string display),
  ("BootOptionEnabled".toList, .bool true),
  ("UefiDevicePath".toList, .string device),
  ("@Redfish.Settings".toList, optionSettings base)]

/-! `boot_option.rn` -/

/-- The address of the first interface, or one that matches none. -/
def bootAddress (interfaces : Json ν) : Text :=
  match valueAt interfaces "Members/0/MACAddress".toList with
  | some (.string value) => host.toUppercase value
  | _ => "00:00:00:00:00:00".toList

def diskOption (base option : Text) : Json ν := optionDocument base option
  "UEFI Hard Disk".toList "PciRoot(0x0)/Pci(0x2,0x0)/Sata(0x0,0xFFFF,0x0)".toList

def networkOption (base option colons : Text) : Json ν :=
  let mac := colons.filter (· != ':')
  optionDocument base option
    ("UEFI HTTP IPv4 Nvidia Network Adapter - ".toList ++ colons ++ " (MAC:".toList ++ mac ++
      ")".toList)
    ("PciRoot(0x0)/Pci(0x2,0x0)/MAC(".toList ++ mac ++
      ",0x1)/IPv4(0.0.0.0,0x0,DHCP,0.0.0.0,0.0.0.0,0.0.0.0)/Uri()".toList)

def bootOption : Handler ν σ := fun ctx req => do
  logInbound host ctx
  let system ← tryOption (segment req.path 4)
  let option ← tryOption (segment req.path 6)
  let base := systemPath system ++ "/BootOptions/".toList ++ option
  if option = "Boot0001".toList then respond host ctx (diskOption base option)
  else
    let interfaces ← bmc (expandOrEmpty host.toHost ctx
      (systemPath system ++ "/EthernetInterfaces".toList) "Ethernet Interface Collection".toList)
    respond host ctx (networkOption base option (bootAddress host interfaces))

/-! `boot_option_settings.rn` -/

def optionSettingsDocument (system option : Text) : Json ν := .ofFields [
  ("@odata.id".toList, .string
    (systemPath system ++ "/BootOptions/".toList ++ option ++ "/Settings".toList)),
  ("@odata.type".toList, .string "#BootOption.v1_0_4.BootOption".toList),
  ("Id".toList, .string "Settings".toList),
  ("Name".toList, .string "Boot Option Settings".toList),
  ("BootOptionReference".toList, .string option),
  ("BootOptionEnabled".toList, .bool true)]

def bootOptionSettings : Handler ν σ := fun ctx req => do
  logInbound host ctx
  if isWrite req then accept host ctx
  else
    let system ← tryOption (segment req.path 4)
    let option ← tryOption (segment req.path 6)
    respond host ctx (optionSettingsDocument system option)

end Documents
end RedfishProxy.Shipped
