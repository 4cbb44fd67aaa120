import RedfishProxy.Script.Files
import RedfishProxy.Shipped.Documents

/-!
# Resources a file has the facts of

`accounts.rn`, `manager_ethernet_interface.rn`, `pcie_devices.rn` and
`pcie_device.rn` read `supermicro/facts.json`, as it stands beside the scripts
when the request is served.
-/

namespace RedfishProxy.Shipped

open Lib Http Script RuneHost ScriptUtil

section Facts

variable {ν σ : Type} (host : Rune ν σ) (disk : Disk) (scriptDir : Text)

def factsFile : Text := "supermicro/facts.json".toList

/-- `util::read_json_file("supermicro/facts.json")?`. -/
def readFacts : Script ν σ (Json ν) :=
  tryResult (readJsonFile host.toHost disk scriptDir factsFile)

/-- A comparison with a text, which stops the machine for any other value. -/
def equalsText (value : Json ν) (text : Text) : Script ν σ Bool :=
  orStop (value.asStr.map fun found => found == text)

/-! `accounts.rn` -/

def accountsDocument (base user : Text) : Json ν :=
  collectionDocument host "#ManagerAccountCollection.ManagerAccountCollection"
    "Accounts Collection" [user] base

def accounts : Handler ν σ := fun ctx req => do
  logInbound host ctx
  let facts ← readFacts host disk scriptDir
  let user := (valueAt facts "BmcUsername".toList).getD (.string "admin".toList)
  let user ← orStop (host.shown user)
  respond host ctx (accountsDocument host req.path user)

/-! `manager_ethernet_interface.rn` -/

def ethernetDocument (manager id : Text) (mac : Json ν) : Json ν := .ofFields [
  ("@odata.id".toList, .string (managerPath manager ++ "/EthernetInterfaces/".toList ++ id)),
  ("@odata.type".toList, .string "#EthernetInterface.v1_6_0.EthernetInterface".toList),
  ("Id".toList, .string id),
  ("Name".toList, .string "Manager Ethernet Interface".toList),
  ("InterfaceEnabled".toList, .bool true),
  ("LinkStatus".toList, .string "LinkUp".toList),
  ("MACAddress".toList, mac),
  ("PermanentMACAddress".toList, mac),
  ("Status".toList, .ofFields [
    ("State".toList, .string "Enabled".toList), ("Health".toList, .string "OK".toList)])]

def managerEthernetInterface : Handler ν σ := fun ctx req => do
  logInbound host ctx
  let manager ← tryOption (segment req.path 4)
  let id ← tryOption (segment req.path 6)
  let facts ← readFacts host disk scriptDir
  let mac := (valueAt facts "BmcMacAddress".toList).getD (.string [])
  if ← equalsText mac [] then
    finishScript host ctx (jsonResponse host.toHost 500
      (errorDocument "supermicro/facts.json has no BmcMacAddress".toList))
  else respond host ctx (ethernetDocument manager id mac)

/-! `pcie_devices.rn` -/

/-- The devices the file lists, if it has any. -/
def listedDevices (facts : Json ν) : Script ν σ (List (Json ν)) :=
  match valueAt facts "PCIeDevices".toList with
  | some devices => orStop (entriesOf host devices)
  | none => return []

/-- One turn of the loop. A template shows the id, and not any value can be. -/
def pushDevice (members : List Text) (device : Json ν) : Script ν σ (List Text) :=
  match valueAt device "Id".toList with
  | some id => do
    let id ← orStop (host.shown id)
    return members ++ [id]
  | none => return members

def devicesDocument (base : Text) (members : List Text) : Json ν :=
  collectionDocument host "#PCIeDeviceCollection.PCIeDeviceCollection"
    "PCIe Device Collection" members base

def pcieDevices : Handler ν σ := fun ctx req => do
  logInbound host ctx
  let facts ← readFacts host disk scriptDir
  let devices ← listedDevices host facts
  let members ← devices.foldlM (pushDevice host) []
  respond host ctx (devicesDocument host req.path members)

/-! `pcie_device.rn` -/

/-- The loop, which returns from the handler at the first device of that id. -/
def findDevice (wanted : Text) : List (Json ν) → Script ν σ (Option (Json ν))
  | [] => return none
  | device :: devices => do
    let id := (valueAt device "Id".toList).getD (.string [])
    if ← equalsText id wanted then return some device
    else findDevice wanted devices

def devicePath (chassis wanted : Text) : Text :=
  "/redfish/v1/Chassis/".toList ++ chassis ++ "/PCIeDevices/".toList ++ wanted

def deviceMembers (chassis wanted : Text) : List (Text × Json ν) := [
  ("@odata.id".toList, .string (devicePath chassis wanted)),
  ("@odata.type".toList, .string "#PCIeDevice.v1_9_0.PCIeDevice".toList)]

def missingDevice (wanted : Text) : Json ν :=
  errorDocument ("no PCIe device ".toList ++ wanted ++ " in supermicro/facts.json".toList)

def pcieDevice : Handler ν σ := fun ctx req => do
  logInbound host ctx
  let chassis ← tryOption (segment req.path 4)
  let wanted ← tryOption (segment req.path 6)
  let facts ← readFacts host disk scriptDir
  let devices ← listedDevices host facts
  match ← findDevice wanted devices with
  | some device =>
    let out ← setEach (deviceMembers chassis wanted) device
    respond host ctx out
  | none => finishScript host ctx (jsonResponse host.toHost 404 (missingDevice wanted))

end Facts
end RedfishProxy.Shipped
