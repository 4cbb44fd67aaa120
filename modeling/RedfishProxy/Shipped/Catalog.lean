import RedfishProxy.RuneHost.Reload
import RedfishProxy.Shipped.Account
import RedfishProxy.Shipped.BootHistory
import RedfishProxy.Shipped.Facts
import RedfishProxy.Shipped.Firmware
import RedfishProxy.Shipped.Passthrough

/-!
# The shipped scripts and their routes

Every script of the repository under the name it is compiled under, and the
table of `config.toml` that says which of them serves which path.

Main result:
* `unitFor_file`: a script is found under its own name.
-/

namespace RedfishProxy.Shipped

open Lib Http Config Script RuneHost

inductive ShippedScript where
  | passthrough
  | serviceRoot
  | systems
  | systemSettings
  | secureBoot
  | bootOptions
  | bootOption
  | bootOptionSettings
  | bios
  | biosSettings
  | chassisCollection
  | chassis
  | pcieDevices
  | pcieDevice
  | manager
  | networkProtocol
  | managerEthernetInterfaces
  | managerEthernetInterface
  | serialInterfaces
  | serialInterface
  | hostInterfaces
  | hostInterface
  | sysLockdown
  | kcsInterface
  | updateService
  | firmwareInventory
  | biosChangePassword
  | biosResetBios
  | oemSystemReset
  | managerReset
  | smcManagerConfigReset
  | biosSd
  | accountService
  | accounts
  | account
  | emptyCollection
  | chassisPower
  deriving DecidableEq

namespace ShippedScript

/-- The path of the file in the script directory. -/
def file : ShippedScript → Text
  | passthrough => "passthrough.rn".toList
  | serviceRoot => "supermicro/service_root.rn".toList
  | systems => "supermicro/systems.rn".toList
  | systemSettings => "supermicro/system_settings.rn".toList
  | secureBoot => "supermicro/secure_boot.rn".toList
  | bootOptions => "supermicro/boot_options.rn".toList
  | bootOption => "supermicro/boot_option.rn".toList
  | bootOptionSettings => "supermicro/boot_option_settings.rn".toList
  | bios => "supermicro/bios.rn".toList
  | biosSettings => "supermicro/bios_settings.rn".toList
  | chassisCollection => "supermicro/chassis_collection.rn".toList
  | chassis => "supermicro/chassis.rn".toList
  | pcieDevices => "supermicro/pcie_devices.rn".toList
  | pcieDevice => "supermicro/pcie_device.rn".toList
  | manager => "supermicro/manager.rn".toList
  | networkProtocol => "supermicro/network_protocol.rn".toList
  | managerEthernetInterfaces => "supermicro/manager_ethernet_interfaces.rn".toList
  | managerEthernetInterface => "supermicro/manager_ethernet_interface.rn".toList
  | serialInterfaces => "supermicro/serial_interfaces.rn".toList
  | serialInterface => "supermicro/serial_interface.rn".toList
  | hostInterfaces => "supermicro/host_interfaces.rn".toList
  | hostInterface => "supermicro/host_interface.rn".toList
  | sysLockdown => "supermicro/sys_lockdown.rn".toList
  | kcsInterface => "supermicro/kcs_interface.rn".toList
  | updateService => "supermicro/update_service.rn".toList
  | firmwareInventory => "supermicro/firmware_inventory.rn".toList
  | biosChangePassword => "supermicro/bios_change_password.rn".toList
  | biosResetBios => "supermicro/bios_reset_bios.rn".toList
  | oemSystemReset => "supermicro/oem_system_reset.rn".toList
  | managerReset => "supermicro/manager_reset.rn".toList
  | smcManagerConfigReset => "supermicro/smc_manager_config_reset.rn".toList
  | biosSd => "supermicro/bios_sd.rn".toList
  | accountService => "supermicro/account_service.rn".toList
  | accounts => "supermicro/accounts.rn".toList
  | account => "supermicro/account.rn".toList
  | emptyCollection => "supermicro/empty_collection.rn".toList
  | chassisPower => "supermicro/chassis_power.rn".toList

section Handler

variable {ν σ : Type} (host : Rune ν σ) (disk : Disk) (scriptDir : Text)

/-- What the script exposes as `handle`. -/
def handler : ShippedScript → Handler ν σ
  | passthrough => Shipped.passthrough host
  | serviceRoot => Shipped.serviceRoot host
  | systems => Shipped.systems host
  | systemSettings => Shipped.systemSettings host
  | secureBoot => Shipped.secureBoot host
  | bootOptions => Shipped.bootOptions host
  | bootOption => Shipped.bootOption host
  | bootOptionSettings => Shipped.bootOptionSettings host
  | bios => Shipped.bios host
  | biosSettings => Shipped.biosSettings host
  | chassisCollection => Shipped.chassisCollection host
  | chassis => Shipped.chassis host
  | pcieDevices => Shipped.pcieDevices host disk scriptDir
  | pcieDevice => Shipped.pcieDevice host disk scriptDir
  | manager => Shipped.manager host
  | networkProtocol => Shipped.networkProtocol host
  | managerEthernetInterfaces => Shipped.managerEthernetInterfaces host
  | managerEthernetInterface => Shipped.managerEthernetInterface host disk scriptDir
  | serialInterfaces => Shipped.serialInterfaces host
  | serialInterface => Shipped.serialInterface host
  | hostInterfaces => Shipped.hostInterfaces host
  | hostInterface => Shipped.hostInterface host
  | sysLockdown => Shipped.sysLockdown host
  | kcsInterface => Shipped.kcsInterface host
  | updateService => Shipped.updateService host
  | firmwareInventory => Shipped.firmwareInventory host
  | biosChangePassword => Shipped.biosChangePassword host
  | biosResetBios => Shipped.biosResetBios host
  | oemSystemReset => Shipped.oemSystemReset host
  | managerReset => Shipped.managerReset host
  | smcManagerConfigReset => Shipped.smcManagerConfigReset host
  | biosSd => Shipped.biosSd host
  | accountService => Shipped.accountService host
  | accounts => Shipped.accounts host disk scriptDir
  | account => Shipped.account host
  | emptyCollection => Shipped.emptyCollection host
  | chassisPower => Shipped.chassisPower host

end Handler

def all : List ShippedScript := [
  passthrough, serviceRoot, systems, systemSettings, secureBoot, bootOptions, bootOption,
  bootOptionSettings, bios, biosSettings, chassisCollection, chassis, pcieDevices, pcieDevice,
  manager, networkProtocol, managerEthernetInterfaces, managerEthernetInterface, serialInterfaces,
  serialInterface, hostInterfaces, hostInterface, sysLockdown, kcsInterface, updateService,
  firmwareInventory, biosChangePassword, biosResetBios, oemSystemReset, managerReset,
  smcManagerConfigReset, biosSd, accountService, accounts, account, emptyCollection, chassisPower]

end ShippedScript

/-- The units of the directory as it is shipped. -/
def shippedScripts : Scripts ShippedScript where
  units := (ShippedScript.all.map fun script =>
    (⟨components script.file, script⟩ : Sigma fun _ : List Text => ShippedScript)).toAList

/-! ## The table -/

/-- A `[[route]]` without a method list. -/
def route (path : String) (script : ShippedScript) : RouteConfig where
  method := []
  path := path.toList
  script := script.file

/-- The routes of `config.toml`, in its order. -/
def shippedTable : List (String × ShippedScript) := [
  ("/redfish/v1", .serviceRoot),
  ("/redfish/v1/", .serviceRoot),
  ("/redfish/v1/Systems/*", .systems),
  ("/redfish/v1/Systems/*/", .systems),
  ("/redfish/v1/Systems/*/Settings", .systemSettings),
  ("/redfish/v1/Systems/*/SecureBoot", .secureBoot),
  ("/redfish/v1/Systems/*/BootOptions", .bootOptions),
  ("/redfish/v1/Systems/*/BootOptions/*", .bootOption),
  ("/redfish/v1/Systems/*/BootOptions/*/Settings", .bootOptionSettings),
  ("/redfish/v1/Systems/*/Bios", .bios),
  ("/redfish/v1/Systems/*/Bios/Settings", .biosSettings),
  -- Before `Chassis/*`, which ties on prefix length and loses on order.
  ("/redfish/v1/Chassis", .chassisCollection),
  ("/redfish/v1/Chassis/", .chassisCollection),
  ("/redfish/v1/Chassis/*", .chassis),
  ("/redfish/v1/Chassis/*/", .chassis),
  ("/redfish/v1/Chassis/*/PCIeDevices", .pcieDevices),
  ("/redfish/v1/Chassis/*/PCIeDevices/*", .pcieDevice),
  ("/redfish/v1/Managers/*", .manager),
  ("/redfish/v1/Managers/*/", .manager),
  ("/redfish/v1/Managers/*/NetworkProtocol", .networkProtocol),
  ("/redfish/v1/Managers/*/EthernetInterfaces", .managerEthernetInterfaces),
  ("/redfish/v1/Managers/*/EthernetInterfaces/*", .managerEthernetInterface),
  ("/redfish/v1/Managers/*/SerialInterfaces", .serialInterfaces),
  ("/redfish/v1/Managers/*/SerialInterfaces/*", .serialInterface),
  ("/redfish/v1/Managers/*/HostInterfaces", .hostInterfaces),
  ("/redfish/v1/Managers/*/HostInterfaces/*", .hostInterface),
  ("/redfish/v1/Managers/*/Oem/Supermicro/SysLockdown", .sysLockdown),
  ("/redfish/v1/Managers/*/Oem/Supermicro/KCSInterface", .kcsInterface),
  ("/redfish/v1/UpdateService", .updateService),
  ("/redfish/v1/UpdateService/FirmwareInventory", .firmwareInventory),
  ("/redfish/v1/Systems/*/Bios/Actions/Bios.ChangePassword", .biosChangePassword),
  ("/redfish/v1/Systems/*/Bios/Actions/Bios.ResetBios", .biosResetBios),
  ("/redfish/v1/Systems/*/Actions/Oem/OemSystemExtensions.Reset", .oemSystemReset),
  ("/redfish/v1/Managers/*/Actions/Manager.Reset", .managerReset),
  ("/redfish/v1/Managers/*/Actions/Manager.ResetToDefaults", .managerReset),
  ("/redfish/v1/Managers/*/Actions/Oem/SmcManagerConfig.Reset", .smcManagerConfigReset),
  ("/redfish/v1/Systems/*/Bios/SD", .biosSd),
  ("/redfish/v1/AccountService", .accountService),
  ("/redfish/v1/AccountService/Accounts", .accounts),
  ("/redfish/v1/AccountService/Accounts/*", .account),
  ("/redfish/v1/Systems/*/Storage", .emptyCollection),
  ("/redfish/v1/Systems/*/Memory", .emptyCollection),
  ("/redfish/v1/Systems/*/LogServices", .emptyCollection),
  ("/redfish/v1/Chassis/*/Sensors", .emptyCollection),
  ("/redfish/v1/Chassis/*/NetworkAdapters", .emptyCollection),
  ("/redfish/v1/TaskService/Tasks", .emptyCollection),
  ("/redfish/v1/Chassis/*/Power", .chassisPower)]

def shippedRoutes : List RouteConfig :=
  shippedTable.map fun entry => route entry.1 entry.2

/-- What `config.toml` says of the scripts. -/
def shippedConfig : ScriptConfig where
  scriptDir := "/etc/programmable-redfish-proxy/scripts".toList
  defaultScript := ShippedScript.passthrough.file
  route := shippedRoutes

theorem unitFor_all : ∀ script ∈ ShippedScript.all,
    shippedScripts.unitFor script.file = some script := by
  decide +kernel

/-- A script is found under its own name. -/
theorem unitFor_file (script : ShippedScript) :
    shippedScripts.unitFor script.file = some script :=
  unitFor_all script (by cases script <;> decide)

end RedfishProxy.Shipped
