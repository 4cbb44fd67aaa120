import RedfishProxy.Shipped.Catalog
import RedfishProxy.Shipped.Parts

/-!
# What the shipped scripts may do

Each of them may send on the request it was given, and fetch; three send requests
of their own besides. Seven write to the store, each under the keys of the
resource it was asked for. A script acts on the BMC once at most, and the two
that know a second spelling of a resource twice.

Main result:
* `ShippedScript.performs`: a shipped script keeps to its licence.
-/

namespace RedfishProxy.Shipped

open Lib Http Config Script RuneHost ScriptUtil

namespace ShippedScript

section Licence

variable {ν σ : Type} (host : Rune ν σ) (ctx : RequestCtx) (req : ScriptRequest)

/-- The methods of the requests a script makes up. -/
def methods : ShippedScript → List Method
  | systems => if req.method = "PATCH".toList then [.GET, .PATCH] else [.GET]
  | systemSettings => if isWrite req then [.GET, .PATCH] else [.GET]
  | oemSystemReset => [.GET, .POST]
  | _ => [.GET]

/-- What a script writes to the store. -/
inductive Writes : ShippedScript → ScriptStore.Op (Json ν) → Prop where
  | order {system : Text} (hmethod : req.method = "PATCH".toList)
      (hsystem : segment req.path 4 = some system) (order : Json ν) :
      Writes systems (.set (orderKey system) order)
  | sysLockdown {manager : Text} (hwrite : isWrite req = true)
      (hmanager : segment req.path 4 = some manager) (value : Json ν) :
      Writes sysLockdown (.set (sysLockdownKey manager) value)
  | kcsInterface {manager : Text} (hwrite : isWrite req = true)
      (hmanager : segment req.path 4 = some manager) (value : Json ν) :
      Writes kcsInterface (.set (kcsInterfaceKey manager) value)
  | hostInterface {manager id : Text} (hwrite : isWrite req = true)
      (hmanager : segment req.path 4 = some manager) (hid : segment req.path 6 = some id)
      (value : Json ν) : Writes hostInterface (.set (hostInterfaceKey manager id) value)
  | secureBoot {system : Text} (hwrite : isWrite req = true)
      (hsystem : segment req.path 4 = some system) (value : Json ν) :
      Writes secureBoot (.set (secureBootKey system) value)
  | password : Writes biosChangePassword (.set uefiKey (.bool true))
  | reset : Writes smcManagerConfigReset (.removePrefix "supermicro/".toList)

/-- What a run of the script may do. -/
def licence (script : ShippedScript) : Licence ν where
  sends outbound := Issued ctx outbound ∧
    (outbound.method = ctx.parts.method ∨ outbound.method ∈ script.methods req)
  calls op := (∃ key fallback, op = .getOr key fallback) ∨ script.Writes req op
  shows := if script = passthrough then renderBody host.fromUtf8 ctx.body else none

/-- How often it may call the store. -/
def storeCalls : ShippedScript → Nat
  | systems => if req.method = "PATCH".toList then (bootWrite host req).orders.length else 1
  | sysLockdown | kcsInterface | hostInterface | secureBoot | biosChangePassword
  | smcManagerConfigReset => 1
  | _ => 0

/-- How often it may act on the BMC, by anything but a fetch. -/
def acts : ShippedScript → Nat
  | bios | biosSettings => 2
  | passthrough | serviceRoot | systems | systemSettings | chassisCollection | chassis | manager
  | updateService | biosResetBios | oemSystemReset | biosSd => 1
  | _ => 0

def left (script : ShippedScript) : Left := ⟨script.storeCalls host req, script.acts⟩

variable {host ctx req}

/-- A method among those of a licence. -/
theorem dispatches_licence {script : ShippedScript} (method : Method)
    (h : method = ctx.parts.method ∨ method ∈ script.methods req) :
    (script.licence host ctx req).Dispatches ctx method.name := by
  intro request hrequest outbound hdispatch
  refine ⟨.inr ⟨request, hdispatch⟩, ?_⟩
  have hparse := (dispatch_eq_ok hdispatch).2.1
  rw [hrequest, Method.parse_name] at hparse
  rw [← Option.some.inj hparse]
  exact h

theorem get_mem_methods (script : ShippedScript) : Method.GET ∈ script.methods req := by
  have hif : ∀ (c : Prop) [Decidable c] (more : List Method),
      Method.GET ∈ if c then Method.GET :: more else [Method.GET] := by
    intro c _ more
    split <;> exact List.mem_cons_self
  cases script <;> first | exact hif _ _ | exact List.mem_cons_self

theorem fetches_licence (script : ShippedScript) : Fetches ctx (script.licence host ctx req) where
  forward := ⟨.inl rfl, .inl rfl⟩
  own := dispatches_licence _ (.inl rfl)
  get := dispatches_licence _ (.inr (get_mem_methods script))

theorem dispatches_post (req : ScriptRequest) :
    (oemSystemReset.licence host ctx req).Dispatches ctx "POST".toList :=
  dispatches_licence .POST (.inr (List.mem_cons_of_mem _ List.mem_cons_self))

theorem dispatches_patchSystem (h : req.method = "PATCH".toList) :
    (systems.licence host ctx req).Dispatches ctx "PATCH".toList :=
  dispatches_licence .PATCH (.inr (by simp [methods, h]))

theorem dispatches_patchSettings (h : isWrite req = true) :
    (systemSettings.licence host ctx req).Dispatches ctx "PATCH".toList :=
  dispatches_licence .PATCH (.inr (by simp [methods, h]))

theorem reads_licence (script : ShippedScript) (key : Text) (fallback : Json ν) :
    (script.licence host ctx req).calls (.getOr key fallback) := .inl ⟨key, fallback, rfl⟩

end Licence

section Performs

variable {ν σ : Type} (host : Rune ν σ) (disk : Disk) (scriptDir : Text) (ctx : RequestCtx)
  (req : ScriptRequest)

/-- A handler under the licence of its script. -/
abbrev Keeps (script : ShippedScript) : Type :=
  Whole host ctx (script.licence host ctx req) (script.left host req)
    (script.handler host disk scriptDir ctx req)

variable {host disk scriptDir ctx req}

/-- A write of a system, or a read of it. -/
def systemsRest (system : Text) (hsystem : segment req.path 4 = some system) :
    Rest host ctx (systems.licence host ctx req) (systems.left host req)
      (if req.method == "PATCH".toList then patchSystem host ctx system req
        else readSystem host ctx system) :=
  if hmethod : req.method = "PATCH".toList then
    Told.congr (fun _ => by rw [if_pos (beq_iff_eq.mpr hmethod)]) <|
      have part : Rest host ctx _ ⟨0 + (bootWrite host req).orders.length, 0 + 1⟩ _ :=
        .patchSystem (dispatches_patchSystem hmethod) system req fun order =>
          .inr (.order hmethod hsystem order)
      part.weaken (serving_le ⟨(Nat.zero_add _).trans (if_pos hmethod).symm |>.le, Nat.le_refl 1⟩)
  else
    Told.congr (fun _ => by rw [if_neg (by simpa using hmethod)]) <|
      have part : Rest host ctx _ ⟨0 + 1, 0 + 1⟩ _ :=
        .readSystem (fetches_licence _) system (reads_licence _)
      part.weaken (serving_le ⟨(if_neg hmethod).symm.le, Nat.le_refl 1⟩)

def settingsRest (system : Text) :
    Rest host ctx (systemSettings.licence host ctx req) (systemSettings.left host req)
      (if isWrite req then patchSettings host ctx system req else readSettings host ctx system) :=
  if hwrite : isWrite req = true then
    Told.congr (fun _ => by rw [if_pos hwrite]) <|
      Rest.patchSettings (dispatches_patchSettings hwrite) system req
  else
    Told.congr (fun _ => by rw [if_neg hwrite]) <|
      Rest.readSettings (fetches_licence _) system

/-- **A shipped script keeps to its licence.** -/
def performs : ∀ script : ShippedScript, Keeps host disk scriptDir ctx req script
  | passthrough =>
    Told.bind (Told.ask (.log (openingRecord ctx (renderBody host.fromUtf8 ctx.body))) .ok
        (fun _ _ => rfl) fun stage hstage => by
          obtain ⟨left, phase⟩ := stage
          obtain ⟨rfl, hleft⟩ := hstage
          exact ⟨_, .opens left, fun _ => ⟨rfl, hleft⟩⟩)
      (fun _ => Rest.relay (fetches_licence _)) fun _ _ hstage => hstage.1.symm
  | serviceRoot => .logInbound rfl <| .after (.forwarded (fetches_licence _)) fun _ =>
      .ite (.after (.tryResult _) fun _ => .after (.setEach _ _) fun _ => .rewriteScript _)
        (.rewriteScript _)
  | systems => .logInbound rfl <| .named _ fun system hsystem =>
      .ite (.relay (fetches_licence _)) (systemsRest system hsystem)
  | systemSettings => .logInbound rfl <| .after (.tryOption _) fun _ => settingsRest _
  | secureBoot => .logInbound rfl <| .named _ fun system hsystem =>
      .serveSetting _ _ _ req (reads_licence _) fun hwrite value =>
        .inr (.secureBoot hwrite hsystem value)
  | bootOptions => .logInbound rfl <| .after (.tryOption _) fun _ => .rewriteScript _
  | bootOption => .logInbound rfl <| .after (.tryOption _) fun _ => .after (.tryOption _) fun _ =>
      .ite (.respond _) <| .after (.interfaces (fetches_licence _) _ _) fun _ => .respond _
  | bootOptionSettings => .logInbound rfl <| .ite .accept <|
      .after (.tryOption _) fun _ => .after (.tryOption _) fun _ => .respond _
  | bios => .logInbound rfl <| .after (.tryOption _) fun _ =>
      .ite (.writeBios (fetches_licence _) _) (.readBios (fetches_licence _) _)
  | biosSettings => .logInbound rfl <| .after (.tryOption _) fun _ =>
      .after (.forwarded (fetches_licence _)) fun _ =>
        .orAgain _ (.biosRequest (fetches_licence _) _ _) lessAct Rest.rewriteForwarded
  | chassisCollection => .logInbound rfl <| .dressed (fetches_licence _) fun _ =>
      .before (.bareLinks _) fun _ => .setEach _ _
  | chassis => .logInbound rfl <| .after (.tryOption _) fun _ =>
      .ite (.relay (fetches_licence _)) <|
        .dressed (fetches_licence _) fun _ => .dressChassis (fetches_licence _) _ _
  | pcieDevices => .logInbound rfl <| .after (.tryResult _) fun _ =>
      .after (.listedDevices _) fun _ =>
        .after (.foldlM (fun _ _ => Part.pushDevice _ _) _ _) fun _ => .respond _
  | pcieDevice => .logInbound rfl <| .after (.tryOption _) fun _ => .after (.tryOption _) fun _ =>
      .after (.tryResult _) fun _ => .after (.listedDevices _) fun _ =>
        .after (.findDevice _ _) fun found => match found with
          | some _ => .after (.setEach _ _) fun _ => .respond _
          | none => .finishScript _
  | manager => .logInbound rfl <| .after (.tryOption _) fun _ =>
      .ite (.relay (fetches_licence _)) <|
        .dressed (fetches_licence _) fun _ => .setEach _ _
  | networkProtocol => .logInbound rfl <| .after (.tryOption _) fun _ => .respond _
  | managerEthernetInterfaces => .synthesised rfl _ _
  | managerEthernetInterface => .logInbound rfl <| .after (.tryOption _) fun _ =>
      .after (.tryOption _) fun _ => .after (.tryResult _) fun _ => .after (.orStop _) fun _ =>
        .ite (.finishScript _) (.respond _)
  | serialInterfaces => .synthesised rfl _ _
  | serialInterface => .synthesisedMember rfl _ _
  | hostInterfaces => .synthesised rfl _ _
  | hostInterface => .logInbound rfl <| .named _ fun manager hmanager => .named _ fun id hid =>
      .serveSetting _ _ _ req (reads_licence _) fun hwrite value =>
        .inr (.hostInterface hwrite hmanager hid value)
  | sysLockdown => .logInbound rfl <| .named _ fun manager hmanager =>
      .serveSetting _ _ _ req (reads_licence _) fun hwrite value =>
        .inr (.sysLockdown hwrite hmanager value)
  | kcsInterface => .logInbound rfl <| .named _ fun manager hmanager =>
      .serveSetting _ _ _ req (reads_licence _) fun hwrite value =>
        .inr (.kcsInterface hwrite hmanager value)
  | updateService => .logInbound rfl <| .after (.forwarded (fetches_licence _)) fun _ =>
      .after (.ite (.tryResult _) (.pure _)) fun _ =>
        .after (.setEach _ _) fun _ => .respond _
  | firmwareInventory => .logInbound rfl <| .after (.setEach _ _) fun _ => .respond _
  | biosChangePassword => .logInbound rfl <| .after (.namesPassword req) fun _ =>
      .ite (.finishScript _) (.after (.storeSet (.inr .password)) fun _ => .finishScript _)
  | biosResetBios => .logInbound rfl <| .after (.tryOption _) fun _ =>
      .after (.biosRequest (fetches_licence _) _ _) Rest.rewriteForwarded
  | oemSystemReset => .logInbound rfl <| .after (.tryOption _) fun _ =>
      .after (.bmc (Sends.subrequestWith (lets_act (dispatches_post req)))) fun _ =>
        .ite (.finishScript _) .accept
  | managerReset => .logInbound rfl .accept
  | smcManagerConfigReset => .logInbound rfl <|
      .after (.storeRemovePrefix (.inr .reset)) fun _ => .finishScript _
  | biosSd => .logInbound rfl <| .after (.tryOption _) fun _ =>
      .after (.biosRequest (fetches_licence _) _ _) fun _ =>
        .ite (.rewriteForwarded _) <| .ite (.respond _) <|
          .after (.tryResult _) fun _ => .after (.setEach _ _) fun _ => .respond _
  | accountService => .logInbound rfl <| .ite .accept (.respond _)
  | accounts => .logInbound rfl <| .after (.tryResult _) fun _ => .after (.orStop _) fun _ =>
      .respond _
  | account => .logInbound rfl <| .after (.tryOption _) fun _ =>
      .ite (.after (.bringsPassword req) fun _ => .ite (.finishScript _) (.finishScript _))
        (.rewriteScript _)
  | emptyCollection => .logInbound rfl <| .after (.tryOption _) fun _ =>
      .after (.setEach _ _) fun _ => .respond _
  | chassisPower => .synthesised rfl _ _

end Performs
end ShippedScript
end RedfishProxy.Shipped
