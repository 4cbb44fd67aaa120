import RedfishProxy.Shipped.Account
import RedfishProxy.Shipped.BootHistory
import RedfishProxy.Shipped.Facts
import RedfishProxy.Shipped.Serving

/-!
# The parts of the shipped scripts

What the scripts share, question by question: under a licence to send the
request on and to fetch (`Fetches`), with what else a part needs as its
hypothesis. A part says how many calls of the store it leaves of those it is
given.
-/

namespace RedfishProxy.Shipped

open Lib Http Config Script RuneHost ScriptUtil

/-- A licence to send the request on, with its own method, and to fetch. -/
structure Fetches {ν : Type} (ctx : RequestCtx) (licence : Licence ν) : Prop where
  forward : licence.sends (forward ctx)
  own : licence.Dispatches ctx ctx.parts.method.name
  get : licence.Dispatches ctx "GET".toList

theorem method_setPath {request request' : BmcRequest} {value : Text}
    (h : request.setPath value = .ok request') : request'.method = request.method := by
  obtain ⟨_, _, hset⟩ := bind_ok h
  rw [← Except.ok.inj hset]

section Parts

variable {ν σ α : Type} {host : Rune ν σ} {ctx : RequestCtx} {licence : Licence ν}
  {left left' : Left} {calls acts : Nat}

namespace Part

def setEach (members : List (Text × Json ν)) (document : Json ν) :
    Part host ctx licence left left (Shipped.setEach members document : Script ν σ _) :=
  Told.foldlM (fun _ _ => tryResult _) members document

section Fetches

variable (h : Fetches ctx licence)

include h

def forwarded : Part host ctx licence ⟨calls, acts + 1⟩ ⟨calls, acts⟩
    (Shipped.bmc (forwarded host.toHost ctx)) :=
  bmc (Sends.forwarded (goes_act h.forward))

def resolveIds : Part host ctx licence left left (Shipped.bmc (resolveIds host.toHost ctx)) :=
  bmc (Sends.resolveIds (lets_fetch h.get))

def fetch (path : Text) : Part host ctx licence left left
    (Shipped.bmc (subrequest host.toHost ctx "GET".toList path none)) :=
  bmc (Sends.subrequest (lets_fetch h.get))

/-- The request again, at another path. -/
def biosRequest (system : Text) (spelling : String) :
    Part host ctx licence ⟨calls, acts + 1⟩ ⟨calls, acts⟩
      (Shipped.biosRequest host ctx system spelling) :=
  bmc <| Sends.given (serving_le lessAct) _ fun request hpath =>
    Sends.sendForwarded <| by
      rw [method_setPath hpath]
      exact lets_act h.own

def interfaces (path name : Text) : Part host ctx licence left left
    (Shipped.bmc (expandOrEmpty host.toHost ctx path name)) :=
  bmc (Sends.expandOrEmpty (lets_fetch h.get) path name)

/-! The serial number of a system or a chassis. -/

def digestSerial : Part host ctx licence left left (Shipped.digestSerial host ctx) :=
  (resolveIds h).before fun _ => pure _

def deriveSerial (sys : Json ν) :
    Part host ctx licence left left (Shipped.deriveSerial host ctx sys) := by
  unfold Shipped.deriveSerial
  exact match valueAt sys "UUID".toList with
    | some (.string _) => ite (digestSerial h) (pure _)
    | some (.null) | some (.bool _) | some (.number _) | some (.array _) | some (.object _)
    | none => digestSerial h

def withSerial (sys : Json ν) :
    Part host ctx licence left left (Shipped.withSerial host ctx sys) :=
  ite ((deriveSerial h sys).before fun _ => setEach _ _) (pure _)

def namedSerial (sys : Json ν) : Part host ctx licence left left
    (match named (valueAt sys "SerialNumber".toList) with
      | some text => Pure.pure text
      | none =>
        match named (valueAt sys "UUID".toList) with
        | some uuid => Pure.pure (serialOfUuid host uuid)
        | none => Shipped.digestSerial host ctx) :=
  match named (valueAt sys "SerialNumber".toList) with
  | some _ => pure _
  | none =>
    match named (valueAt sys "UUID".toList) with
    | some _ => pure _
    | none => digestSerial h

def chassisSerial : Part host ctx licence left left (Shipped.chassisSerial host ctx) :=
  (resolveIds h).before fun _ => (fetch h _).before fun _ =>
    ite ((tryResult _).before fun sys => namedSerial h sys) (digestSerial h)

def dressChassis (id : Text) (chassis : Json ν) :
    Part host ctx licence left left (Shipped.dressChassis host ctx id chassis) :=
  (chassisSerial h).before fun _ => setEach _ _

def dressSystem (system : Text) (sys : Json ν)
    (hread : ∀ key fallback, licence.calls (.getOr key fallback)) :
    Part host ctx licence ⟨calls + 1, acts⟩ ⟨calls, acts⟩
      (Shipped.dressSystem host ctx system sys) :=
  (withSerial h sys).andThen (fun _ => (setEach _ _).andThen (fun _ =>
    (storeGetOr (hread _ _)).before fun _ => setEach _ _) lessCall) lessCall

end Fetches

/-! ## Boot settings -/

/-- A call of the store for each order. -/
def keepOrders {keep : Json ν → Script ν σ Unit} :
    ∀ orders : List (Json ν), (∀ order ∈ orders, ∀ calls,
      Part host ctx licence ⟨calls + 1, acts⟩ ⟨calls, acts⟩ (keep order)) →
        Part host ctx licence ⟨calls + orders.length, acts⟩ ⟨calls, acts⟩ (orders.forM keep)
  | [], _ => pure _
  | order :: orders, each => andThen (each order List.mem_cons_self _)
      (fun _ => keepOrders orders fun order horder => each order (List.mem_cons_of_mem _ horder))
      (lessCalls _)

/-- Where they are only read, none. -/
def keepNone : ∀ orders : List (Json ν),
    Part host ctx licence left left (orders.forM fun _ => (Pure.pure () : Script ν σ Unit))
  | [] => pure _
  | _ :: orders => before (pure _) fun _ => keepNone orders

/-- The orders are kept first, and then the loop ends as it does. -/
def bootOverrides {keep : Json ν → Script ν σ Unit} (req : ScriptRequest)
    (keeping : Part host ctx licence left left' ((bootWrite host req).orders.forM keep)) :
    Part host ctx licence left left' (Shipped.bootOverrides host keep req) :=
  Told.congr (exec_bootOverrides req) <| keeping.before fun _ => by
    cases (bootWrite host req).ended with
    | ok _ => exact pure _
    | error stop => exact silent (.error stop) fun _ => rfl

/-! ## Settings of the proxy's own -/

/-- Calls that are not made. -/
def stop (value : α) :
    Part host ctx licence ⟨calls + 1, acts⟩ ⟨calls, acts⟩ (Pure.pure value : Script ν σ α) :=
  (pure value).less lessCall

def takeMember (setting : Setting ν) {key : Text}
    (hwrite : ∀ value, licence.calls (.set key value)) : ∀ given : Option (Json ν),
    Part host ctx licence ⟨calls + 1, acts⟩ ⟨calls, acts⟩ (match given with
      | some value =>
        if setting.accepts value then do
          Shipped.storeSet host key value
          Pure.pure true
        else Pure.pure false
      | none => Pure.pure false)
  | some _ => ite ((storeSet (hwrite _)).before fun _ => pure _) (stop _)
  | none => stop _

def takeSetting (setting : Setting ν) {key : Text} (req : ScriptRequest)
    (hwrite : ∀ value, licence.calls (.set key value)) :
    Part host ctx licence ⟨calls + 1, acts⟩ ⟨calls, acts⟩
      (Shipped.takeSetting host setting key req) :=
  ite ((requestJson req).andThen (fun _ => takeMember setting hwrite _)
    lessCall)
    (stop _)

/-! ## What is read of a request or a file -/

def bringsPassword (req : ScriptRequest) :
    Part host ctx licence left left (Shipped.bringsPassword host req) :=
  ite ((requestJson req).before fun _ => pure _) (pure _)

def namesPassword (req : ScriptRequest) :
    Part host ctx licence left left (Shipped.namesPassword host req) :=
  ite ((requestJson req).before fun _ => pure _) (pure _)

/-- The entries of a member that may not be there. -/
def entries {f : List (Json ν) → α} {default : α} : ∀ given : Option (Json ν),
    Part host ctx licence left left (match given with
      | some value => do
        let entries ← Shipped.orStop (entriesOf host value)
        Pure.pure (f entries)
      | none => Pure.pure default : Script ν σ α)
  | some _ => (orStop _).before fun _ => pure _
  | none => pure _

def bareLinks (collection : Json ν) :
    Part host ctx licence left left (Shipped.bareLinks host collection : Script ν σ _) :=
  entries _

def listedDevices (facts : Json ν) :
    Part host ctx licence left left (Shipped.listedDevices host facts : Script ν σ _) := by
  unfold Shipped.listedDevices
  exact match valueAt facts "PCIeDevices".toList with
    | some _ => orStop _
    | none => pure _

def pushDevice (members : List Text) (device : Json ν) :
    Part host ctx licence left left (Shipped.pushDevice host members device : Script ν σ _) := by
  unfold Shipped.pushDevice
  exact match valueAt device "Id".toList with
    | some _ => (orStop _).before fun _ => pure _
    | none => pure _

def findDevice (wanted : Text) : ∀ devices : List (Json ν),
    Part host ctx licence left left (Shipped.findDevice wanted devices : Script ν σ _)
  | [] => pure _
  | _ :: devices => (orStop _).before fun _ => ite (pure _) (findDevice wanted devices)

end Part

/-! ## How a handler ends -/

namespace Rest

def respond (document : Json ν) :
    Rest host ctx licence left (Shipped.respond host ctx document) := rewriteScript _

def accept : Rest host ctx licence left (Shipped.accept host ctx) := finishScript _

/-- Where the first answer does not do, another is asked for. -/
def orAgain {c : Prop} [Decidable c] {again : Script ν σ α}
    {next : α → Script ν σ (Returned ScriptResponse)} (first : α)
    (part : Part host ctx licence left left' again) (hless : left' ≤ left)
    (rest : ∀ value, Rest host ctx licence left' (next value)) :
    Rest host ctx licence left (if c then again >>= next else Pure.pure first >>= next) :=
  ite (after part rest) (after ((Part.pure first).less hless) rest)

def finishOverride (reply : BmcResponse) :
    Rest host ctx licence left (Shipped.finishOverride host ctx reply) :=
  ite (after (.tryResult _) fun _ => rewriteScript _) (finishScript _)

def dressing {dress : Json ν → Script ν σ (Json ν)}
    (part : ∀ document, Part host ctx licence left left' (dress document)) (upstream : Forwarded) :
    Rest host ctx licence left (Shipped.dressing host ctx dress upstream) :=
  ite (rewriteForwarded _) <|
    after (.tryResult _) fun document => after (part document) fun _ => rewriteScript _

section Fetches

variable (h : Fetches ctx licence)

include h

def relay : Rest host ctx licence ⟨calls, acts + 1⟩ (Shipped.relay host ctx) :=
  after (.forwarded h) rewriteForwarded

def dressed {dress : Json ν → Script ν σ (Json ν)}
    (part : ∀ document, Part host ctx licence ⟨calls, acts⟩ left' (dress document)) :
    Rest host ctx licence ⟨calls, acts + 1⟩ (Shipped.dressed host ctx dress) :=
  after (.forwarded h) (dressing part)

def readSystem (system : Text) (hread : ∀ key fallback, licence.calls (.getOr key fallback)) :
    Rest host ctx licence ⟨calls + 1, acts + 1⟩ (Shipped.readSystem host ctx system) :=
  dressed h fun _ => .dressSystem h system _ hread

def readSettings (system : Text) :
    Rest host ctx licence left (Shipped.readSettings host ctx system) :=
  after (.fetch h _) fun _ =>
    after (.ite ((Part.tryResult _).before fun _ => .pure _) (.pure _)) fun _ =>
      after (.setEach _ _) fun _ => rewriteScript _

def readBios (system : Text) :
    Rest host ctx licence ⟨calls, acts + 2⟩ (Shipped.readBios host ctx system) :=
  after (.forwarded h) fun _ => orAgain _ (.biosRequest h _ _) lessAct fun reply =>
    dressing (fun _ => (Part.setEach _ _).before fun _ =>
      (Part.orStop _).before fun _ => .setEach _ _) reply

def writeBios (system : Text) :
    Rest host ctx licence ⟨calls, acts + 2⟩ (Shipped.writeBios host ctx system) :=
  after (.biosRequest h _ _) fun _ => orAgain _ (.biosRequest h _ _) lessAct rewriteForwarded

end Fetches

/-! A write of the boot settings. -/

section Patch

variable (hpatch : licence.Dispatches ctx "PATCH".toList)

include hpatch

def finishBoot (system : Text) (taken : Taken ν) :
    Rest host ctx licence ⟨calls, acts + 1⟩ (Shipped.finishBoot host ctx system taken) :=
  ite (finishScript _) <|
    after (.bmc (Sends.subrequestWith (lets_act hpatch))) finishOverride

def patchSystem (system : Text) (req : ScriptRequest)
    (hwrite : ∀ order, licence.calls (.set (orderKey system) order)) :
    Rest host ctx licence ⟨calls + (bootWrite host req).orders.length, acts + 1⟩
      (Shipped.patchSystem host ctx system req) :=
  after (.bootOverrides req (.keepOrders _ fun _ _ _ => .storeSet (hwrite _))) fun _ =>
    finishBoot hpatch system _

def patchSettings (system : Text) (req : ScriptRequest) :
    Rest host ctx licence ⟨calls, acts + 1⟩ (Shipped.patchSettings host ctx system req) :=
  after (.bootOverrides req (.keepNone _)) fun _ => finishBoot hpatch system _

end Patch

/-! A setting of the proxy's own. -/

def writeSetting (setting : Setting ν) (key : Text) (req : ScriptRequest)
    (hwrite : ∀ value, licence.calls (.set key value)) :
    Rest host ctx licence ⟨calls + 1, acts⟩ (Shipped.writeSetting host ctx setting key req) :=
  after (.takeSetting setting req hwrite) fun _ => ite (finishScript _) (finishScript _)

def readSetting (setting : Setting ν) (key : Text) (document : Json ν → Option (Json ν))
    (hread : ∀ key fallback, licence.calls (.getOr key fallback)) :
    Rest host ctx licence ⟨calls + 1, acts⟩ (Shipped.readSetting host ctx setting key document) :=
  after (.storeGetOr (hread _ _)) fun _ => after (.orStop _) fun _ => rewriteScript _

/-- The rest knows what the path holds. -/
def named : ∀ (value : Option α) {next : α → Script ν σ (Returned ScriptResponse)},
    (∀ found, value = some found → Rest host ctx licence left (next found)) →
      Rest host ctx licence left (Shipped.tryOption value >>= next)
  | some found, _, rest => Told.congr (fun _ => rfl) (rest found rfl)
  | none, _, _ => Told.silent (.error .none) (fun _ => rfl) fun _ hstage => hstage.1.symm

/-- A setting is read and written under its own key. -/
def serveSetting (setting : Setting ν) (key : Text) (document : Json ν → Option (Json ν))
    (req : ScriptRequest) (hread : ∀ key fallback, licence.calls (.getOr key fallback))
    (hwrite : isWrite req = true → ∀ value, licence.calls (.set key value)) :
    Rest host ctx licence ⟨calls + 1, acts⟩
      (Shipped.serveSetting host ctx setting key document req) :=
  if hreq : isWrite req = true then
    Told.congr (fun _ => by rw [Shipped.serveSetting, if_pos hreq])
      (writeSetting setting key req (hwrite hreq))
  else
    Told.congr (fun _ => by rw [Shipped.serveSetting, if_neg hreq])
      (readSetting setting key document hread)

end Rest

/-! ## Handlers -/

namespace Whole

variable (hshows : licence.shows = none)

/-- Nothing but the path is read. -/
def synthesised (document : Text → Json ν) (req : ScriptRequest) :
    Whole host ctx licence left (Shipped.synthesised host document ctx req) :=
  logInbound hshows (.respond _)

def synthesisedMember (document : Text → Text → Json ν) (req : ScriptRequest) :
    Whole host ctx licence left (Shipped.synthesisedMember host document ctx req) :=
  logInbound hshows <| .after (.tryOption _) fun _ => .after (.tryOption _) fun _ => .respond _

end Whole
end Parts

end RedfishProxy.Shipped
