import RedfishProxy.Script.Fixed
import RedfishProxy.Shipped.BootOrder
import RedfishProxy.Shipped.Resources

/-!
# One serial for the chassis and the system

`chassis.rn` asks the system for its serial, and where it has none derives one;
`systems.rn` dresses the system with one derived in the same stages. The two are
the same function of what the system is served as.

Main results:
* `exec_chassisSerial`, `exec_withSerial_serialOf`: what each of them comes to.
* `serials_agree`: the serials that are served.
-/

namespace RedfishProxy.Shipped

open Lib Http Script RuneHost ScriptUtil
open ScriptStore (IsKey Store)

/-- A request for a member of a collection. -/
structure ForMember (id : Text) (arrival : Arrival) : Prop where
  path : segment arrival.parts.uri.path 4 = some id
  named : id ≠ []

section Serial

variable {ν σ : Type} (host : Rune ν σ) (target : SocketAddrV4) (base : Base)

/-- The serial, or else the UUID, or else the digest. -/
def serialOf (ids : Ids) (sys : Json ν) : Text :=
  match named (valueAt sys "SerialNumber".toList) with
  | some text => text
  | none =>
    match named (valueAt sys "UUID".toList) with
    | some uuid => serialOfUuid host uuid
    | none => host.toUppercase (host.sha256 (target.display ++ ids.manager))

/-- The response to a request for a chassis, and the machine it leaves. -/
def serveChassis (arrival : Arrival) (store : Store (Json ν)) (net : σ) :
    Response × Machine ν σ :=
  serve host (chassis host) target base arrival store net

/-- The `SerialNumber` of the document that is served. -/
structure ServesSerial (response : Response) (serial : Json ν) : Prop where
  status : response.status = 200
  document : ∃ document, Shows host response document ∧
    document.get "SerialNumber".toList = some serial

variable {host target base} {ctx : RequestCtx}

/-! ## What is derived -/

theorem named_string (text : Text) : named (some (.string text : Json ν)) =
    if (trim text).isEmpty then none else some text := rfl

theorem isBlank_eq (value : Option (Json ν)) : isBlank value = (named value).isNone := by
  cases value with
  | none => rfl
  | some value =>
      cases value with
      | string text =>
          rw [named_string, isBlank]
          cases (trim text).isEmpty <;> rfl
      | _ => rfl

theorem deriveSerial_eq (sys : Json ν) : deriveSerial host ctx sys =
    match named (valueAt sys "UUID".toList) with
    | some uuid => pure (serialOfUuid host uuid)
    | none => digestSerial host ctx := by
  unfold deriveSerial
  cases valueAt sys "UUID".toList with
  | none => rfl
  | some value =>
      cases value with
      | string uuid =>
          simp only [named_string]
          split <;> rfl
      | _ => rfl

/-- The digest is of the ids of the request. -/
theorem exec_digestSerial {machine : Machine ν σ} {ids : Ids} {world : World σ}
    (hids : exec (resolveIds host.toHost ctx) machine.world = (.ok ids, world)) :
    exec (digestSerial host ctx) machine =
      (.ok (host.toUppercase (host.sha256 (ctx.target.display ++ ids.manager))),
        { machine with world }) := by
  unfold digestSerial
  rw [exec_bind, exec_bmc, hids]
  rfl

/-- **What `systems.rn` dresses a document with.** -/
theorem exec_withSerial_serialOf {machine : Machine ν σ} {ids : Ids} {world : World σ}
    (hids : exec (resolveIds host.toHost ctx) machine.world = (.ok ids, world)) (sys : Json ν) :
    ∃ serialised, (exec (withSerial host ctx sys) machine).1 = .ok serialised ∧
      serialised.get "SerialNumber".toList = some (.string (serialOf host ctx.target ids sys)) := by
  have hsplit : "SerialNumber".toList.splitOn '/' = ["SerialNumber".toList] := by decide
  unfold withSerial serialOf
  rw [isBlank_eq]
  cases hnamed : named (valueAt sys "SerialNumber".toList) with
  | some text =>
      refine ⟨sys, rfl, ?_⟩
      rw [← valueAt_of_key hsplit (by decide)]
      unfold named at hnamed
      split at hnamed
      · rename_i serial hvalue
        split at hnamed
        · cases hnamed
        · injection hnamed with hnamed
          rw [hvalue, hnamed]
      · cases hnamed
  | none =>
      have hderive : ∃ machine', exec (deriveSerial host ctx sys) machine =
          (.ok (match named (valueAt sys "UUID".toList) with
            | some uuid => serialOfUuid host uuid
            | none => host.toUppercase (host.sha256 (ctx.target.display ++ ids.manager))),
            machine') := by
        rw [deriveSerial_eq]
        cases named (valueAt sys "UUID".toList) with
        | some uuid => exact ⟨machine, rfl⟩
        | none => exact ⟨_, exec_digestSerial hids⟩
      obtain ⟨machine', hderive⟩ := hderive
      simp only [Option.isNone_none, if_true]
      rw [exec_bind, hderive, thenExec_ok, exec_setEach (keyPaths_serial _)]
      refine ⟨_, rfl, ?_⟩
      rw [writtenEach_cons, hsplit]
      exact (get_written ..).trans (if_pos rfl)

/-- **And what `chassis.rn` derives.** -/
theorem exec_chassisSerial {machine : Machine ν σ} {ids : Ids} {world : World σ}
    (hfresh : machine.world.ids = none)
    (hids : exec (resolveIds host.toHost ctx) machine.world = (.ok ids, world))
    {current : BmcResponse} (hcurrent : systemReply host ctx ids.system world.net = .ok current)
    (hok : isSuccess current.status = true) (hjson : isJson current.headers = true)
    {sys : Json ν} (hread : host.scriptFromSlice current.body = .ok sys) :
    (exec (chassisSerial host ctx) machine).1 = .ok (serialOf host ctx.target ids sys) := by
  have hcached : (world.after host.toHost (systemOutbound ctx ids.system)).ids = some ids :=
    (system_of_resolveIds hfresh hids).1
  unfold chassisSerial serialOf
  rw [exec_bind, exec_bmc, hids]
  show (thenExec _ (Except.ok ids, { machine with world })).1 = _
  rw [thenExec_ok, exec_bind, exec_getSystem, hcurrent]
  show (thenExec _ (Except.ok current,
    ({ machine with world := world.after host.toHost (systemOutbound ctx ids.system) } :
      Machine ν σ))).1 = _
  rw [thenExec_ok, hok, hjson]
  simp only [Bool.and_self, if_true]
  rw [exec_bind, bodyJson_of_scriptFromSlice hread, exec_tryResult_ok, thenExec_ok]
  cases named (valueAt sys "SerialNumber".toList) with
  | some text => rfl
  | none =>
      simp only
      cases named (valueAt sys "UUID".toList) with
      | some uuid => rfl
      | none => exact congrArg Prod.fst (exec_digestSerial (exec_resolveIds_some hcached))

/-! ## What is served -/

theorem get_dressedSystem_serial (system : Text) (order sys : Json ν) :
    (dressedSystem host system order sys).get "SerialNumber".toList =
      sys.get "SerialNumber".toList := by
  unfold dressedSystem
  rw [get_writtenEach_of_ne, get_writtenEach_of_ne]
  · show ∀ path ∈ ["@Redfish.Settings/@odata.type".toList,
      "@Redfish.Settings/SettingsObject/@odata.id".toList, "Boot/BootOptions/@odata.id".toList],
      (path.splitOn '/').head? ≠ _
    decide
  · show ∀ path ∈ ["Boot/BootOrder".toList, "SecureBoot/@odata.id".toList,
      "SerialConsole/MaxConcurrentSessions".toList, "SerialConsole/SSH/ServiceEnabled".toList,
      "SerialConsole/SSH/Port".toList, "SerialConsole/IPMI/ServiceEnabled".toList,
      "SerialConsole/IPMI/Port".toList, "Manufacturer".toList, "Model".toList],
      (path.splitOn '/').head? ≠ _
    decide

theorem get_chassis_serial (id serial : Text) (chassis : Json ν) :
    (writtenEach (chassisMembers id serial) chassis).get "SerialNumber".toList =
      some (.string serial) := by
  have hsplit : "SerialNumber".toList.splitOn '/' = ["SerialNumber".toList] := by decide
  unfold chassisMembers
  rw [writtenEach_cons, get_writtenEach_of_ne, hsplit]
  · exact (get_written ..).trans (if_pos rfl)
  · show ∀ path ∈ ["PCIeDevices/@odata.id".toList, "Manufacturer".toList],
      (path.splitOn '/').head? ≠ _
    decide

theorem keyPaths_chassisMembers (id serial : Text) :
    ∀ path ∈ (chassisMembers (ν := ν) id serial).map Prod.fst, IsKeyPath path := by
  show ∀ path ∈ ["SerialNumber".toList, "PCIeDevices/@odata.id".toList, "Manufacturer".toList],
    IsKeyPath path
  decide

theorem fits_chassisMembers {chassis : Json ν} (h : Json.Fits host.limit chassis)
    (id serial : Text) :
    Json.Fits host.limit (writtenEach (chassisMembers id serial) chassis) := by
  have hlimit := host.limit_ge
  refine fits_writtenEach h ?_
  unfold chassisMembers
  simp only [List.forall_mem_cons]
  refine ⟨⟨0, .string _, ?_⟩, ⟨0, .string _, ?_⟩, ⟨0, .string _, ?_⟩, by simp⟩
  all_goals exact le_trans (by decide) hlimit

/-- A request for a member is served by what dresses it. -/
theorem serve_member {dress : RequestCtx → Text → Json ν → Script ν σ (Json ν)} {id : Text}
    {arrival : Arrival} (h : ForMember id arrival) (store : Store (Json ν)) (net : σ) :
    serve host (memberHandler host dress) target base arrival store net =
      let ctx := arrival.ctx target base
      let run := exec (dressed host ctx (dress ctx id)) (opened ctx store net)
      (answer host ctx run.1, run.2) := by
  have hrun : exec (memberHandler host dress (arrival.ctx target base)
      (scriptRequest arrival.parts arrival.body)) (start store net) =
        exec (dressed host (arrival.ctx target base) (dress (arrival.ctx target base) id))
          (opened (arrival.ctx target base) store net) := by
    unfold memberHandler
    rw [exec_opened]
    show exec (tryOption (segment arrival.parts.uri.path 4) >>= _) _ = _
    rw [h.path, exec_bind, exec_tryOption_some, thenExec_ok, if_neg (by simpa using h.named)]
  unfold serve
  simp only
  rw [show requestCtx target base arrival.parts arrival.body = arrival.ctx target base from rfl, hrun]

/-- **A chassis is served with the serial that is derived.** -/
theorem chassis_shows {id : Text} {arrival : Arrival} (h : ForMember id arrival)
    (store : Store (Json ν)) {net : σ} {document : Json ν} {serial : Text}
    (hdocument : Documents host (arrival.ctx target base) net document)
    (hserial : (exec (chassisSerial host (arrival.ctx target base))
      ((opened (arrival.ctx target base) store net).forwarded host (arrival.ctx target base))).1 =
        .ok serial) :
    (serveChassis host target base arrival store net).1.status = 200 ∧
      Shows host (serveChassis host target base arrival store net).1
        (served host (arrival.ctx target base)
          (writtenEach (chassisMembers id serial) document)) := by
  unfold serveChassis chassis
  rw [serve_member h]
  generalize arrival.ctx target base = ctx at hdocument hserial ⊢
  have hdress : (exec (dressChassis host ctx id document)
      ((opened ctx store net).forwarded host ctx)).1 =
        .ok (writtenEach (chassisMembers id serial) document) := by
    unfold dressChassis
    rw [exec_bind]
    cases hrun : exec (chassisSerial host ctx) ((opened ctx store net).forwarded host ctx) with
    | mk result machine =>
        rw [hrun] at hserial
        have hresult : result = .ok serial := hserial
        rw [hresult, thenExec_ok, exec_setEach (keyPaths_chassisMembers id serial)]
  have hopened : Documents host ctx (opened ctx store net).world.net document := hdocument
  obtain ⟨response, hrun, hcarries⟩ := answer_dressed hopened hdress
    (fits_chassisMembers hdocument.fits id serial)
  simp only [hrun]
  exact ⟨hcarries.status, hcarries.shows⟩

/-! ## The system of the BMC -/

theorem notMem_lastSegment {link id : Text} (h : lastSegment link = some id) :
    '/' ∉ id ∧ id ≠ [] := by
  unfold lastSegment at h
  simp only at h
  split at h
  · cases h
  · rename_i hne
    injection h with h
    rw [← h]
    refine ⟨?_, by simpa using hne⟩
    intro hmem
    have hkept := List.mem_rtakeWhile_imp hmem
    simp at hkept

theorem notMem_memberIds {collection : Json ν} {id : Text} (h : id ∈ memberIds collection) :
    '/' ∉ id ∧ id ≠ [] := by
  unfold memberIds at h
  split at h
  · cases h
  · obtain ⟨member, _, hid⟩ := List.mem_filterMap.mp h
    obtain ⟨link, _, hlink⟩ := Option.bind_eq_some_iff.mp hid
    exact notMem_lastSegment hlink

theorem segment_systemPath {id : Text} (h : '/' ∉ id) : segment (systemPath id) 4 = some id := by
  have hfront : "/redfish/v1/Systems".toList.splitOn '/' =
      [[], "redfish".toList, "v1".toList, "Systems".toList] := by decide
  unfold ScriptUtil.segment
  rw [systemPath_eq, List.splitOn_append_cons_self, hfront, List.splitOn_eq_singleton h]
  rfl

theorem byteLen_orderKey (id : Text) : (orderKey id).byteLen = id.byteLen + 21 := by
  have hfront : Text.byteLen "supermicro/".toList = 11 := by decide
  have hlast : Text.byteLen "/BootOrder".toList = 10 := by decide
  unfold orderKey
  rw [Text.byteLen_append, Text.byteLen_append, hfront, hlast]
  omega

/-- An id that leaves room for the rest of the key. -/
theorem isKey_orderKey {id : Text} (h : id.byteLen ≤ 235) : IsKey (orderKey id) := by
  have hlength := byteLen_orderKey id
  constructor
  · omega
  · show _ ≤ 256
    omega

/-- A `GET` of the system with no query. -/
structure GetsSystem (id : Text) (arrival : Arrival) : Prop where
  method : arrival.parts.method = .GET
  path : arrival.parts.uri.path = systemPath id
  query : arrival.parts.uri.query = none

/-- The document of a resource: a success, declared JSON, whole, that parses, as a
script has it. -/
def IsDocument (host : Rune ν σ) (answer : Except TransportError Reply) (document : Json ν) : Prop :=
  ∃ reply bytes, answer = .ok reply ∧ isSuccess reply.status = true ∧
    isJson reply.headers = true ∧ reply.body = .ok bytes ∧
      host.scriptFromSlice bytes = .ok document

/-- A request of this BMC resolves the ids. -/
def Resolves (host : Rune ν σ) (target : SocketAddrV4) (ids : Ids) : Prop :=
  ∃ (ctx : RequestCtx) (net : σ) (world : World σ), ctx.target = target ∧
    exec (resolveIds host.toHost ctx) { ids := none, net } = (.ok ids, world)

section Fixed

variable {answers : Method → Text → Except TransportError Reply} {ids : Ids} {sys : Json ν}

/-- And so does any other. -/
theorem Resolves.exec (hresolves : Resolves host target ids) (hfixed : Fixed host.toHost answers)
    (htarget : ctx.target = target) {world : World σ} (hfresh : world.ids = none) :
    ∃ after, Lib.exec (resolveIds host.toHost ctx) world = (.ok ids, after) := by
  obtain ⟨ctx₀, net, after₀, htarget₀, hids⟩ := hresolves
  have hsame : ctx₀.target = ctx.target := htarget₀.trans htarget.symm
  obtain ⟨hresult, _⟩ := resolveIds_alike hfixed hsame { ids := none, net } world hfresh.symm
  rw [hids] at hresult
  cases hrun : Lib.exec (resolveIds host.toHost ctx) world with
  | mk result after =>
      rw [hrun] at hresult
      exact ⟨after, by rw [show result = .ok ids from hresult.symm]⟩

theorem Resolves.notMem (hresolves : Resolves host target ids) :
    '/' ∉ ids.system ∧ ids.system ≠ [] := by
  obtain ⟨ctx, net, after, _, hids⟩ := hresolves
  obtain ⟨collection, hmem⟩ := (system_of_resolveIds rfl hids).2
  exact notMem_memberIds hmem

/-- The serial of a chassis is that of the system. -/
theorem chassis_serves_serial (hfixed : Fixed host.toHost answers)
    (hresolves : Resolves host target ids)
    (hsystem : IsDocument host (answers .GET (urlTo target (systemPath ids.system))) sys)
    {id : Text} {arrival : Arrival} (h : ForMember id arrival) {net : σ} {document : Json ν}
    (hdocument : Documents host (arrival.ctx target base) net document)
    (store : Store (Json ν)) :
    ServesSerial host (serveChassis host target base arrival store net).1
      (served host (arrival.ctx target base) (.string (serialOf host target ids sys))) := by
  obtain ⟨reply, bytes, hreply, hok, hjson, hbody, hread⟩ := hsystem
  obtain ⟨after, hrun⟩ := hresolves.exec hfixed
    (show (arrival.ctx target base).target = target from rfl)
    (show ((opened (arrival.ctx target base) store net).forwarded host
      (arrival.ctx target base)).world.ids = none from rfl)
  have hasked : (host.client (systemOutbound (arrival.ctx target base) ids.system) after.net).1 =
      .ok reply := (hfixed _ _).trans hreply
  have hjson' : isJson (copyEndToEnd reply.headers .new) = true := by
    rw [isJson_copyEndToEnd, hjson]
  have hserial := exec_chassisSerial rfl hrun (systemReply_ok hasked hbody) hok hjson' hread
  obtain ⟨hstatus, hshows⟩ := chassis_shows h store hdocument hserial
  refine ⟨hstatus, _, hshows, ?_⟩
  rw [get_served, get_chassis_serial]
  rfl

/-- And the system is served with it, whatever the store has. -/
theorem system_serves_serial (hfixed : Fixed host.toHost answers) {history : History ν}
    (hhistory : IsHistory host target base history) (hresolves : Resolves host target ids)
    (hlength : ids.system.byteLen ≤ 235)
    (hsystem : IsDocument host (answers .GET (urlTo target (systemPath ids.system))) sys)
    {arrival : Arrival} (h : GetsSystem ids.system arrival) (net : σ) :
    ServesSerial host (serveSystem host target base arrival (storeOf host history) net).1
      (served host (arrival.ctx target base) (.string (serialOf host target ids sys))) := by
  obtain ⟨hslash, hnamed⟩ := hresolves.notMem
  have hreads : ReadsSystem ids.system arrival := by
    refine ⟨⟨?_, hnamed⟩, ?_⟩
    · rw [h.path, segment_systemPath hslash]
    · rw [h.method]
      decide
  have hdocument : Documents host (arrival.ctx target base) net sys := by
    have hurl : (forward (arrival.ctx target base)).url = urlTo target (systemPath ids.system) := by
      show urlTo target (pathAndQuery arrival.parts.uri) = _
      unfold pathAndQuery
      rw [h.query, h.path]
    have hmethod : (forward (arrival.ctx target base)).method = .GET := h.method
    constructor
    rw [hfixed, hurl, hmethod]
    exact hsystem
  obtain ⟨after, hrun⟩ := hresolves.exec hfixed
    (show (arrival.ctx target base).target = target from rfl)
    (show ((opened (arrival.ctx target base) (storeOf host history) net).forwarded host
      (arrival.ctx target base)).world.ids = none from rfl)
  obtain ⟨serialised, hserial, hget⟩ := exec_withSerial_serialOf hrun sys
  obtain ⟨hstatus, hshows⟩ := system_shows hreads (storeOf_bounded history)
    (fun _ horder => fits_stored hhistory horder) hdocument hserial (isKey_orderKey hlength)
  refine ⟨hstatus, _, hshows, ?_⟩
  rw [get_served, get_dressedSystem_serial, hget]
  rfl

/-- **The chassis and the system report one serial**, where the id of the system
leaves room in a key of the store. -/
theorem serials_agree (hfixed : Fixed host.toHost answers) {history : History ν}
    (hhistory : IsHistory host target base history) (hresolves : Resolves host target ids)
    (hlength : ids.system.byteLen ≤ 235)
    (hsystem : IsDocument host (answers .GET (urlTo target (systemPath ids.system))) sys)
    {id : Text} {arrival arrival' : Arrival} (hmember : ForMember id arrival)
    (hget : GetsSystem ids.system arrival') {net : σ} {document : Json ν}
    (hdocument : Documents host (arrival.ctx target base) net document)
    (store : Store (Json ν)) (net' : σ) :
    ∃ serial, ServesSerial host (serveChassis host target base arrival store net).1 serial ∧
      ServesSerial host
        (serveSystem host target base arrival' (storeOf host history) net').1 serial :=
  ⟨_, chassis_serves_serial hfixed hresolves hsystem hmember hdocument store,
    system_serves_serial hfixed hhistory hresolves hlength hsystem hget net'⟩

end Fixed
end Serial

/-! ## A BMC with one system -/

/-- A collection of one system, which has no serial of its own. -/
def memberBody (id : Text) : Json Nat := .object [("Members".toList,
  .array [.object [("@odata.id".toList, .string (systemPath id))]])]

theorem fits_memberBody (id : Text) : Json.Fits serdeLimit (memberBody id) := by
  have hfits : Json.Fits 3 (memberBody id) :=
    ((Json.Fits.string _).one_field _).one_item.one_field _
  exact hfits.mono (by unfold serdeLimit; omega)

theorem memberIds_memberBody {id : Text} (hslash : '/' ∉ id) (hne : id ≠ []) :
    memberIds (memberBody id) = [id] := by
  have hmembers : ((memberBody id).index "Members".toList).asArray =
      some [.object [("@odata.id".toList, .string (systemPath id))]] := rfl
  have hlink : ((Json.object [("@odata.id".toList, .string (systemPath id))] : Json Nat).index
      "@odata.id".toList).asStr.bind lastSegment = some id := by
    show lastSegment (systemPath id) = some id
    rw [systemPath_eq]
    exact lastSegment_append _ hslash hne
  unfold memberIds
  rw [hmembers]
  simp only
  rw [List.filterMap_cons, hlink]
  rfl

theorem fixed_documentHost (document : Json Nat) :
    Fixed (documentHost document).toHost fun _ _ => .ok (documentReply document) :=
  fun _ _ => rfl

theorem exec_getJson_documentHost {document : Json Nat} (h : Json.Fits serdeLimit document)
    (ctx : RequestCtx) {path : Text} (hpath : requireAbsolute path = .ok ()) (world : World Unit) :
    exec (getJson (documentHost document).toHost ctx path) world = (.ok document, world) := by
  have hget : exec (subrequest (documentHost document).toHost ctx "GET".toList path none) world =
      (.ok ⟨200, copyEndToEnd (documentReply document).headers .new, writeBody document⟩, world) :=
    exec_subrequest (documentHost document).toHost world hpath .GET none
  unfold getJson
  rw [exec_bind, hget, thenExec_ok, fromSlice_documentHost h]
  rfl

/-- The one system is its own manager too, for want of another. -/
theorem resolves_memberBody {id : Text} (hslash : '/' ∉ id) (hne : id ≠ []) (ctx : RequestCtx) :
    exec (resolveIds (documentHost (memberBody id)).toHost ctx) { ids := none, net := () } =
      (.ok ⟨id, id⟩, { ids := some ⟨id, id⟩, net := () }) := by
  have hfits := fits_memberBody id
  have hids := memberIds_memberBody hslash hne
  have hpreferred : ([id].find? (· == "System_0".toList)).or [id].head? = some id := by
    rw [List.find?_singleton]
    split <;> rfl
  have hothers : [id].filter (· != id) = [] := by simp
  have hbios : exec (findBios (documentHost (memberBody id)).toHost ctx [id])
      { ids := none, net := () } = (.ok none, { ids := none, net := () }) := by
    have hfetch : exec (attempt (getJson (documentHost (memberBody id)).toHost ctx
        ("/redfish/v1/Systems/".toList ++ id))) { ids := none, net := () } =
          (.ok (.ok (memberBody id)), { ids := none, net := () }) := by
      rw [exec_attempt, exec_getJson_documentHost hfits ctx (requireAbsolute_system id)]
    unfold findBios
    rw [exec_bind, hfetch]
    rfl
  have hget : exec (ExceptT.lift get : Action Unit (World Unit)) { ids := none, net := () } =
    (.ok { ids := none, net := () }, { ids := none, net := () }) := rfl
  unfold resolveIds
  rw [exec_bind, hget, thenExec_ok]
  simp only
  rw [exec_bind, exec_getJson_documentHost hfits ctx rfl, thenExec_ok, hids, hpreferred]
  simp only [hothers]
  rw [exec_bind, hbios, thenExec_ok]
  simp only [Option.bind_none]
  rw [exec_bind, exec_getJson_documentHost hfits ctx rfl, thenExec_ok, hids]
  rfl

/-- A request for a chassis. -/
def chassisOne : Arrival where
  parts := {
    method := .GET
    uri := { path := "/redfish/v1/Chassis/1".toList, query := none }
    headers := .new }
  body := []

theorem forMember_chassisOne : ForMember "1".toList chassisOne := ⟨rfl, by decide⟩

/-- A request for a system, whatever its id. -/
def getSystem (id : Text) : Arrival where
  parts := {
    method := .GET
    uri := { path := systemPath id, query := none }
    headers := .new }
  body := []

/-- One more than there is room for in a key. -/
def longId : Text := List.replicate 236 'a'

theorem notMem_longId : '/' ∉ longId ∧ longId ≠ [] := by
  refine ⟨?_, List.cons_ne_nil _ _⟩
  intro hmem
  exact absurd (List.eq_of_mem_replicate hmem) (by decide)

theorem byteLen_replicate (n : Nat) : Text.byteLen (List.replicate n 'a') = n := by
  induction n with
  | zero => rfl
  | succ n ih =>
      have hsize : Char.utf8Size 'a' = 1 := by decide
      rw [List.replicate_succ, Text.byteLen_cons, ih, hsize]
      omega

theorem not_isKey_longId : ¬ IsKey (orderKey longId) := by
  have hlength : (orderKey longId).byteLen = 236 + 21 := by
    rw [byteLen_orderKey, longId, byteLen_replicate]
  intro h
  have hle : (orderKey longId).byteLen ≤ 256 := h.2
  omega

theorem isDocument_documentHost {document : Json Nat} (h : Json.Fits serdeLimit document) :
    IsDocument (documentHost document) (.ok (documentReply document)) document :=
  ⟨documentReply document, _, rfl, rfl, isJson_typeHeader, rfl, fromSlice_documentHost h⟩

/-- **With an id that long the system is not served**, and the chassis is. -/
theorem long_id_serves_no_serial :
    let host := documentHost (memberBody longId)
    let ctx := chassisOne.ctx bmcTarget proxyBase
    Fixed host.toHost (fun _ _ => .ok (documentReply (memberBody longId))) ∧
      Resolves host bmcTarget ⟨longId, longId⟩ ∧
      IsDocument host (.ok (documentReply (memberBody longId))) (memberBody longId) ∧
      Documents host ctx () (memberBody longId) ∧ ForMember "1".toList chassisOne ∧
      GetsSystem longId (getSystem longId) ∧
      ¬ ∃ serial,
        ServesSerial host
          (serveChassis host bmcTarget proxyBase chassisOne ScriptStore.new ()).1 serial ∧
        ServesSerial host
          (serveSystem host bmcTarget proxyBase (getSystem longId) ScriptStore.new ()).1 serial := by
  intro host ctx
  have hdocument : ∀ ctx, Documents host ctx () (memberBody longId) :=
    documents_documentHost (fits_memberBody longId)
  refine ⟨fixed_documentHost _, ?_, isDocument_documentHost (fits_memberBody longId), hdocument ctx,
    forMember_chassisOne, ⟨rfl, rfl, rfl⟩, ?_⟩
  · exact ⟨ctx, (), _, rfl, resolves_memberBody notMem_longId.1 notMem_longId.2 ctx⟩
  · intro h
    obtain ⟨serial, _, hsystem⟩ := h
    have hreads : ReadsSystem longId (getSystem longId) :=
      ⟨⟨segment_systemPath notMem_longId.1, notMem_longId.2⟩, by decide⟩
    have hstatus := hsystem.status
    rw [system_unserved hreads (hdocument _) (.inr not_isKey_longId)] at hstatus
    cases hstatus

/-- With a short one, both serve the digest. -/
theorem serials_agree_one : ∃ serial,
    ServesSerial (documentHost (memberBody systemOne))
      (serveChassis (documentHost (memberBody systemOne)) bmcTarget proxyBase chassisOne
        ScriptStore.new ()).1 serial ∧
    ServesSerial (documentHost (memberBody systemOne))
      (serveSystem (documentHost (memberBody systemOne)) bmcTarget proxyBase
        (getSystem systemOne) (storeOf (documentHost (memberBody systemOne)) []) ()).1 serial := by
  have hslash : '/' ∉ systemOne ∧ systemOne ≠ [] := by decide
  have hdocument := documents_documentHost (fits_memberBody systemOne)
    (chassisOne.ctx bmcTarget proxyBase)
  exact serials_agree (fixed_documentHost _) (fun _ h => absurd h (by simp))
    ⟨_, (), _, rfl, resolves_memberBody hslash.1 hslash.2 (chassisOne.ctx bmcTarget proxyBase)⟩
    (by decide) (isDocument_documentHost (fits_memberBody systemOne)) forMember_chassisOne ⟨rfl, rfl, rfl⟩ hdocument ScriptStore.new ()

end RedfishProxy.Shipped
