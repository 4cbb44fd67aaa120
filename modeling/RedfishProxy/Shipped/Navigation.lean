import RedfishProxy.Lib.Alike
import RedfishProxy.Shipped.Listings
import RedfishProxy.Shipped.Settings

/-!
# From a collection to its members

What a client finds that follows the links of a collection the proxy makes up:
the script of the members serves each of them under the path it was listed with.
For the devices of a chassis and the accounts this depends on a file, of which
`GoodFacts` says what it needs.

Main result:
* `navigable`: a collection lists some ids, and each of them leads to a resource.
-/

namespace RedfishProxy.Shipped

open Lib Http Config Script RuneHost ScriptUtil
open PathGlob (globMatches eq_of_globMatches)

/-! ## What is served -/

section Serves

variable {ν σ : Type} (host : Rune ν σ) (disk : Disk) (scriptDir : Text) (target : SocketAddrV4)
  (base : Base)

/-- A `GET` of the path is served by the script, with such a document. -/
def Serves (script : ShippedScript) (path : Text) (holds : Json ν → Prop) : Prop :=
  ∀ arrival : Arrival, arrival.parts.method = .GET → arrival.parts.uri.path = path →
    ∀ (store : ScriptStore.Store (Json ν)) (net : σ),
      let response :=
        (serve host (script.handler host disk scriptDir) target base arrival store net).1
      response.status = 200 ∧ ∃ document, Shows host response document ∧ holds document

/-- The links of a collection. -/
def linksOf (document : Json ν) : List Text :=
  match (document.index "Members".toList).asArray with
  | none => []
  | some members => members.filterMap fun member => (member.index "@odata.id".toList).asStr

/-- It lists these ids. -/
def Lists (path : Text) (ids : List Text) (document : Json ν) : Prop :=
  linksOf document = ids.map (under path)

/-- It is the resource of the path. -/
def IsResource (path : Text) (document : Json ν) : Prop :=
  document.get "@odata.id".toList = some (.string path)

/-- What the collections need of `facts.json`: an address, and names without a
slash. -/
structure GoodFacts (facts : Json ν) : Prop where
  address : ∃ mac, mac ≠ [] ∧ valueAt facts "BmcMacAddress".toList = some (.string mac)
  user : ∀ value, valueAt facts "BmcUsername".toList = some value →
    ∃ user, value = .string user ∧ '/' ∉ user
  devices : ∀ value, valueAt facts "PCIeDevices".toList = some value →
    ∃ devices, entriesOf host value = some devices ∧ ∀ device ∈ devices, ∀ id,
      valueAt device "Id".toList = some id → ∃ text, id = .string text ∧ '/' ∉ text

variable {host disk scriptDir target base} {listing : Listing} {path : Text}

/-- A handler that comes to a document. -/
theorem serves_of_exec {script : ShippedScript} {holds : Json ν → Prop}
    (h : ∀ arrival : Arrival, arrival.parts.method = .GET → arrival.parts.uri.path = path →
      ∀ (store : ScriptStore.Store (Json ν)) (net : σ),
        ∃ (document : Json ν) (machine : Machine ν σ), Json.Fits host.limit document ∧
          holds (served host (arrival.ctx target base) document) ∧
          exec (script.handler host disk scriptDir (arrival.ctx target base)
              (scriptRequest arrival.parts arrival.body)) (start store net) =
            exec (respond host (arrival.ctx target base) document) machine) :
    Serves host disk scriptDir target base script path holds := by
  intro arrival hget hpath store net
  obtain ⟨document, machine, hfits, hholds, hexec⟩ := h arrival hget hpath store net
  obtain ⟨response, record, hrun, hcarries⟩ :=
    exec_rewriteScript host (arrival.ctx target base) machine hfits 200
  rw [respond, hrun] at hexec
  show (answer host (arrival.ctx target base) _).status = 200 ∧ _
  unfold serve
  simp only
  rw [show requestCtx target base arrival.parts arrival.body = arrival.ctx target base from rfl,
    hexec]
  exact ⟨hcarries.status, _, hcarries.shows, hholds⟩

/-- The path of the document is read as it was written. -/
theorem isResource_served {ctx : RequestCtx} {document : Json ν}
    (hplain : containsSep path = false)
    (h : document.get "@odata.id".toList = some (.string path)) :
    IsResource path (served host ctx document) := by
  unfold IsResource
  rw [get_served, h, Option.map_some, served_plain host ctx hplain]

theorem lists_served {ctx : RequestCtx} {document : Json ν} {ids : List Text}
    (hplain : ∀ id ∈ ids, containsSep (under path id) = false)
    (h : document.get "Members".toList = some (.array (ids.map (memberLink path)))) :
    Lists path ids (served host ctx document) := by
  have hlink : ∀ id ∈ ids, ((served host ctx (memberLink path id)).index "@odata.id".toList).asStr =
      some (under path id) := by
    intro id hid
    have hget : (memberLink path id : Json ν).get "@odata.id".toList =
        some (.string (under path id)) := by
      unfold memberLink
      rw [Json.get_ofFields]
      rfl
    unfold Json.index
    rw [get_served, hget, Option.map_some, served_plain host ctx (hplain id hid)]
    rfl
  unfold Lists linksOf
  rw [Json.index, get_served, h, Option.map_some, Option.getD_some, served_array]
  show List.filterMap _ _ = _
  rw [List.map_map, List.filterMap_map, ← List.filterMap_eq_map]
  exact List.filterMap_congr hlink

theorem fits_memberLink (path id : Text) : Json.Fits 1 (memberLink path id : Json ν) := by
  apply Json.fits_ofFields
  simp only [List.forall_mem_cons]
  exact ⟨.string _, by simp⟩

theorem fits_collectionDocument (type name : String) (ids : List Text) (path : Text) :
    Json.Fits host.limit (collectionDocument host type name ids path) := by
  have hdocument : Json.Fits 3 (collectionDocument host type name ids path) := by
    apply Json.fits_ofFields
    simp only [List.forall_mem_cons]
    exact ⟨.string _, .string _, .string _,
      .array (List.forall_mem_map.mpr fun id _ => fits_memberLink path id), .number _, by simp⟩
  exact hdocument.mono (le_trans (by decide) host.limit_ge)

theorem get_collectionDocument (type name : String) (ids : List Text) (path : Text) :
    (collectionDocument host type name ids path).get "Members".toList =
      some (.array (ids.map (memberLink path))) := by
  unfold collectionDocument
  rw [Json.get_ofFields]
  rfl

/-! ## Collections -/

theorem serves_synthesised {script : ShippedScript} {type name : String} {ids : List Text}
    (hhandler : script.handler host disk scriptDir =
      synthesised host (collectionDocument host type name ids))
    (hplain : ∀ id ∈ ids, containsSep (under path id) = false) :
    Serves host disk scriptDir target base script path (Lists path ids) := by
  refine serves_of_exec fun arrival hget hpath store net =>
    ⟨collectionDocument host type name ids path, opened (arrival.ctx target base) store net,
      fits_collectionDocument type name ids path,
      lists_served hplain (get_collectionDocument type name ids path), ?_⟩
  rw [hhandler]
  unfold synthesised
  rw [exec_opened, show (scriptRequest arrival.parts arrival.body).path = path from hpath]

theorem serves_bootOptions {system : Text} (hsystem : '/' ∉ system)
    (hpath : path = collectionPath "Systems".toList system "BootOptions".toList) :
    Serves host disk scriptDir target base .bootOptions path (Lists path optionNames) := by
  have hbase : systemPath system ++ "/BootOptions".toList = path := by
    rw [hpath, systemPath_eq]
    unfold collectionPath
    rw [show "/redfish/v1/Systems".toList =
      "/redfish/v1".toList ++ '/' :: "Systems".toList from rfl]
    simp only [List.append_assoc, List.cons_append]
    rfl
  have hplain : ∀ id ∈ optionNames, containsSep (under path id) = false := by
    intro id hid
    rw [← hbase]
    exact containsSep_optionPath hsystem hid
  have hmembers : (bootOptionsDocument host system).get "Members".toList =
      some (.array (optionNames.map (memberLink path))) := by
    rw [← hbase]
    unfold bootOptionsDocument
    rw [Json.get_ofFields]
    rfl
  have hsegment : segment path 4 = some system := by
    unfold ScriptUtil.segment
    rw [hpath, splitOn_collectionPath (by decide) (by decide) hsystem]
    rfl
  refine serves_of_exec fun arrival hget harrival store net =>
    ⟨bootOptionsDocument host system, opened (arrival.ctx target base) store net,
      fits_bootOptionsDocument system, lists_served hplain hmembers, ?_⟩
  show exec (Shipped.bootOptions host _ _) _ = _
  unfold Shipped.bootOptions
  rw [exec_opened, show (scriptRequest arrival.parts arrival.body).path = path from harrival,
    hsegment, exec_bind, exec_tryOption_some, thenExec_ok]
  rfl

section File

variable {facts : Json ν} (hfacts : readJsonFile host.toHost disk scriptDir factsFile = .ok facts)
  (hgood : GoodFacts host facts)

include hfacts in
theorem exec_readFacts (machine : Machine ν σ) :
    exec (readFacts host disk scriptDir) machine = (.ok facts, machine) := by
  unfold readFacts
  rw [hfacts]
  rfl

/-- The user of the file. -/
def userOf (facts : Json ν) : Text :=
  ((valueAt facts "BmcUsername".toList).bind Json.asStr).getD "admin".toList

include hgood in
theorem userOf_good : '/' ∉ userOf facts ∧ host.shown
    ((valueAt facts "BmcUsername".toList).getD (.string "admin".toList)) = some (userOf facts) := by
  unfold userOf
  cases hvalue : valueAt facts "BmcUsername".toList with
  | none =>
      have hadmin : '/' ∉ "admin".toList := by decide
      exact ⟨hadmin, host.shown_string _⟩
  | some value =>
      obtain ⟨user, rfl, hslash⟩ := hgood.user value hvalue
      exact ⟨hslash, host.shown_string user⟩

include hfacts hgood in
theorem serves_accounts (hplain : containsSep (under path (userOf facts)) = false) :
    Serves host disk scriptDir target base .accounts path (Lists path [userOf facts]) := by
  refine serves_of_exec fun arrival hget harrival store net =>
    ⟨accountsDocument host path (userOf facts), opened (arrival.ctx target base) store net,
      fits_collectionDocument _ _ _ path,
      lists_served (by simpa using hplain) (get_collectionDocument _ _ _ path), ?_⟩
  show exec (Shipped.accounts host disk scriptDir _ _) _ = _
  unfold Shipped.accounts
  rw [exec_opened, exec_bind, exec_readFacts hfacts, thenExec_ok]
  simp only
  rw [(userOf_good hgood).2, exec_bind, exec_orStop_some, thenExec_ok,
    show (scriptRequest arrival.parts arrival.body).path = path from harrival]

/-- The id of a device, if it has one. -/
def idOf (device : Json ν) : Option Text := (valueAt device "Id".toList).bind Json.asStr

/-- The devices of the file. -/
def devicesOf (host : Rune ν σ) (facts : Json ν) : List (Json ν) :=
  ((valueAt facts "PCIeDevices".toList).bind (entriesOf host)).getD []

/-- The id of a device is a text without a slash, if there is one. -/
def IsDevice (device : Json ν) : Prop :=
  ∀ id, valueAt device "Id".toList = some id → ∃ text, id = .string text ∧ '/' ∉ text

include hgood in
theorem devicesOf_good : (∀ device ∈ devicesOf host facts, IsDevice device) ∧
    ∀ machine, exec (listedDevices host facts : Script ν σ _) machine =
      (.ok (devicesOf host facts), machine) := by
  unfold devicesOf listedDevices
  cases hvalue : valueAt facts "PCIeDevices".toList with
  | none => exact ⟨by simp, fun _ => rfl⟩
  | some value =>
      obtain ⟨devices, hdevices, hall⟩ := hgood.devices value hvalue
      simp only [Option.bind_some, hdevices, Option.getD_some]
      exact ⟨hall, fun _ => rfl⟩

theorem exec_foldlM_pushDevice {devices : List (Json ν)} (h : ∀ device ∈ devices, IsDevice device)
    (listed : List Text) (machine : Machine ν σ) :
    exec (devices.foldlM (pushDevice host) listed) machine =
      (.ok (listed ++ devices.filterMap idOf), machine) := by
  induction devices generalizing listed with
  | nil =>
      rw [List.filterMap_nil, List.append_nil]
      rfl
  | cons device devices ih =>
      have hrest := ih fun other hother => h other (List.mem_cons_of_mem _ hother)
      have hpush : exec (pushDevice host listed device) machine =
          (.ok (listed ++ (idOf device).toList), machine) := by
        unfold pushDevice idOf
        cases hid : valueAt device "Id".toList with
        -- a device without an id is not listed
        | none =>
            show _ = (Except.ok (listed ++ []), machine)
            rw [List.append_nil]
            rfl
        | some id =>
            obtain ⟨text, rfl, _⟩ := h device List.mem_cons_self id hid
            simp only [host.shown_string]
            rfl
      rw [List.foldlM_cons, exec_bind, hpush, thenExec_ok, hrest, List.append_assoc]
      cases hid : idOf device with
      | none => rw [List.filterMap_cons_none hid]; rfl
      | some id => rw [List.filterMap_cons_some hid]; rfl

include hfacts hgood in
theorem serves_devices
    (hplain : ∀ id ∈ (devicesOf host facts).filterMap idOf, containsSep (under path id) = false) :
    Serves host disk scriptDir target base .pcieDevices path
      (Lists path ((devicesOf host facts).filterMap idOf)) := by
  obtain ⟨hall, hlisted⟩ := devicesOf_good hgood
  refine serves_of_exec fun arrival hget harrival store net =>
    ⟨devicesDocument host path ((devicesOf host facts).filterMap idOf),
      opened (arrival.ctx target base) store net, fits_collectionDocument _ _ _ path,
      lists_served hplain (get_collectionDocument _ _ _ path), ?_⟩
  show exec (Shipped.pcieDevices host disk scriptDir _ _) _ = _
  unfold Shipped.pcieDevices
  rw [exec_opened, exec_bind, exec_readFacts hfacts, thenExec_ok, exec_bind, hlisted, thenExec_ok,
    exec_bind, exec_foldlM_pushDevice hall, thenExec_ok,
    show (scriptRequest arrival.parts arrival.body).path = path from harrival]
  rfl

end File

/-! ## Members -/

/-- The path of a member, as the handlers write it. -/
theorem under_collectionPath {front between : Text} (kind parent name id : Text)
    (hfront : front = "/redfish/v1".toList ++ '/' :: (kind ++ ['/']))
    (hbetween : between = '/' :: name ++ ['/']) :
    front ++ parent ++ between ++ id = under (collectionPath kind parent name) id := by
  subst hfront hbetween
  unfold under collectionPath
  simp only [List.append_assoc, List.cons_append, List.nil_append]

section Member

variable {parent id : Text} {kind name : Text} (hkind : IsWord kind) (hname : IsWord name)
  (hparent : '/' ∉ parent) (hid : '/' ∉ id)

include hkind hname hparent hid

/-- A handler that reads of the path who the parent is and who the member. -/
theorem serves_member {script : ShippedScript}
    {next : RequestCtx → Text → Text → Script ν σ (Returned ScriptResponse)}
    (hhandler : ∀ ctx req, script.handler host disk scriptDir ctx req = (do
      logInbound host ctx
      let parent ← tryOption (segment req.path 4)
      let id ← tryOption (segment req.path 6)
      next ctx parent id))
    (hnext : ∀ (ctx : RequestCtx) (machine : Machine ν σ), ∃ (document : Json ν)
      (machine' : Machine ν σ), Json.Fits host.limit document ∧
        document.get "@odata.id".toList =
          some (.string (under (collectionPath kind parent name) id)) ∧
        exec (next ctx parent id) machine = exec (respond host ctx document) machine') :
    Serves host disk scriptDir target base script (under (collectionPath kind parent name) id)
      (IsResource (under (collectionPath kind parent name) id)) := by
  obtain ⟨hfourth, hsixth⟩ := segment_under hkind hname hparent hid
  refine serves_of_exec fun arrival hget harrival store net => ?_
  obtain ⟨document, machine, hfits, hnamed, hexec⟩ :=
    hnext (arrival.ctx target base) (opened (arrival.ctx target base) store net)
  refine ⟨document, machine, hfits,
    isResource_served (containsSep_under hkind hname hparent hid) hnamed, ?_⟩
  rw [hhandler, exec_opened, show (scriptRequest arrival.parts arrival.body).path = _ from harrival,
    hfourth, exec_bind, exec_tryOption_some, thenExec_ok, hsixth, exec_bind, exec_tryOption_some,
    thenExec_ok, hexec]

end Member

theorem fits_optionDocument (base option display device : Text) :
    Json.Fits host.limit (optionDocument base option display device : Json ν) := by
  have hlink : Json.Fits 1 (.ofFields [("@odata.id".toList, .string (base ++ "/Settings".toList))]
      : Json ν) := by
    apply Json.fits_ofFields
    simp only [List.forall_mem_cons]
    exact ⟨.string _, by simp⟩
  have hsettings : Json.Fits 2 (optionSettings base : Json ν) := by
    apply Json.fits_ofFields
    simp only [List.forall_mem_cons]
    exact ⟨.string _, hlink, by simp⟩
  have hdocument : Json.Fits 3 (optionDocument base option display device : Json ν) := by
    apply Json.fits_ofFields
    simp only [List.forall_mem_cons]
    exact ⟨.string _, .string _, .string _, .string _, .string _, .string _, .bool _, .string _,
      hsettings, by simp⟩
  exact hdocument.mono (le_trans (by decide) host.limit_ge)

/-- There is always a collection, if an empty one. -/
theorem exec_expandOrEmpty (ctx : RequestCtx) (path name : Text) (machine : Machine ν σ) :
    ∃ collection machine', exec (bmc (expandOrEmpty host.toHost ctx path name) : Script ν σ _)
      machine = (.ok collection, machine') := by
  have hempty : toScriptValue host.toHost (emptyCollectionJson host.toHost path name) =
      .ok (host.scriptValue (emptyCollectionJson host.toHost path name)) := by
    unfold toScriptValue
    rw [host.fromValue_eq]
    rfl
  unfold expandOrEmpty
  rw [exec_bmc, exec_bind, exec_attempt, thenExec_ok]
  cases (exec (expandCollection host.toHost ctx path) machine.world).1 with
  | ok collection => exact ⟨_, _, rfl⟩
  | error fault =>
      simp only [hempty]
      exact ⟨_, _, rfl⟩

/-- What the loop compares with the id. -/
theorem exec_findDevice {id : Text} {devices : List (Json ν)}
    (h : ∀ device ∈ devices, IsDevice device) (machine : Machine ν σ) : exec (findDevice id devices) machine =
      (.ok (devices.find? fun device => (idOf device).getD [] == id), machine) := by
  induction devices with
  | nil => rfl
  | cons device devices ih =>
      have hequals : exec (equalsText ((valueAt device "Id".toList).getD (.string [])) id :
          Script ν σ Bool) machine = (.ok ((idOf device).getD [] == id), machine) := by
        unfold idOf
        cases hvalue : valueAt device "Id".toList with
        | none => rfl
        | some value =>
            obtain ⟨text, rfl, _⟩ := h device List.mem_cons_self value hvalue
            rfl
      unfold findDevice
      rw [exec_bind, hequals, thenExec_ok, List.find?_cons]
      cases (idOf device).getD [] == id with
      | true => rfl
      | false => exact ih fun other hother => h other (List.mem_cons_of_mem _ hother)

/-- An entry is no deeper than what it is an entry of. -/
theorem fits_entry {d : Nat} {value entry : Json ν} {entries : List (Json ν)}
    (hfits : Json.Fits d value) (hentries : entriesOf host value = some entries)
    (hentry : entry ∈ entries) : Json.Fits d entry := by
  unfold entriesOf at hentries
  split at hentries
  · rw [← Option.some.inj hentries] at hentry
    obtain ⟨d, rfl⟩ := hfits.of_array
    exact (hfits.item hentry).mono (Nat.le_succ d)
  · -- the entry of a map is a pair
    rw [← Option.some.inj hentries] at hentry
    obtain ⟨field, hfield, rfl⟩ := List.mem_map.mp hentry
    obtain ⟨d, rfl⟩ := hfits.of_object
    refine .array ?_
    simp only [List.forall_mem_cons]
    exact ⟨.string _, hfits.field ((host.order_perm _).mem_iff.mp hfield), by simp⟩
  · split at hentries
    · rw [← Option.some.inj hentries] at hentry
      cases hentry
    · cases hentries
  · cases hentries

theorem fits_device {facts device : Json ν}
    (hfacts : readJsonFile host.toHost disk scriptDir factsFile = .ok facts)
    (hdevice : device ∈ devicesOf host facts) : Json.Fits host.limit device := by
  have hfits : Json.Fits host.limit facts := by
    unfold readJsonFile at hfacts
    obtain ⟨value, hvalue, hscript⟩ := bind_ok hfacts
    obtain ⟨_, _, _, _, hstands⟩ := beneath_of_readScriptJson hvalue
    obtain ⟨_, _, hslice⟩ := hstands.stands
    unfold toScriptValue at hscript
    rw [host.fromValue_eq] at hscript
    rw [← Except.ok.inj hscript]
    exact fits_scriptValue (host.fits_of_fromSlice _ _ hslice)
  unfold devicesOf at hdevice
  cases hvalue : valueAt facts "PCIeDevices".toList with
  | none =>
      rw [hvalue] at hdevice
      cases hdevice
  | some value =>
      -- what was read fits, and a part of it is no deeper
      have hdeep := (walk_fits hfits hvalue).2.mono (Nat.sub_le _ _)
      rw [hvalue, Option.bind_some] at hdevice
      cases hentries : entriesOf host value with
      | none =>
          rw [hentries] at hdevice
          cases hdevice
      | some devices =>
          rw [hentries, Option.getD_some] at hdevice
          exact fits_entry hdeep hentries hdevice

section Members

variable {parent id : Text} (hparent : '/' ∉ parent) (hid : '/' ∉ id)

include hparent hid

theorem serves_serialInterface :
    Serves host disk scriptDir target base .serialInterface
      (under (collectionPath "Managers".toList parent "SerialInterfaces".toList) id)
      (IsResource
        (under (collectionPath "Managers".toList parent "SerialInterfaces".toList) id)) := by
  refine serves_member (by decide) (by decide) hparent hid
    (fun _ _ => rfl) fun ctx machine => ⟨serialInterfaceDocument parent id, machine, ?_, ?_, rfl⟩
  · have hdocument : Json.Fits 1 (serialInterfaceDocument parent id : Json ν) := by
      apply Json.fits_ofFields
      simp only [List.forall_mem_cons]
      exact ⟨.string _, .string _, .string _, .string _, .bool _, .string _, .string _, .string _,
        .string _, .string _, .string _, .string _, .string _, by simp⟩
    exact hdocument.mono (le_trans (by decide) host.limit_ge)
  · rw [← under_collectionPath "Managers".toList parent "SerialInterfaces".toList id rfl rfl]
    unfold serialInterfaceDocument
    rw [Json.get_ofFields]
    rfl

/-- A BMC that lists no interfaces is as good as one that lists some. -/
theorem serves_bootOption :
    Serves host disk scriptDir target base .bootOption
      (under (collectionPath "Systems".toList parent "BootOptions".toList) id)
      (IsResource (under (collectionPath "Systems".toList parent "BootOptions".toList) id)) := by
  have hbase : systemPath parent ++ "/BootOptions/".toList ++ id =
      under (collectionPath "Systems".toList parent "BootOptions".toList) id :=
    under_collectionPath "Systems".toList parent "BootOptions".toList id rfl rfl
  have hnamed : ∀ display device : Text, (optionDocument (systemPath parent ++
      "/BootOptions/".toList ++ id) id display device : Json ν).get "@odata.id".toList =
        some (.string (under (collectionPath "Systems".toList parent "BootOptions".toList) id)) := by
    intro display device
    rw [← hbase]
    unfold optionDocument
    rw [Json.get_ofFields]
    rfl
  refine serves_member (by decide) (by decide) hparent hid
    (fun _ _ => rfl) fun ctx machine => ?_
  by_cases hdisk : id = "Boot0001".toList
  -- the disk is made up whole; the others take an interface, if there is one
  · simp only [if_pos hdisk]
    exact ⟨_, machine, fits_optionDocument .., hnamed _ _, rfl⟩
  · obtain ⟨interfaces, machine', hexpand⟩ := exec_expandOrEmpty ctx
      (systemPath parent ++ "/EthernetInterfaces".toList)
      "Ethernet Interface Collection".toList machine
    simp only [if_neg hdisk]
    rw [exec_bind, hexpand, thenExec_ok]
    exact ⟨_, machine', fits_optionDocument .., hnamed _ _, rfl⟩

theorem serves_managerEthernetInterface {facts : Json ν}
    (hfacts : readJsonFile host.toHost disk scriptDir factsFile = .ok facts)
    (hgood : GoodFacts host facts) :
    Serves host disk scriptDir target base .managerEthernetInterface
      (under (collectionPath "Managers".toList parent "EthernetInterfaces".toList) id)
      (IsResource
        (under (collectionPath "Managers".toList parent "EthernetInterfaces".toList) id)) := by
  obtain ⟨mac, hne, hmac⟩ := hgood.address
  have hstatus : Json.Fits 1 (.ofFields [("State".toList, .string "Enabled".toList),
      ("Health".toList, .string "OK".toList)] : Json ν) := by
    apply Json.fits_ofFields
    simp only [List.forall_mem_cons]
    exact ⟨.string _, .string _, by simp⟩
  refine serves_member (by decide) (by decide) hparent hid
    (fun _ _ => rfl) fun ctx machine =>
      ⟨ethernetDocument parent id (.string mac), machine, ?_, ?_, ?_⟩
  · have hdocument : Json.Fits 2 (ethernetDocument parent id (.string mac) : Json ν) := by
      apply Json.fits_ofFields
      simp only [List.forall_mem_cons]
      exact ⟨.string _, .string _, .string _, .string _, .bool _, .string _, .string _, .string _,
        hstatus, by simp⟩
    exact hdocument.mono (le_trans (by decide) host.limit_ge)
  · rw [← under_collectionPath "Managers".toList parent "EthernetInterfaces".toList id rfl rfl]
    unfold ethernetDocument
    rw [Json.get_ofFields]
    rfl
  · have hthere : exec (equalsText (.string mac) [] : Script ν σ Bool) machine =
        (.ok false, machine) := by
      show (Except.ok (mac == []), machine) = _
      rw [beq_eq_false_iff_ne.mpr hne]
    rw [exec_bind, exec_readFacts hfacts, thenExec_ok]
    simp only [hmac, Option.getD_some]
    rw [exec_bind, hthere, thenExec_ok]
    rfl

theorem serves_pcieDevice {facts : Json ν}
    (hfacts : readJsonFile host.toHost disk scriptDir factsFile = .ok facts)
    (hgood : GoodFacts host facts) (hlisted : id ∈ (devicesOf host facts).filterMap idOf) :
    Serves host disk scriptDir target base .pcieDevice
      (under (collectionPath "Chassis".toList parent "PCIeDevices".toList) id)
      (IsResource (under (collectionPath "Chassis".toList parent "PCIeDevices".toList) id)) := by
  obtain ⟨hall, hdevices⟩ := devicesOf_good hgood
  -- an id that is listed twice is that of the first device
  obtain ⟨device, hfind⟩ : ∃ device, (devicesOf host facts).find?
      (fun device => (idOf device).getD [] == id) = some device := by
    obtain ⟨device, hdevice, hid⟩ := List.mem_filterMap.mp hlisted
    refine Option.isSome_iff_exists.mp (List.find?_isSome.mpr ⟨device, hdevice, ?_⟩)
    rw [hid]
    exact beq_self_eq_true id
  have hpath : devicePath parent id =
      under (collectionPath "Chassis".toList parent "PCIeDevices".toList) id :=
    under_collectionPath "Chassis".toList parent "PCIeDevices".toList id rfl rfl
  have hkeys : ∀ path ∈ (deviceMembers (ν := ν) parent id).map Prod.fst, IsKeyPath path := by
    show ∀ path ∈ ["@odata.id".toList, "@odata.type".toList], IsKeyPath path
    decide
  refine serves_member (by decide) (by decide) hparent hid
    (fun _ _ => rfl) fun ctx machine =>
      ⟨writtenEach (deviceMembers parent id) device, machine, ?_, ?_, ?_⟩
  · have hlimit := host.limit_ge
    refine fits_writtenEach (fits_device hfacts (List.mem_of_find?_eq_some hfind)) ?_
    unfold deviceMembers
    simp only [List.forall_mem_cons]
    refine ⟨⟨0, .string _, ?_⟩, ⟨0, .string _, ?_⟩, by simp⟩
    all_goals exact le_trans (by decide) hlimit
  · have hsplit : "@odata.id".toList.splitOn '/' = ["@odata.id".toList] := by decide
    have hother : ∀ path ∈ [("@odata.type".toList,
        (.string "#PCIeDevice.v1_9_0.PCIeDevice".toList : Json ν))].map Prod.fst,
        (path.splitOn '/').head? ≠ some "@odata.id".toList := by
      show ∀ path ∈ ["@odata.type".toList], _
      decide
    unfold deviceMembers
    rw [writtenEach_cons, get_writtenEach_of_ne hother, hsplit, get_written, if_pos rfl, hpath]
    rfl
  · rw [exec_bind, exec_readFacts hfacts, thenExec_ok, exec_bind, hdevices, thenExec_ok, exec_bind,
      exec_findDevice hall, thenExec_ok, hfind]
    simp only
    rw [exec_bind, exec_setEach hkeys, thenExec_ok]

end Members

/-! The one collection that is no one's. -/

def accountsPath : Text := "/redfish/v1/AccountService/Accounts".toList

theorem containsSep_underAccounts {id : Text} (hid : '/' ∉ id) :
    containsSep (under accountsPath id) = false := by
  have hfront : ':' ∉ accountsPath ++ ['/'] := by decide
  unfold under
  rw [← List.singleton_append, ← List.append_assoc, containsSep_append_of_notMem hfront,
    containsSep_of_notMem hid]

theorem serves_account {id : Text} (hid : '/' ∉ id) :
    Serves host disk scriptDir target base .account (under accountsPath id)
      (IsResource (under accountsPath id)) := by
  have hlast : segment (under accountsPath id) (-1) = some id := by
    have hsplit : accountsPath.splitOn '/' =
        [[], "redfish".toList, "v1".toList, "AccountService".toList, "Accounts".toList] := by
      decide
    unfold ScriptUtil.segment
    rw [splitOn_under hid, hsplit]
    rfl
  have hnamed : (accountDocument id : Json ν).get "@odata.id".toList =
      some (.string (under accountsPath id)) := by
    have hfront : "/redfish/v1/AccountService/Accounts/".toList = accountsPath ++ ['/'] := by decide
    unfold accountDocument under
    rw [Json.get_ofFields, hfront, List.append_assoc, List.singleton_append]
    rfl
  refine serves_of_exec fun arrival hget harrival store net =>
    ⟨accountDocument id, opened (arrival.ctx target base) store net, fits_accountDocument id,
      isResource_served (containsSep_underAccounts hid) hnamed, ?_⟩
  -- only a write asks for a password
  have hreads : isWrite (scriptRequest arrival.parts arrival.body) = false := by
    unfold isWrite scriptRequest
    rw [hget]
    rfl
  obtain ⟨found, hfound, hexec⟩ := exec_account host (arrival.ctx target base)
    (scriptRequest arrival.parts arrival.body) store net
  rw [show (scriptRequest arrival.parts arrival.body).path = _ from harrival, hlast] at hfound
  obtain rfl := Option.some.inj hfound
  rw [hreads] at hexec
  exact hexec

variable {facts : Json ν}

end Serves

/-! ## A chassis with one device -/

def oneDevice : Json Nat := .ofFields [
  ("BmcMacAddress".toList, .string "ac:1f:6b:00:00:01".toList),
  ("PCIeDevices".toList, .array [.ofFields [("Id".toList, .string "GPU0".toList)]])]

/-- What stands where, with the scripts at the root. -/
def entryBeside (path : List Text) : Except Text (FileEntry (Except Text Text)) :=
  if path = [] ∨ path = ["supermicro".toList] then .ok .dir
  else if path = ["supermicro".toList, "facts.json".toList] then
    .ok (.file (.ok (Json.write decimals oneDevice)))
  else .error "no such file".toList

theorem isName_of_entryBeside (place : List Text) (name : Text)
    (found : FileEntry (Except Text Text)) (h : entryBeside (place ++ [name]) = .ok found) :
    Lib.IsName name := by
  have hplaces : place ++ [name] ∈ [["supermicro".toList],
      ["supermicro".toList, "facts.json".toList]] := by
    unfold entryBeside at h
    split at h
    · rename_i hdir
      exact List.mem_cons.mpr (.inl (hdir.resolve_left (by simp)))
    · split at h
      · rename_i hfile
        exact List.mem_cons_of_mem _ (List.mem_singleton.mpr hfile)
      · cases h
  have hnames : ∀ path ∈ [["supermicro".toList], ["supermicro".toList, "facts.json".toList]],
      ∀ last ∈ path.getLast?, last ≠ [] ∧ last ≠ ['.'] ∧ last ≠ ['.', '.'] ∧ '/' ∉ last := by
    decide
  obtain ⟨hempty, hdot, hdots, hslash⟩ := hnames _ hplaces name (by simp)
  exact ⟨hempty, hdot, hdots, hslash⟩

def factsDisk : Disk where
  tree := {
    entry := entryBeside
    notDirectory := "not a directory".toList
    isDirectory := "is a directory".toList
    tooManyLinks := "too many links".toList
    root := rfl
    isName := isName_of_entryBeside }
  cwd := []
  notFound := "no such file".toList
  realCwd := .root

theorem entry_factsDisk (path : List Text) : factsDisk.tree.entry path = entryBeside path := rfl

theorem fits_oneDevice : Json.Fits serdeLimit oneDevice := by
  have hdevice : Json.Fits 1 (.ofFields [("Id".toList, .string "GPU0".toList)] : Json Nat) := by
    apply Json.fits_ofFields
    simp only [List.forall_mem_cons]
    exact ⟨.string _, by simp⟩
  have hdocument : Json.Fits 3 oneDevice := by
    apply Json.fits_ofFields
    simp only [List.forall_mem_cons]
    exact ⟨.string _, .array (List.forall_mem_singleton.mpr hdevice), by simp⟩
  exact hdocument.mono (by decide)

theorem readFacts_factsDisk :
    readJsonFile quietHost.toHost factsDisk ['/'] factsFile = .ok oneDevice := by
  have hinside : factsDisk.tree.RealDir ([] ++ ["supermicro".toList]) := by
    refine .child .root ?_
    rw [entry_factsDisk]
    exact if_pos (.inr rfl)
  have hentry : factsDisk.tree.entry (["supermicro".toList] ++ ["facts.json".toList]) =
      .ok (.file (.ok (Json.write decimals oneDevice))) := by
    rw [entry_factsDisk]
    unfold entryBeside
    rw [if_neg (by decide), if_pos (by decide)]
  have hslice : quietHost.fromSlice (Json.utf8Encode (Json.write decimals oneDevice)) =
      .ok oneDevice := by
    unfold quietHost
    rw [fromSlice_serdeHost]
    exact parseBody_writeBody fits_oneDevice
  have hread : readScriptJson quietHost.toHost factsDisk ['/']
      (['/'].intercalate (["supermicro".toList] ++ ["facts.json".toList])) = .ok oneDevice :=
    readScriptJson_beneath rfl
      ⟨List.nil_prefix, by decide, _, ⟨hinside, hentry⟩, hslice⟩
  have hname : ['/'].intercalate (["supermicro".toList] ++ ["facts.json".toList]) = factsFile := by
    decide
  rw [hname] at hread
  unfold readJsonFile
  rw [hread]
  rfl

theorem goodFacts_oneDevice : GoodFacts quietHost oneDevice where
  address := by
    refine ⟨"ac:1f:6b:00:00:01".toList, by decide, ?_⟩
    rw [valueAt_of_key (by decide) (by decide), oneDevice, Json.get_ofFields]
    rfl
  user := by
    intro value hvalue
    rw [valueAt_of_key (by decide) (by decide), oneDevice, Json.get_ofFields] at hvalue
    cases hvalue
  devices := by
    intro value hvalue
    rw [valueAt_of_key (by decide) (by decide), oneDevice, Json.get_ofFields] at hvalue
    obtain rfl := Option.some.inj hvalue
    refine ⟨_, rfl, ?_⟩
    simp only [List.forall_mem_singleton]
    intro id hid
    rw [valueAt_of_key (by decide) (by decide), Json.get_ofFields] at hid
    obtain rfl := Option.some.inj hid
    exact ⟨_, rfl, by decide⟩

end RedfishProxy.Shipped
