import RedfishProxy.Shipped.Recorded
import RedfishProxy.Shipped.Serial

/-!
# What a success of the BMC is answered with

A handler that parses a reply trusts its declared type. A success without a body
may still declare one, and then the handler stops at the body, whether or not the
request went through at the BMC.

Main results:
* `isSuccess_dressed`: when the answer to a forwarded request is a success.
* `exec_dressSystem_ok_iff`, `exec_dressChassis_ok_iff`, …: when a document can be
  dressed.
-/

namespace RedfishProxy.Shipped

open Lib Http Script RuneHost ScriptUtil
open ScriptStore (IsKey Store Bounded)

section Replies

variable {ν σ : Type}

/-- A body that is empty, or parses where it is declared JSON. -/
def Readable (host : Rune ν σ) (P : Json ν → Prop) (reply : Reply) : Prop :=
  ∃ bytes, reply.body = .ok bytes ∧ (bytes = [] ∨
    (isJson reply.headers = true →
      ∃ document, host.scriptFromSlice bytes = .ok document ∧ P document))

def isObject (document : Json ν) : Bool := document.asObject.isSome

/-- A success whose body is empty, or an object where it is declared JSON. -/
structure Good (host : Rune ν σ) (reply : Reply) : Prop where
  status : isSuccess reply.status = true
  body : Readable host (isObject · = true) reply

/-- Nothing is declared JSON that is empty. -/
def Told (reply : Reply) : Prop := isJson reply.headers = true → reply.body ≠ .ok []

variable (host : Rune ν σ) (ctx : RequestCtx)

/-- What the BMC answers to the forwarded request. -/
def forwardReply (net : σ) : Except TransportError Reply := (host.client (forward ctx) net).1

/-- A reply as it is forwarded. -/
def forwardedReply (reply : Reply) (bytes : List UInt8) : Forwarded where
  status := reply.status
  headers := copyEndToEnd reply.headers .new
  body := if isJson reply.headers then .buffered bytes else .streaming reply

variable {host ctx} {reply : Reply} {bytes : List UInt8}

theorem intoForwarded_eq (hbody : reply.body = .ok bytes) :
    intoForwarded reply = .ok (forwardedReply reply bytes) := by
  unfold intoForwarded forwardedReply
  simp only [isJson_copyEndToEnd, hbody]
  cases isJson reply.headers <;> rfl

/-- A reply that can be read is rewritten, and keeps its status. -/
theorem rewrite_forwardedReply {P : Json ν → Prop} (hreadable : Readable host P reply)
    (hbody : reply.body = .ok bytes) : ∃ response,
      (forwardedReply reply bytes).rewrite host.toHost ctx = .ok response ∧
        response.status = reply.status := by
  unfold Forwarded.rewrite forwardedReply
  cases hjson : isJson reply.headers with
  | false => exact ⟨_, rfl, rfl⟩
  | true =>
      have htype : contentType (rewriteHeaders ctx.target ctx.base.asStr
          (copyEndToEnd reply.headers .new)) = contentType reply.headers := by
        rw [contentType_rewriteHeaders, contentType_copyEndToEnd]
      obtain ⟨rewritten, hrewritten⟩ : ∃ rewritten, rewriteJson host.fromSlice host.toVec ctx.target
          ctx.base.asStr (contentType reply.headers) bytes = .ok rewritten := by
        obtain ⟨bytes', hbody', hempty | hread⟩ := hreadable
        · obtain rfl : bytes = bytes' := Except.ok.inj (hbody.symm.trans hbody')
          subst hempty
          refine ⟨none, ?_⟩
          unfold rewriteJson
          simp
        · obtain rfl : bytes = bytes' := Except.ok.inj (hbody.symm.trans hbody')
          obtain ⟨document, hdocument, _⟩ := hread hjson
          obtain ⟨parsed, hparsed, _⟩ := scriptFromSlice_ok_iff.mp hdocument
          obtain ⟨new, hnew, _⟩ := rewriteJson_of_fromSlice host ctx.target ctx.base.asStr hjson
            hparsed
          exact ⟨some new, hnew⟩
      simp only [if_true]
      unfold rewriteResponse
      simp only [htype, hrewritten]
      exact ⟨_, rfl, rfl⟩

theorem exec_rewriteForwarded {response response' : Forwarded}
    (h : response.rewrite host.toHost ctx = .ok response') (machine : Machine ν σ) :
    ∃ record, exec (rewriteForwarded host ctx response) machine =
      (.ok (.forwarded response'), machine.logs record) := by
  unfold rewriteForwarded
  rw [h, exec_bind, exec_tryResult_ok, thenExec_ok]
  have hrecord : ∃ record, response'.record host.toHost ctx "info".toList true = .ok record := by
    unfold Forwarded.record
    cases response'.body <;> exact ⟨_, rfl⟩
  obtain ⟨record, hrecord⟩ := hrecord
  exact ⟨record, by rw [hrecord]; rfl⟩

/-- A good reply that is only rewritten is a success. -/
theorem isSuccess_rewriteForwarded (hgood : Good host reply) (hbody : reply.body = .ok bytes)
    (machine : Machine ν σ) : isSuccess (answer host ctx
      (exec (rewriteForwarded host ctx (forwardedReply reply bytes)) machine).1).status = true := by
  obtain ⟨response, hrewrite, hstatus⟩ := rewrite_forwardedReply hgood.body hbody
  obtain ⟨record, hrun⟩ := exec_rewriteForwarded hrewrite machine
  rw [hrun, answer_forwarded, status_finishForwarded, hstatus]
  exact hgood.status

/-! ## A document that is dressed -/

variable {dress : Json ν → Script ν σ (Json ν)} {machine : Machine ν σ}

theorem exec_bmc_forwarded (h : forwardReply host ctx machine.world.net = .ok reply)
    (hbody : reply.body = .ok bytes) :
    exec (bmc (forwarded host.toHost ctx) : Script ν σ _) machine =
      (.ok (forwardedReply reply bytes), machine.forwarded host ctx) := by
  have hreply : (host.client (forward ctx) machine.world.net).1 = .ok reply := h
  rw [exec_bmc, exec_forwarded, hreply]
  show ((intoForwarded reply).mapError Stop.error, _) = _
  rw [intoForwarded_eq hbody]
  rfl

theorem isSuccess_relay (h : forwardReply host ctx machine.world.net = .ok reply)
    (hgood : Good host reply) :
    isSuccess (answer host ctx (exec (relay host ctx) machine).1).status = true := by
  obtain ⟨bytes, hbody, _⟩ := hgood.body
  unfold relay
  rw [exec_bind, exec_bmc_forwarded h hbody, thenExec_ok]
  exact isSuccess_rewriteForwarded hgood hbody _

/-- A body that is empty stops the handler that parses it. -/
theorem json_forwardedReply_nil (hjson : isJson reply.headers = true) :
    ∃ fault, (forwardedReply reply []).json host.toHost = .error fault := by
  obtain ⟨error, herror⟩ := host.fromSlice_nil
  unfold Forwarded.json forwardedReply
  simp only [hjson, if_true]
  unfold bodyJson
  rw [scriptFromSlice_of_error herror]
  exact ⟨_, rfl⟩

theorem documents_of_good (h : forwardReply host ctx machine.world.net = .ok reply)
    (hgood : Good host reply) (hjson : isJson reply.headers = true) (htold : Told reply) :
    ∃ document, Documents host ctx machine.world.net document ∧ isObject document = true := by
  obtain ⟨bytes, hbody, hempty | hread⟩ := hgood.body
  · exact absurd (by rw [hbody, hempty]) (htold hjson)
  · obtain ⟨document, hdocument, hobject⟩ := hread hjson
    exact ⟨document, ⟨reply, bytes, h, hgood.status, hjson, hbody, hdocument⟩, hobject⟩

theorem Documents.unique {net : σ} {document other : Json ν} (h : Documents host ctx net document)
    (h' : Documents host ctx net other) : document = other := by
  obtain ⟨reply, bytes, hreply, _, _, hbody, hread⟩ := h.reply
  obtain ⟨reply', bytes', hreply', _, _, hbody', hread'⟩ := h'.reply
  obtain rfl := Except.ok.inj (hreply.symm.trans hreply')
  obtain rfl := Except.ok.inj (hbody.symm.trans hbody')
  exact Except.ok.inj (hread.symm.trans hread')

/-- **When the answer to a forwarded request is a success.** -/
theorem isSuccess_dressed (h : forwardReply host ctx machine.world.net = .ok reply)
    (hgood : Good host reply)
    (hfits : ∀ document result, Documents host ctx machine.world.net document →
      (exec (dress document) (machine.forwarded host ctx)).1 = .ok result →
        Json.Fits host.limit result) :
    isSuccess (answer host ctx (exec (dressed host ctx dress) machine).1).status = true ↔
      Told reply ∧ ∀ document, Documents host ctx machine.world.net document →
        ∃ result, (exec (dress document) (machine.forwarded host ctx)).1 = .ok result := by
  have honly : ∀ document, Documents host ctx machine.world.net document →
      isJson reply.headers = true := by
    rintro document ⟨reply', bytes, hreply', _, hjson, _⟩
    obtain rfl : reply = reply' := Except.ok.inj (h.symm.trans hreply')
    exact hjson
  cases hjson : isJson reply.headers with
  | false =>
      refine iff_of_true ?_ ⟨?_, ?_⟩
      · obtain ⟨bytes, hbody, _⟩ := hgood.body
        unfold dressed
        rw [exec_bind, exec_bmc_forwarded h hbody, thenExec_ok]
        unfold dressing
        have hnot : isJson (forwardedReply reply bytes).headers = false := by
          show isJson (copyEndToEnd reply.headers .new) = false
          rw [isJson_copyEndToEnd, hjson]
        rw [hnot, Bool.not_false, Bool.or_true, if_pos rfl]
        exact isSuccess_rewriteForwarded hgood hbody _
      · intro hjson'
        rw [hjson] at hjson'
        cases hjson'
      · intro document hdocument
        rw [honly document hdocument] at hjson
        cases hjson
  | true =>
      by_cases htold : Told reply
      · obtain ⟨document, hdocument, _⟩ := documents_of_good h hgood hjson htold
        cases hdress : (exec (dress document) (machine.forwarded host ctx)).1 with
        | ok result =>
            obtain ⟨response, hrun, hcarries⟩ :=
              answer_dressed hdocument hdress (hfits document result hdocument hdress)
            refine iff_of_true ?_ ⟨htold, ?_⟩
            · rw [hrun, answer_script, status_finishScriptResponse, hcarries.status]
              rfl
            · intro other hother
              rw [hother.unique hdocument]
              exact ⟨result, hdress⟩
        | error stop =>
            refine iff_of_false ?_ ?_
            · rw [answer_dressed_error hdocument hdress, status_answer_error]
              exact Bool.false_ne_true
            · rintro ⟨_, hall⟩
              obtain ⟨result, hresult⟩ := hall document hdocument
              rw [hdress] at hresult
              cases hresult
      · refine iff_of_false ?_ fun hboth => htold hboth.1
        have hempty : reply.body = .ok [] := by
          unfold Told at htold
          push Not at htold
          exact htold.2
        obtain ⟨fault, hfault⟩ : ∃ fault, (forwardedReply reply []).json host.toHost =
            .error fault := json_forwardedReply_nil hjson
        have hheaders : isJson (forwardedReply reply []).headers = true := by
          show isJson (copyEndToEnd reply.headers .new) = true
          rw [isJson_copyEndToEnd, hjson]
        have hstatus : isSuccess (forwardedReply reply []).status = true := hgood.status
        unfold dressed
        rw [exec_bind, exec_bmc_forwarded h hempty, thenExec_ok]
        unfold dressing
        rw [hheaders, hstatus, Bool.not_true, Bool.or_false, if_neg Bool.false_ne_true, exec_bind,
          hfault, exec_tryResult_error, thenExec_error, status_answer_error]
        exact Bool.false_ne_true

end Replies

/-! ## What can be dressed -/

section Dresses

variable {ν σ : Type} (host : Rune ν σ) (ctx : RequestCtx)

/-- The ids of the request are known, or the BMC answers for them. -/
def CanResolve (world : World σ) : Prop :=
  ∃ ids, (exec (resolveIds host.toHost ctx) world).1 = .ok ids

/-- A serial is reported, or a UUID, or a manager to take the digest of. -/
def HasSerial (world : World σ) (sys : Json ν) : Prop :=
  (named (valueAt sys "SerialNumber".toList)).isSome = true ∨
    (named (valueAt sys "UUID".toList)).isSome = true ∨ CanResolve host ctx world

/-- The system is known and answers, with a body that parses where it should. -/
def SystemKnown (world : World σ) : Prop :=
  ∃ ids world', exec (resolveIds host.toHost ctx) world = (.ok ids, world') ∧
    ∃ current, systemReply host ctx ids.system world'.net = .ok current ∧
      Parses host current.status current.headers current.body

/-- The members are none, or something a `for` goes through. -/
def MembersLoop (collection : Json ν) : Prop :=
  ∀ members, valueAt collection "Members".toList = some members →
    (entriesOf host members).isSome = true

/-- The id is none, or something a template takes. -/
def IdShown (bios : Json ν) : Prop :=
  ∀ id, valueAt bios "@odata.id".toList = some id → (host.shown id).isSome = true

variable {host ctx} {machine : Machine ν σ}

theorem exec_digestSerial_ok_iff :
    (∃ serial, (exec (digestSerial host ctx) machine).1 = .ok serial) ↔
      CanResolve host ctx machine.world := by
  unfold digestSerial CanResolve
  rw [exec_bind_ok_iff fun ids between => ⟨_, rfl⟩, exec_bmc]
  cases (exec (resolveIds host.toHost ctx) machine.world).1 with
  | error fault => exact iff_of_false (fun ⟨_, h⟩ => nomatch h) (fun ⟨_, h⟩ => nomatch h)
  | ok ids => exact iff_of_true ⟨ids, rfl⟩ ⟨ids, rfl⟩

theorem exec_setEach_ok {members : List (Text × Json ν)}
    (h : ∀ path ∈ members.map Prod.fst, IsKeyPath path) (document : Json ν)
    (machine : Machine ν σ) :
    ∃ result, (exec (setEach members document) machine).1 = .ok result :=
  ⟨_, congrArg Prod.fst (exec_setEach h document machine)⟩

theorem exec_withSerial_ok_iff (sys : Json ν) :
    (∃ serialised, (exec (withSerial host ctx sys) machine).1 = .ok serialised) ↔
      HasSerial host ctx machine.world sys := by
  unfold withSerial HasSerial
  rw [isBlank_eq]
  cases named (valueAt sys "SerialNumber".toList) with
  | some text => exact iff_of_true ⟨sys, rfl⟩ (.inl rfl)
  | none =>
      simp only [Option.isNone_none, if_true, Option.isSome_none, Bool.false_eq_true, false_or]
      rw [exec_bind_ok_iff fun serial => exec_setEach_ok (keyPaths_serial serial) sys, deriveSerial_eq]
      cases named (valueAt sys "UUID".toList) with
      | some uuid => exact iff_of_true ⟨_, rfl⟩ (.inl rfl)
      | none =>
          simp only [Option.isSome_none, Bool.false_eq_true, false_or]
          exact exec_digestSerial_ok_iff

theorem exec_dressSystem_ok_iff (h : Bounded host.serde machine.store) (system : Text)
    (sys : Json ν) :
    (∃ result, (exec (dressSystem host ctx system sys) machine).1 = .ok result) ↔
      IsKey (orderKey system) ∧ HasSerial host ctx machine.world sys := by
  rw [← exec_withSerial_ok_iff]
  constructor
  · rintro ⟨result, hresult⟩
    by_contra hnot
    have herror : (∃ stop, (exec (withSerial host ctx sys) machine).1 = .error stop) ∨
        ¬ IsKey (orderKey system) := by
      by_cases hkey : IsKey (orderKey system)
      · refine .inl ?_
        cases hserial : (exec (withSerial host ctx sys) machine).1 with
        | error stop => exact ⟨stop, rfl⟩
        | ok serialised => exact absurd ⟨hkey, serialised, hserial⟩ hnot
      · exact .inr hkey
    obtain ⟨stop, hstop⟩ := exec_dressSystem_error herror
    rw [hresult] at hstop
    cases hstop
  · rintro ⟨hkey, serialised, hserial⟩
    exact ⟨_, exec_dressSystem h hkey hserial⟩

theorem systemKnown_iff {world world' : World σ} {ids : Ids}
    (hids : exec (resolveIds host.toHost ctx) world = (.ok ids, world')) :
    SystemKnown host ctx world ↔ ∃ current, systemReply host ctx ids.system world'.net = .ok current ∧
      Parses host current.status current.headers current.body := by
  unfold SystemKnown
  rw [hids]
  constructor
  · rintro ⟨ids', other, hsame, hrest⟩
    obtain ⟨hresult, rfl⟩ := Prod.mk.inj hsame
    obtain rfl := Except.ok.inj hresult
    exact hrest
  · intro hrest
    exact ⟨ids, world', rfl, hrest⟩

theorem exec_chassisSerial_ok_iff (hfresh : machine.world.ids = none) :
    (∃ serial, (exec (chassisSerial host ctx) machine).1 = .ok serial) ↔
      SystemKnown host ctx machine.world := by
  unfold chassisSerial
  rw [exec_bind, exec_bmc]
  cases hids : exec (resolveIds host.toHost ctx) machine.world with
  | mk result world =>
      cases result with
      | error fault =>
          refine iff_of_false (fun ⟨_, h⟩ => nomatch h) ?_
          rintro ⟨ids, world', hresolved, _⟩
          rw [hids] at hresolved
          cases hresolved
      | ok ids =>
          rw [systemKnown_iff hids]
          have hcached : (world.after host.toHost (systemOutbound ctx ids.system)).ids = some ids :=
            (system_of_resolveIds hfresh hids).1
          show (∃ serial, (thenExec _ (Except.ok ids, ({ machine with world } : Machine ν σ))).1 =
            .ok serial) ↔ _
          rw [thenExec_ok, exec_bind, exec_getSystem]
          cases hcurrent : systemReply host ctx ids.system world.net with
          | error fault =>
              refine iff_of_false (fun ⟨_, h⟩ => nomatch h) ?_
              rintro ⟨current, h, _⟩
              cases h
          | ok current =>
              show (∃ serial, (thenExec _ (Except.ok current, ({ machine with
                world := world.after host.toHost (systemOutbound ctx ids.system) } :
                  Machine ν σ))).1 = .ok serial) ↔ _
              rw [thenExec_ok]
              have hdigest : ∃ serial, (exec (digestSerial host ctx) ({ machine with
                  world := world.after host.toHost (systemOutbound ctx ids.system) } :
                    Machine ν σ)).1 = .ok serial :=
                ⟨_, congrArg Prod.fst (exec_digestSerial (exec_resolveIds_some hcached))⟩
              by_cases hparses : Parses host current.status current.headers current.body
              · refine iff_of_true ?_ ⟨current, rfl, hparses⟩
                split
                · rename_i hread
                  obtain ⟨hok, hjson⟩ := Bool.and_eq_true_iff.mp hread
                  obtain ⟨parsed, hparsed⟩ := hparses hok hjson
                  rw [exec_bind,
                    bodyJson_of_scriptFromSlice (scriptFromSlice_of_fromSlice hparsed),
                    exec_tryResult_ok, thenExec_ok]
                  generalize host.scriptValue parsed = sys
                  cases named (valueAt sys "SerialNumber".toList) with
                  | some text => exact ⟨text, rfl⟩
                  | none =>
                      cases named (valueAt sys "UUID".toList) with
                      | some uuid => exact ⟨_, rfl⟩
                      | none => exact hdigest
                · exact hdigest
              · obtain ⟨hok, hjson, fault, hfault⟩ := bodyJson_of_not_parses hparses "response".toList
                refine iff_of_false ?_ ?_
                · rw [if_pos (by rw [hok, hjson]; rfl), exec_bind, hfault]
                  exact fun ⟨_, h⟩ => nomatch h
                · rintro ⟨current', hsame, hparses'⟩
                  obtain rfl := Except.ok.inj hsame
                  exact hparses hparses'

theorem exec_dressChassis_ok_iff (hfresh : machine.world.ids = none) (id : Text)
    (chassis : Json ν) :
    (∃ result, (exec (dressChassis host ctx id chassis) machine).1 = .ok result) ↔
      SystemKnown host ctx machine.world := by
  rw [← exec_chassisSerial_ok_iff hfresh]
  exact exec_bind_ok_iff (fun serial => exec_setEach_ok (keyPaths_chassisMembers id serial) chassis) _

theorem keyPaths_collection (members : List (Json ν)) (count : ν) :
    ∀ path ∈ [("Members".toList, (.array members : Json ν)),
      ("Members@odata.count".toList, .number count)].map Prod.fst, IsKeyPath path := by
  show ∀ path ∈ ["Members".toList, "Members@odata.count".toList], IsKeyPath path
  decide

theorem exec_dressChassisCollection_ok_iff (collection : Json ν) :
    (∃ result, (exec (dressChassisCollection host collection) machine).1 = .ok result) ↔
      MembersLoop host collection := by
  unfold dressChassisCollection MembersLoop
  rw [exec_bind_ok_iff fun members => exec_setEach_ok (keyPaths_collection members _) collection]
  unfold bareLinks
  cases valueAt collection "Members".toList with
  | none => exact iff_of_true ⟨[], rfl⟩ fun _ h => nomatch h
  | some members =>
      simp only
      rw [exec_bind_ok_iff fun entries between => ⟨_, rfl⟩]
      cases hentries : entriesOf host members with
      | none =>
          refine iff_of_false (fun ⟨_, h⟩ => nomatch h) ?_
          intro h
          have hsome := h members rfl
          rw [hentries] at hsome
          cases hsome
      | some entries =>
          refine iff_of_true ⟨entries, rfl⟩ ?_
          intro found hfound
          rw [← Option.some.inj hfound, hentries]
          rfl

theorem keyPaths_managerMembers (id : Text) :
    ∀ path ∈ (managerMembers (ν := ν) id).map Prod.fst, IsKeyPath path := by
  show ∀ path ∈ ["Oem/Supermicro/@odata.type".toList,
    "Oem/Supermicro/KCSInterface/@odata.id".toList,
    "Oem/Supermicro/SysLockdown/@odata.id".toList, "EthernetInterfaces/@odata.id".toList,
    "NetworkProtocol/@odata.id".toList, "Manufacturer".toList, "Model".toList,
    "FirmwareVersion".toList], IsKeyPath path
  decide

theorem keyPaths_rootMembers :
    ∀ path ∈ (rootMembers (ν := ν)).map Prod.fst, IsKeyPath path := by
  show ∀ path ∈ ["Vendor".toList, "Product".toList, "Oem".toList], IsKeyPath path
  decide

theorem keyPaths_tpmMembers (bios : Json ν) :
    ∀ path ∈ (tpmMembers bios).map Prod.fst, IsKeyPath path := by
  unfold tpmMembers
  split
  · simp
  · show ∀ path ∈ ["Attributes/SecurityDeviceSupport".toList], IsKeyPath path
    decide

theorem keyPaths_biosMembers (id : Text) :
    ∀ path ∈ (biosMembers (ν := ν) id).map Prod.fst, IsKeyPath path := by
  show ∀ path ∈ ["@Redfish.Settings/@odata.type".toList,
    "@Redfish.Settings/SettingsObject/@odata.id".toList], IsKeyPath path
  decide

theorem exec_dressBios_ok_iff (system : Text) (bios : Json ν) :
    (∃ result, (exec (dressBios host system bios) machine).1 = .ok result) ↔
      IdShown host bios := by
  unfold dressBios IdShown
  rw [exec_bind, exec_setEach (keyPaths_tpmMembers bios), thenExec_ok,
    exec_bind_ok_iff fun id => exec_setEach_ok (keyPaths_biosMembers id) _]
  cases valueAt bios "@odata.id".toList with
  | none =>
      refine iff_of_true ?_ fun _ h => nomatch h
      rw [Option.getD_none, host.shown_string]
      exact ⟨_, rfl⟩
  | some id =>
      rw [Option.getD_some]
      cases hshown : host.shown id with
      | none =>
          refine iff_of_false (fun ⟨_, h⟩ => nomatch h) ?_
          intro h
          have hsome := h id rfl
          rw [hshown] at hsome
          cases hsome
      | some text =>
          refine iff_of_true ⟨text, rfl⟩ ?_
          intro found hfound
          rw [← Option.some.inj hfound, hshown]
          rfl

/-! ### What comes of it is within the limit -/

theorem fits_of_dressSystem {system : Text} {sys result : Json ν}
    (h : Bounded host.serde machine.store)
    (horders : ∀ order, machine.store.entries.lookup (orderKey system) = some order →
      Json.Fits (host.limit - 2) order)
    (hfits : Json.Fits host.limit sys)
    (hresult : (exec (dressSystem host ctx system sys) machine).1 = .ok result) :
    Json.Fits host.limit result := by
  obtain ⟨hkey, hserial⟩ := (exec_dressSystem_ok_iff h system sys).mp ⟨result, hresult⟩
  obtain ⟨serialised, hserial⟩ := (exec_withSerial_ok_iff sys).mpr hserial
  rw [exec_dressSystem h hkey hserial] at hresult
  rw [← Except.ok.inj hresult]
  refine fits_dressedSystem (fits_withSerial hfits hserial) ?_
  cases hlookup : machine.store.entries.lookup (orderKey system) with
  | some order => exact fits_scriptValue (horders order hlookup)
  | none => exact fits_ownOrder_limit hfits

theorem fits_of_dressChassis {id : Text} {chassis result : Json ν}
    (hfits : Json.Fits host.limit chassis)
    (hresult : (exec (dressChassis host ctx id chassis) machine).1 = .ok result) :
    Json.Fits host.limit result := by
  unfold dressChassis at hresult
  rw [exec_bind] at hresult
  cases hserial : exec (chassisSerial host ctx) machine with
  | mk outcome machine' =>
      rw [hserial] at hresult
      cases outcome with
      | error stop => cases hresult
      | ok serial =>
          rw [thenExec_ok, exec_setEach (keyPaths_chassisMembers id serial)] at hresult
          rw [← Except.ok.inj hresult]
          exact fits_chassisMembers hfits id serial

/-- A link is read of a member that is no pair, two levels down. -/
theorem fits_bareLink {d : Nat} {members entry link : Json ν} {entries : List (Json ν)}
    (hfits : Json.Fits (d + 2) members) (hentries : entriesOf host members = some entries)
    (hentry : entry ∈ entries) (hlink : bareLink entry = some link) :
    Json.Fits (d + 1) link := by
  obtain ⟨id, hid, hlink⟩ := Option.map_eq_some_iff.mp hlink
  have hdeep : Json.Fits d id := by
    unfold entriesOf at hentries
    split at hentries
    · rw [← Option.some.inj hentries] at hentry
      have hlength : ("@odata.id".toList.splitOn '/').length = 1 := by decide
      have hfound := (walk_fits (hfits.item hentry) hid).2
      rwa [hlength] at hfound
    · -- the entry of a map is a pair, which has no keys
      rw [← Option.some.inj hentries] at hentry
      obtain ⟨field, _, rfl⟩ := List.mem_map.mp hentry
      cases hid
    · split at hentries
      · rw [← Option.some.inj hentries] at hentry
        cases hentry
      · cases hentries
    · cases hentries
  rw [← hlink]
  refine Json.fits_ofFields ?_
  simp only [List.forall_mem_cons]
  exact ⟨hdeep, by simp⟩

theorem fits_bareLinks {collection : Json ν} {links : List (Json ν)}
    (hfits : Json.Fits host.limit collection)
    (hlinks : (exec (bareLinks host collection) machine).1 = .ok links) :
    Json.Fits (host.limit - 1) (.array links) := by
  have hlimit := host.limit_ge
  rw [show host.limit - 1 = host.limit - 2 + 1 by omega]
  refine .array ?_
  unfold bareLinks at hlinks
  cases hmembers : valueAt collection "Members".toList with
  | none =>
      rw [hmembers] at hlinks
      rw [← Except.ok.inj hlinks]
      simp
  | some members =>
      simp only [hmembers] at hlinks
      have hlength : ("Members".toList.splitOn '/').length = 1 := by decide
      have hdeep := (walk_fits hfits hmembers).2
      rw [hlength, show host.limit - 1 = host.limit - 3 + 2 by omega] at hdeep
      cases hentries : entriesOf host members with
      | none =>
          rw [hentries, exec_bind, exec_orStop_none] at hlinks
          cases hlinks
      | some entries =>
          rw [hentries, exec_bind, exec_orStop_some] at hlinks
          rw [← Except.ok.inj hlinks]
          intro link hlink
          obtain ⟨entry, hentry, hlink⟩ := List.mem_filterMap.mp hlink
          have hfound := fits_bareLink hdeep hentries hentry hlink
          rwa [show host.limit - 3 + 1 = host.limit - 2 by omega] at hfound

theorem fits_of_dressChassisCollection {collection result : Json ν}
    (hfits : Json.Fits host.limit collection)
    (hresult : (exec (dressChassisCollection host collection) machine).1 = .ok result) :
    Json.Fits host.limit result := by
  have hlimit := host.limit_ge
  unfold dressChassisCollection at hresult
  rw [exec_bind] at hresult
  cases hlinks : exec (bareLinks host collection) machine with
  | mk outcome machine' =>
      rw [hlinks] at hresult
      cases outcome with
      | error stop => cases hresult
      | ok links =>
          rw [thenExec_ok, exec_setEach (keyPaths_collection links _)] at hresult
          rw [← Except.ok.inj hresult]
          refine fits_writtenEach hfits ?_
          simp only [List.forall_mem_cons]
          refine ⟨⟨_, fits_bareLinks hfits (congrArg Prod.fst hlinks), ?_⟩, ⟨0, .number _, ?_⟩, by simp⟩
          · have hlength : ("Members".toList.splitOn '/').length = 1 := by decide
            omega
          · exact le_trans (by decide) hlimit

theorem fits_managerMembers {manager : Json ν} (hfits : Json.Fits host.limit manager) (id : Text) :
    Json.Fits host.limit (writtenEach (managerMembers id) manager) := by
  have hlimit := host.limit_ge
  refine fits_writtenEach hfits ?_
  unfold managerMembers
  simp only [List.forall_mem_cons]
  refine ⟨⟨0, .string _, ?_⟩, ⟨0, .string _, ?_⟩, ⟨0, .string _, ?_⟩, ⟨0, .string _, ?_⟩,
    ⟨0, .string _, ?_⟩, ⟨0, .string _, ?_⟩, ⟨0, .string _, ?_⟩, ⟨0, .string _, ?_⟩, by simp⟩
  all_goals exact le_trans (by decide) hlimit

theorem fits_of_dressBios {system : Text} {bios result : Json ν}
    (hfits : Json.Fits host.limit bios)
    (hresult : (exec (dressBios host system bios) machine).1 = .ok result) :
    Json.Fits host.limit result := by
  have hlimit := host.limit_ge
  have htpm : Json.Fits host.limit (writtenEach (tpmMembers bios) bios) := by
    refine fits_writtenEach hfits ?_
    unfold tpmMembers
    split
    · simp
    · simp only [List.forall_mem_cons]
      exact ⟨⟨0, .string _, le_trans (by decide) hlimit⟩, by simp⟩
  unfold dressBios at hresult
  rw [exec_bind, exec_setEach (keyPaths_tpmMembers bios), thenExec_ok] at hresult
  cases hshown : host.shown ((valueAt bios "@odata.id".toList).getD
      (.string (systemPath system ++ "/Bios".toList))) with
  | none =>
      rw [hshown, exec_bind, exec_orStop_none] at hresult
      cases hresult
  | some id =>
      rw [hshown, exec_bind, exec_orStop_some, thenExec_ok,
        exec_setEach (keyPaths_biosMembers id)] at hresult
      rw [← Except.ok.inj hresult]
      refine fits_writtenEach htpm ?_
      unfold biosMembers
      simp only [List.forall_mem_cons]
      refine ⟨⟨0, .string _, ?_⟩, ⟨0, .string _, ?_⟩, by simp⟩
      all_goals exact le_trans (by decide) hlimit

end Dresses
end RedfishProxy.Shipped
