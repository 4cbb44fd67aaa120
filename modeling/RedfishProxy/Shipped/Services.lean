import RedfishProxy.Shipped.Answered
import RedfishProxy.Shipped.BootHistory

/-!
# When a success of the BMC is answered as one

The seven handlers that put a resource of the BMC before the caller, after any
history of requests. A request is a run over a network that remembers, and all
that is asked of the network is in its record.

Main results:
* `service_answered`: what each handler needs to answer with a success.
* `success_answered_iff`: the same of a served request, and of its status where
  an override was relayed.
-/

namespace RedfishProxy.Shipped

open Lib Http Script RuneHost ScriptUtil
open ScriptStore (IsKey Store Bounded)

inductive Service where
  | systems
  | systemSettings
  | chassis
  | chassisCollection
  | manager
  | serviceRoot
  | bios

section Service

variable {ν σ : Type}

def Service.handler (host : Rune ν σ) : Service → Handler ν σ
  | .systems => Shipped.systems host
  | .systemSettings => Shipped.systemSettings host
  | .chassis => Shipped.chassis host
  | .chassisCollection => Shipped.chassisCollection host
  | .manager => Shipped.manager host
  | .serviceRoot => Shipped.serviceRoot host
  | .bios => Shipped.bios host

/-- The network once the request is forwarded, with no ids known. -/
def asked (host : Rune ν σ) (ctx : RequestCtx) (net : σ) : World (σ × List Exchanged) :=
  ({ ids := none, net := (net, []) } : World _).after host.recorded.toHost (forward ctx)

/-- What a service needs of the first reply, and of the BMC after it. -/
def Service.Serves (host : Rune ν σ) (ctx : RequestCtx) (req : ScriptRequest) (net : σ) :
    Service → Reply → Prop
  | .systems, reply => segment req.path 4 = some [] ∨ Told reply ∧
      (req.method ≠ "PATCH".toList → ∀ system document, segment req.path 4 = some system →
        Documents host.recorded ctx (net, []) document →
          IsKey (orderKey system) ∧ HasSerial host.recorded ctx (asked host ctx net) document)
  | .systemSettings, reply => Told reply
  | .chassis, reply => segment req.path 4 = some [] ∨ Told reply ∧
      ∀ document, Documents host.recorded ctx (net, []) document →
        SystemKnown host.recorded ctx (asked host ctx net)
  | .chassisCollection, reply => Told reply ∧
      ∀ document, Documents host.recorded ctx (net, []) document →
        MembersLoop host.recorded document
  | .manager, reply => segment req.path 4 = some [] ∨ Told reply
  | .serviceRoot, reply => Told reply
  | .bios, reply => isWrite req = true ∨ Told reply ∧
      ∀ document, Documents host.recorded ctx (net, []) document → IdShown host.recorded document

variable {host : Rune ν σ} {ctx : RequestCtx} {req : ScriptRequest} {store : Store (Json ν)}
  {net : σ}

theorem AnsweredBy.congr {run : Except Stop (Returned ScriptResponse) ×
      Machine ν (σ × List Exchanged)} {P Q : Reply → Prop} (h : AnsweredBy host ctx run P)
    (hiff : ∀ reply, P reply ↔ Q reply) : AnsweredBy host ctx run Q := by
  intro hwell
  obtain ⟨reply, hhead, hserved⟩ := h hwell
  exact ⟨reply, hhead, hserved.trans (hiff reply)⟩

/-- A handler that reads the id of its resource off the path asks nothing where
there is none. -/
theorem segment_received {next : Text → Script ν (σ × List Exchanged) (Returned ScriptResponse)}
    (h : received (exec (logInbound host.recorded ctx >>= fun _ =>
      tryOption (segment req.path 4) >>= next) (start store (net, []))).2 ≠ []) :
    ∃ id, segment req.path 4 = some id ∧ exec (logInbound host.recorded ctx >>= fun _ =>
      tryOption (segment req.path 4) >>= next) (start store (net, [])) =
        exec (next id) (opened ctx store (net, [])) := by
  rw [exec_opened, exec_bind] at h ⊢
  cases hsegment : segment req.path 4 with
  | none =>
      rw [hsegment] at h
      exact absurd rfl h
  | some id => exact ⟨id, rfl, rfl⟩

theorem segment_answered {next : Text → Script ν (σ × List Exchanged) (Returned ScriptResponse)}
    {Serves : Reply → Prop}
    (h : ∀ id, segment req.path 4 = some id →
      AnsweredBy host ctx (exec (next id) (opened ctx store (net, []))) Serves) :
    AnsweredBy host ctx (exec (logInbound host.recorded ctx >>= fun _ =>
      tryOption (segment req.path 4) >>= next) (start store (net, []))) Serves := by
  intro hwell
  obtain ⟨id, hid, hrun⟩ := segment_received hwell.some
  rw [hrun] at hwell ⊢
  exact h id hid hwell

theorem systems_answered (hbounded : Bounded host.serde store)
    (horders : ∀ system order, store.entries.lookup (orderKey system) = some order →
      Json.Fits (host.limit - 2) order) :
    AnsweredBy host ctx (exec (systems host.recorded ctx req) (start store (net, [])))
      (Service.systems.Serves host ctx req net) := by
  refine segment_answered fun system hsystem => ?_
  unfold Service.Serves
  rw [hsystem]
  cases system with
  | nil => exact (relay_answered rfl).congr fun _ => iff_of_true trivial (.inl rfl)
  | cons c system =>
      simp only [List.isEmpty_cons, Bool.false_eq_true, if_false, Option.some.injEq, reduceCtorEq,
        false_or]
      by_cases hpatch : req.method = "PATCH".toList
      · rw [if_pos (beq_iff_eq.mpr hpatch)]
        refine ((overrides_patchSystem (c :: system) req _).answered rfl).congr fun reply => ?_
        exact (and_iff_left fun hne => absurd hpatch hne).symm
      · have hforwarded : Bounded host.recorded.serde ((opened ctx store
            ((net, []) : σ × List Exchanged)).forwarded host.recorded ctx).store := hbounded
        rw [if_neg fun h => hpatch (beq_iff_eq.mp h)]
        refine (dressed_answered (dressSystem_ran host ctx (c :: system)) (fun document result hfits =>
          fits_of_dressSystem hforwarded (horders (c :: system)) hfits) rfl).congr fun reply => ?_
        refine and_congr_right fun _ => ⟨?_, ?_⟩
        · intro hall _ system' document hsame hdocument
          rw [← hsame]
          exact (exec_dressSystem_ok_iff hforwarded _ document).mp (hall document hdocument)
        · intro hall document hdocument
          exact (exec_dressSystem_ok_iff hforwarded _ document).mpr
            (hall hpatch _ document rfl hdocument)

theorem systemSettings_answered :
    AnsweredBy host ctx (exec (systemSettings host.recorded ctx req) (start store (net, [])))
      (Service.systemSettings.Serves host ctx req net) := by
  refine segment_answered fun system _ => ?_
  split
  · exact (overrides_patchSettings system req _).answered rfl
  · exact readSettings_answered system rfl

theorem chassis_answered :
    AnsweredBy host ctx (exec (chassis host.recorded ctx req) (start store (net, [])))
      (Service.chassis.Serves host ctx req net) := by
  refine segment_answered fun id hid => ?_
  unfold Service.Serves
  rw [hid]
  cases id with
  | nil => exact (relay_answered rfl).congr fun _ => iff_of_true trivial (.inl rfl)
  | cons c id =>
      simp only [List.isEmpty_cons, Bool.false_eq_true, if_false, Option.some.injEq, reduceCtorEq,
        false_or]
      refine (dressed_answered (dressChassis_ran host ctx (c :: id)) (fun document result hfits =>
        fits_of_dressChassis hfits) rfl).congr fun reply => and_congr_right fun _ => ?_
      exact forall₂_congr fun document _ => exec_dressChassis_ok_iff rfl (c :: id) document

theorem chassisCollection_answered :
    AnsweredBy host ctx (exec (chassisCollection host.recorded ctx req) (start store (net, [])))
      (Service.chassisCollection.Serves host ctx req net) := by
  unfold chassisCollection
  rw [exec_opened]
  refine (dressed_answered (dressChassisCollection_ran host) (fun document result hfits =>
    fits_of_dressChassisCollection hfits) rfl).congr fun reply => and_congr_right fun _ => ?_
  exact forall₂_congr fun document _ => exec_dressChassisCollection_ok_iff document

theorem manager_answered :
    AnsweredBy host ctx (exec (manager host.recorded ctx req) (start store (net, [])))
      (Service.manager.Serves host ctx req net) := by
  refine segment_answered fun id hid => ?_
  unfold Service.Serves
  rw [hid]
  cases id with
  | nil => exact (relay_answered rfl).congr fun _ => iff_of_true trivial (.inl rfl)
  | cons c id =>
      simp only [List.isEmpty_cons, Bool.false_eq_true, if_false, Option.some.injEq, reduceCtorEq,
        false_or]
      have hset := exec_setEach (ν := ν) (σ := σ × List Exchanged) (keyPaths_managerMembers (c :: id))
      refine (dressed_answered (fun document => setEach_ran (managerMembers (c :: id)) document)
        (fun document result hfits hresult => ?_) rfl).congr fun reply => ?_
      · rw [hset document] at hresult
        rw [← Except.ok.inj hresult]
        exact fits_managerMembers hfits (c :: id)
      · exact and_iff_left fun document _ => ⟨_, congrArg Prod.fst (hset document _)⟩

theorem serviceRoot_answered :
    AnsweredBy host ctx (exec (serviceRoot host.recorded ctx req) (start store (net, [])))
      (Service.serviceRoot.Serves host ctx req net) := by
  unfold serviceRoot
  rw [exec_opened]
  exact root_answered rfl

theorem bios_answered :
    AnsweredBy host ctx (exec (bios host.recorded ctx req) (start store (net, [])))
      (Service.bios.Serves host ctx req net) := by
  refine segment_answered fun system _ => ?_
  unfold Service.Serves
  cases isWrite req with
  | true => exact (writeBios_answered system rfl).congr fun _ => iff_of_true trivial (.inl rfl)
  | false =>
      simp only [Bool.false_eq_true, if_false, false_or]
      exact readBios_answered system rfl

/-- **What each handler needs to answer with a success.** -/
theorem service_answered (hbounded : Bounded host.serde store)
    (horders : ∀ system order, store.entries.lookup (orderKey system) = some order →
      Json.Fits (host.limit - 2) order) (service : Service) :
    AnsweredBy host ctx (exec (service.handler host.recorded ctx req) (start store (net, [])))
      (service.Serves host ctx req net) := by
  cases service with
  | systems => exact systems_answered hbounded horders
  | systemSettings => exact systemSettings_answered
  | chassis => exact chassis_answered
  | chassisCollection => exact chassisCollection_answered
  | manager => exact manager_answered
  | serviceRoot => exact serviceRoot_answered
  | bios => exact bios_answered

/-! ## A served request -/

/-- A write whose overrides are relayed. -/
def Service.TakesBoot (req : ScriptRequest) : Service → Prop
  | .systems => req.method = "PATCH".toList ∧ segment req.path 4 ≠ some []
  | .systemSettings => isWrite req = true
  | _ => False

/-- The status of a reply that a script can answer with: it is one of a response,
and the body can be parsed where the script parses it. -/
def KeepsStatus (reply : Reply) : Prop :=
  Told reply ∧ 100 ≤ reply.status ∧ reply.status < 600 ∨ ¬ Told reply ∧ reply.status = 502

theorem overrideStatus_eq_iff {reply : Reply} (h : Readable host (fun _ => True) reply) :
    overrideStatus host (.ok reply) = reply.status ↔ KeepsStatus reply := by
  obtain ⟨htold, hnot⟩ := overrideStatus_readable h
  unfold KeepsStatus
  by_cases hdeclared : Told reply
  · rw [htold hdeclared]
    simp only [hdeclared, true_and, not_true_eq_false, false_and, or_false]
    unfold clampStatus
    split
    · rename_i hrange
      exact iff_of_true rfl hrange
    · rename_i hout
      refine iff_of_false (fun heq => hout ?_) hout
      omega
  · rw [hnot hdeclared]
    simp only [hdeclared, not_false_eq_true, false_and, true_and, false_or]
    exact eq_comm

theorem takesBoot_overrides (service : Service) (h : service.TakesBoot req)
    (hsome : received (exec (service.handler host.recorded ctx req)
      (start store ((net, []) : σ × List Exchanged))).2 ≠ []) :
    Overrides host ctx (net, [])
      (exec (service.handler host.recorded ctx req) (start store (net, []))) := by
  cases service with
  | systems =>
      obtain ⟨id, hid, hrun⟩ := segment_received hsome
      have hne : ¬ id.isEmpty = true := by
        intro hempty
        apply h.2
        rw [hid, List.isEmpty_iff.mp hempty]
      have hsystems : exec (Service.systems.handler host.recorded ctx req)
          (start store ((net, []) : σ × List Exchanged)) = _ := hrun
      rw [hsystems, if_neg hne, if_pos (beq_iff_eq.mpr h.1)]
      exact overrides_patchSystem id req (opened ctx store (net, []))
  | systemSettings =>
      obtain ⟨id, hid, hrun⟩ := segment_received hsome
      have hsettings : exec (Service.systemSettings.handler host.recorded ctx req)
          (start store ((net, []) : σ × List Exchanged)) = _ := hrun
      have hwrite : isWrite req = true := h
      rw [hsettings, if_pos hwrite]
      exact overrides_patchSettings id req (opened ctx store (net, []))
  | _ => exact h.elim

end Service

section Served

variable {ν σ : Type} (host : Rune ν σ) (target : SocketAddrV4) (base : Base)

/-- The response of a service, and the machine it leaves, with the record. -/
def serveService (service : Service) (arrival : Arrival) (store : Store (Json ν)) (net : σ) :
    Response × Machine ν (σ × List Exchanged) :=
  serve host.recorded (service.handler host.recorded) target base arrival store (net, [])

variable {host target base}

/-- **A good reply is answered with a success exactly when the service can serve
it**, and the status of a relayed override is the reply's exactly when it is
kept. -/
theorem success_answered_iff {history : History ν} (hhistory : IsHistory host target base history)
    (service : Service) (arrival : Arrival) (net : σ) :
    (WellReceived host
        (serveService host target base service arrival (storeOf host history) net).2 →
      ∃ reply, (received (serveService host target base service arrival
          (storeOf host history) net).2).head? = some reply ∧
        (isSuccess (serveService host target base service arrival
            (storeOf host history) net).1.status = true ↔
          service.Serves host (arrival.ctx target base)
            (scriptRequest arrival.parts arrival.body) net reply)) ∧
      (service.TakesBoot (scriptRequest arrival.parts arrival.body) →
        received (serveService host target base service arrival (storeOf host history) net).2 ≠ [] →
        ∃ reply, received (serveService host target base service arrival
            (storeOf host history) net).2 = [reply] ∧
          (Readable host (fun _ => True) reply →
            ((serveService host target base service arrival
              (storeOf host history) net).1.status = reply.status ↔ KeepsStatus reply))) := by
  refine ⟨?_, ?_⟩
  · exact service_answered (storeOf_bounded history)
      (fun system order h => fits_stored hhistory h) service
  · intro htakes hsome
    obtain ⟨reply, hreceived, hstatus⟩ :=
      (takesBoot_overrides service htakes hsome).received rfl hsome
    refine ⟨reply, hreceived, fun hreadable => ?_⟩
    rw [← overrideStatus_eq_iff hreadable, ← hstatus]
    rfl

end Served

/-! ## An override that is answered without a body -/

/-- A BMC with one reply, whatever is asked. -/
def replyHost (reply : Reply) : Rune Nat Unit := serdeHost fun _ net => (.ok reply, net)

def overrideOnly : Json.Fields Nat := [("BootSourceOverrideTarget".toList, .string "Pxe".toList)]

/-- The answer to an override, and the record of it. -/
theorem serve_overrideOnly (reply : Reply) :
    received (serveService (replyHost reply) bmcTarget proxyBase .systems (bootPatch overrideOnly)
        ScriptStore.new ()).2 = [reply] ∧
      (serveService (replyHost reply) bmcTarget proxyBase .systems (bootPatch overrideOnly)
        ScriptStore.new ()).1.status = overrideStatus (replyHost reply) (.ok reply) := by
  have hwrite : bootWrite (replyHost reply).recorded (scriptRequest (bootPatch overrideOnly).parts
      (bootPatch overrideOnly).body) = ⟨overrideOnly, .ok ()⟩ :=
    (bootWrite_bootPatch _ (((Json.Fits.string _).one_field _).one_field _)).trans rfl
  show received (serveSystem (replyHost reply).recorded bmcTarget proxyBase (bootPatch overrideOnly)
      ScriptStore.new ((), [])).2 = _ ∧ (serveSystem (replyHost reply).recorded bmcTarget proxyBase
        (bootPatch overrideOnly) ScriptStore.new ((), [])).1.status = _
  rw [serveSystem_patch (patchesSystem_bootPatch overrideOnly)]
  obtain ⟨_, hrun⟩ := @exec_patchSystem Nat (Unit × List Exchanged) (replyHost reply).recorded
    ((bootPatch overrideOnly).ctx bmcTarget proxyBase) systemOne
    (scriptRequest (bootPatch overrideOnly).parts (bootPatch overrideOnly).body)
    (opened ((bootPatch overrideOnly).ctx bmcTarget proxyBase) ScriptStore.new ((), []))
  rw [hwrite] at hrun
  rcases hrun with ⟨_, _, hstatus, hnet⟩ | ⟨hnot, _⟩
  · refine ⟨?_, hstatus⟩
    unfold received
    rw [hnet]
    rfl
  · exact absurd ⟨rfl, rfl⟩ hnot

/-- Declared JSON, and empty. -/
def untoldReply : Reply where
  status := 204
  headers := typeHeader "application/json".toList
  body := .ok []

/-- **The override lands, and the caller is told that it failed.** -/
theorem landed_override_fails :
    WellReceived (replyHost untoldReply) (serveService (replyHost untoldReply) bmcTarget proxyBase
        .systems (bootPatch overrideOnly) ScriptStore.new ()).2 ∧
      received (serveService (replyHost untoldReply) bmcTarget proxyBase .systems
        (bootPatch overrideOnly) ScriptStore.new ()).2 = [untoldReply] ∧
      isSuccess untoldReply.status = true ∧
      (serveService (replyHost untoldReply) bmcTarget proxyBase .systems (bootPatch overrideOnly)
        ScriptStore.new ()).1.status = 502 := by
  obtain ⟨hreceived, hstatus⟩ := serve_overrideOnly untoldReply
  have hgood : Good (replyHost untoldReply) untoldReply := ⟨rfl, [], rfl, .inl rfl⟩
  refine ⟨⟨?_, ?_⟩, hreceived, rfl, hstatus.trans ?_⟩
  · rw [hreceived]
    exact List.cons_ne_nil _ _
  · intro reply hreply
    rw [hreceived] at hreply
    obtain rfl := List.mem_singleton.mp hreply
    exact hgood
  · refine (overrideStatus_readable hgood.body).2 fun htold => ?_
    exact htold isJson_typeHeader rfl

/-- With nothing declared. -/
def plainReply : Reply := { untoldReply with headers := .new }

/-- The same override, answered so. -/
theorem success_answered_iff_plain :
    isSuccess (serveService (replyHost plainReply) bmcTarget proxyBase .systems
        (bootPatch overrideOnly) (storeOf (replyHost plainReply) []) ()).1.status = true ∧
      (serveService (replyHost plainReply) bmcTarget proxyBase .systems (bootPatch overrideOnly)
        (storeOf (replyHost plainReply) []) ()).1.status = 204 := by
  obtain ⟨hreceived, _⟩ := serve_overrideOnly plainReply
  have htold : Told plainReply := by
    intro hjson
    exact absurd hjson (by decide)
  have hgood : Good (replyHost plainReply) plainReply := ⟨rfl, [], rfl, .inl rfl⟩
  have hhistory : IsHistory (replyHost plainReply) bmcTarget proxyBase [] :=
    fun call hcall => nomatch hcall
  obtain ⟨hsuccess, hkeeps⟩ :=
    success_answered_iff hhistory .systems (bootPatch overrideOnly) ()
  have hone : received (serveService (replyHost plainReply) bmcTarget proxyBase .systems
      (bootPatch overrideOnly) (storeOf (replyHost plainReply) []) ()).2 = [plainReply] := hreceived
  have hpatch : (scriptRequest (bootPatch overrideOnly).parts (bootPatch overrideOnly).body).method =
      "PATCH".toList := rfl
  rw [hone] at hsuccess hkeeps
  constructor
  · obtain ⟨reply, hhead, hserves⟩ := hsuccess ⟨by rw [hone]; exact List.cons_ne_nil _ _, by
      rw [hone]
      intro reply hreply
      rw [List.mem_singleton.mp hreply]
      exact hgood⟩
    obtain rfl : plainReply = reply := Option.some.inj hhead
    exact hserves.mpr (.inr ⟨htold, fun hne => absurd hpatch hne⟩)
  · obtain ⟨reply, hlist, hstatus⟩ := hkeeps ⟨hpatch, by decide⟩ (List.cons_ne_nil _ _)
    obtain rfl : plainReply = reply := List.head_eq_of_cons_eq hlist
    exact (hstatus ⟨[], rfl, .inl rfl⟩).mpr (.inl ⟨htold, by decide, by decide⟩)

end RedfishProxy.Shipped
