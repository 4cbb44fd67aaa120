import RedfishProxy.Shipped.Successes

/-!
# What the replies of the BMC are answered with

Seven handlers over a network that remembers. Each first asks the BMC for what it
serves, and the record only grows from there, so what is said of all the replies
is said of that one.

Main results:
* `first_received`: the first reply is to the first request, and is good.
* `relay_answered`, `dressed_answered`, …: what a script needs of it.
-/

namespace RedfishProxy.Shipped

open Lib Http Script RuneHost ScriptUtil
open ScriptStore (IsKey Store Bounded)

section Ran

variable {ν σ α : Type}

/-- The replies a handler received, in order. -/
def received (machine : Machine ν (σ × List Exchanged)) : List Reply :=
  machine.world.net.2.filterMap fun exchanged => exchanged.answer.toOption

def Ran (machine machine' : Machine ν (σ × List Exchanged)) : Prop :=
  Longer machine.world machine'.world

instance : Std.Refl (Ran (ν := ν) (σ := σ)) := ⟨fun _ => List.prefix_rfl⟩

instance : IsTrans (Machine ν (σ × List Exchanged)) Ran := ⟨fun _ _ _ h h' => h.trans h'⟩

theorem bmc_ran {action : Action (σ × List Exchanged) α} (h : Moves Longer action) :
    Moves Ran (bmc action : Script ν (σ × List Exchanged) α) :=
  fun machine => h machine.world

theorem ran_of_keepsWorld {script : Script ν (σ × List Exchanged) α} (h : KeepsWorld script) :
    Moves Ran script := by
  intro machine
  show Longer machine.world (exec script machine).2.world
  rw [h machine]
  exact Std.Refl.refl machine.world

variable (host : Rune ν σ) (ctx : RequestCtx)

theorem digestSerial_ran : Moves Ran (digestSerial host.recorded ctx) :=
  (bmc_ran (resolveIds_longer host ctx)).bind fun _ => .pure _

theorem setEach_ran (members : List (Text × Json ν)) (document : Json ν) :
    Moves Ran (setEach members document : Script ν (σ × List Exchanged) (Json ν)) :=
  ran_of_keepsWorld (setEach_keeps members document)

theorem dressSystem_ran (system : Text) (sys : Json ν) :
    Moves Ran (dressSystem host.recorded ctx system sys) := by
  have hserial : Moves Ran (withSerial host.recorded ctx sys) := by
    unfold withSerial
    refine .ite (Moves.bind ?_ fun serial => setEach_ran _ sys) (.pure sys)
    rw [deriveSerial_eq]
    split
    · exact .pure _
    · exact digestSerial_ran host ctx
  exact hserial.bind fun sys => (setEach_ran _ sys).bind fun sys =>
    (ran_of_keepsWorld (Keeps.storeGetOr_world _ _)).bind fun order => setEach_ran _ sys

theorem dressChassis_ran (id : Text) (chassis : Json ν) :
    Moves Ran (dressChassis host.recorded ctx id chassis) := by
  have hserial : Moves Ran (chassisSerial host.recorded ctx) := by
    refine (bmc_ran (resolveIds_longer host ctx)).bind fun ids => ?_
    refine (bmc_ran (subrequest_longer host ctx _ _ _)).bind fun system => ?_
    refine .ite ((ran_of_keepsWorld (Keeps.tryResult _)).bind fun sys => ?_)
      (digestSerial_ran host ctx)
    split
    · exact .pure _
    · split
      · exact .pure _
      · exact digestSerial_ran host ctx
  exact hserial.bind fun serial => setEach_ran _ chassis

theorem dressChassisCollection_ran (collection : Json ν) :
    Moves Ran (dressChassisCollection host.recorded collection) := by
  refine Moves.bind ?_ fun members => setEach_ran _ collection
  unfold bareLinks
  split
  · exact (ran_of_keepsWorld (Keeps.orStop _)).bind fun entries => .pure _
  · exact .pure _

theorem dressBios_ran (system : Text) (bios : Json ν) :
    Moves Ran (dressBios host.recorded system bios) :=
  (setEach_ran _ bios).bind fun bios =>
    (ran_of_keepsWorld (Keeps.orStop _)).bind fun _ => setEach_ran _ bios

theorem dressing_ran {dress : Json ν → Script ν (σ × List Exchanged) (Json ν)}
    (h : ∀ document, Moves Ran (dress document)) (upstream : Forwarded) :
    Moves Ran (dressing host.recorded ctx dress upstream) :=
  .ite (ran_of_keepsWorld (.rewriteForwarded Machine.logs_world upstream))
    ((ran_of_keepsWorld (Keeps.tryResult _)).bind fun document => (h document).bind fun _ =>
      ran_of_keepsWorld (.rewriteScript Machine.logs_world _))

end Ran

/-! ## The first reply -/

section First

variable {ν σ α β : Type} {host : Rune ν σ} {ctx : RequestCtx}
  {machine : Machine ν (σ × List Exchanged)}

theorem received_head {world : World (σ × List Exchanged)} {outbound : Outbound} {reply : Reply}
    (hempty : world.net.2 = []) (hreply : (host.client outbound world.net.1).1 = .ok reply)
    (h : Longer (world.after host.recorded.toHost outbound) machine.world) :
    (received machine).head? = some reply := by
  obtain ⟨more, hmore⟩ := h
  have hlog : machine.world.net.2 = ⟨outbound, .ok reply⟩ :: more := by
    rw [← hmore]
    show world.net.2 ++ [⟨outbound, (host.client outbound world.net.1).1⟩] ++ more = _
    rw [hempty, hreply]
    rfl
  unfold received
  rw [hlog]
  rfl

/-- Nothing is received when the one request there was is not answered. -/
theorem received_nil {world : World (σ × List Exchanged)} {outbound : Outbound}
    {error : TransportError} (hempty : world.net.2 = [])
    (herror : (host.client outbound world.net.1).1 = .error error)
    (h : machine.world = world.after host.recorded.toHost outbound) : received machine = [] := by
  unfold received
  rw [h]
  show (world.net.2 ++ [(⟨outbound, (host.client outbound world.net.1).1⟩ : Exchanged)]).filterMap _ =
    []
  rw [hempty, herror]
  rfl

/-- All that was received is good, and something was. -/
structure WellReceived (host : Rune ν σ) (machine : Machine ν (σ × List Exchanged)) : Prop where
  some : received machine ≠ []
  good : ∀ reply ∈ received machine, Good host reply

/-- **The first request of a handler** is answered by a good reply, when nothing
but good replies is received. -/
theorem first_received {first : Script ν (σ × List Exchanged) α}
    {next : α → Script ν (σ × List Exchanged) β} {outbound : Outbound}
    (hfirst : (exec first machine).2.world = machine.world.after host.recorded.toHost outbound)
    (hnext : ∀ value, Moves Ran (next value))
    (hfailed : ∀ error, (host.client outbound machine.world.net.1).1 = .error error →
      ∀ value, (exec first machine).1 = .ok value → KeepsWorld (next value))
    (hempty : machine.world.net.2 = [])
    (h : WellReceived host (exec (first >>= next) machine).2) :
    ∃ reply, (host.client outbound machine.world.net.1).1 = .ok reply ∧ Good host reply ∧
      (received (exec (first >>= next) machine).2).head? = some reply := by
  cases hanswer : (host.client outbound machine.world.net.1).1 with
  | error error =>
      exfalso
      apply h.some
      refine received_nil hempty hanswer ?_
      rw [← hfirst, exec_bind]
      have hkeeps := hfailed error hanswer
      cases hrun : exec first machine with
      | mk result machine' =>
          rw [hrun] at hkeeps
          cases result with
          | error stop => rfl
          | ok value => exact hkeeps value rfl machine'
  | ok reply =>
      have hran : Longer (exec first machine).2.world (exec (first >>= next) machine).2.world :=
        Moves.after_bind hnext first machine
      rw [hfirst] at hran
      have hhead := received_head hempty hanswer hran
      exact ⟨reply, rfl, h.good reply (List.mem_of_head? hhead), hhead⟩

/-- What the client could not get an answer to, as it is forwarded. -/
def IsFailure (response : Forwarded) : Prop :=
  ∃ status message, response = gatewayFailure status message ∧ (status = 502 ∨ status = 504)

theorem IsFailure.not_success {response : Forwarded} (h : IsFailure response) :
    isSuccess response.status = false := by
  obtain ⟨status, message, rfl, rfl | rfl⟩ := h
  · rfl
  · rfl

theorem IsFailure.status_ne {response : Forwarded} (h : IsFailure response) :
    response.status ≠ 404 := by
  obtain ⟨status, message, rfl, rfl | rfl⟩ := h
  · show (502 : Nat) ≠ 404
    omega
  · show (504 : Nat) ≠ 404
    omega

/-- The same of a handler that forwards its request first. -/
theorem forward_received {next : Forwarded → Script ν (σ × List Exchanged) α}
    (hnext : ∀ response, Moves Ran (next response))
    (hfailed : ∀ response, IsFailure response → KeepsWorld (next response))
    (hempty : machine.world.net.2 = [])
    (h : WellReceived host
      (exec (bmc (forwarded host.recorded.toHost ctx) >>= next) machine).2) :
    ∃ reply, forwardReply host.recorded ctx machine.world.net = .ok reply ∧ Good host reply ∧
      (received (exec (bmc (forwarded host.recorded.toHost ctx) >>= next) machine).2).head? =
        some reply := by
  refine first_received ?_ hnext ?_ hempty h
  · rw [exec_bmc, exec_forwarded]
  · intro error herror response hresponse
    apply hfailed
    rw [exec_bmc, exec_forwarded, client_recorded, herror] at hresponse
    refine ⟨_, _, (Except.ok.inj hresponse).symm, ?_⟩
    cases error.isTimeout
    · exact .inl rfl
    · exact .inr rfl

end First

/-! ## What the scripts do after it -/

section Scripts

variable {ν σ : Type} {host : Rune ν σ} {ctx : RequestCtx}
  {machine : Machine ν (σ × List Exchanged)}

theorem good_recorded {reply : Reply} (h : Good host reply) : Good host.recorded reply :=
  ⟨h.status, h.body⟩

/-- The first reply is one that the script is a success on exactly when `Serves`. -/
def AnsweredBy (host : Rune ν σ) (ctx : RequestCtx)
    (run : Except Stop (Returned ScriptResponse) × Machine ν (σ × List Exchanged))
    (Serves : Reply → Prop) : Prop :=
  WellReceived host run.2 → ∃ reply, (received run.2).head? = some reply ∧
    (isSuccess (answer host.recorded ctx run.1).status = true ↔ Serves reply)

theorem dressing_failed {dress : Json ν → Script ν (σ × List Exchanged) (Json ν)}
    {response : Forwarded} (h : IsFailure response) :
    KeepsWorld (dressing host.recorded ctx dress response) := by
  unfold dressing
  rw [h.not_success, Bool.not_false, Bool.true_or, if_pos rfl]
  exact .rewriteForwarded Machine.logs_world response

theorem relay_answered (hempty : machine.world.net.2 = []) :
    AnsweredBy host ctx (exec (relay host.recorded ctx) machine) fun _ => True := by
  intro h
  have hkeeps : ∀ response, KeepsWorld (rewriteForwarded host.recorded ctx response) :=
    fun response => .rewriteForwarded Machine.logs_world response
  obtain ⟨reply, hreply, hgood, hhead⟩ := forward_received (fun response =>
    ran_of_keepsWorld (hkeeps response)) (fun response _ => hkeeps response) hempty h
  refine ⟨reply, hhead, ?_⟩
  exact iff_of_true (isSuccess_relay hreply (good_recorded hgood)) trivial

theorem dressed_answered {dress : Json ν → Script ν (σ × List Exchanged) (Json ν)}
    (hran : ∀ document, Moves Ran (dress document))
    (hfits : ∀ document result, Json.Fits host.limit document →
      (exec (dress document) (machine.forwarded host.recorded ctx)).1 = .ok result →
        Json.Fits host.limit result)
    (hempty : machine.world.net.2 = []) :
    AnsweredBy host ctx (exec (dressed host.recorded ctx dress) machine) fun reply =>
      Told reply ∧ ∀ document, Documents host.recorded ctx machine.world.net document →
        ∃ result, (exec (dress document) (machine.forwarded host.recorded ctx)).1 = .ok result := by
  intro h
  obtain ⟨reply, hreply, hgood, hhead⟩ := forward_received (dressing_ran host ctx hran)
    (fun response => dressing_failed) hempty h
  exact ⟨reply, hhead, isSuccess_dressed hreply (good_recorded hgood)
    fun document result hdocument => hfits document result hdocument.fits⟩

/-! `service_root.rn` -/

/-- What the root is made of once the request is forwarded. -/
def rootFrom (host : Rune ν σ) (ctx : RequestCtx) (upstream : Forwarded) :
    Script ν σ (Returned ScriptResponse) :=
  if isSuccess upstream.status && isJson upstream.headers then do
    let root ← tryResult (upstream.json host.toHost)
    let root ← setEach rootMembers root
    rewriteScript host ctx (jsonResponse host.toHost 200 root)
  else rewriteScript host ctx (jsonResponse host.toHost 200 synthesisedRoot)

theorem rootFrom_keeps (upstream : Forwarded) : KeepsWorld (rootFrom host ctx upstream) :=
  .ite ((Keeps.tryResult _).bind fun root => (setEach_keeps _ root).bind fun _ =>
    .rewriteScript Machine.logs_world _) (.rewriteScript Machine.logs_world _)

theorem fits_vendorBlock : Json.Fits 2 (vendorBlock : Json ν) := by
  refine Json.fits_ofFields (d := 1) ?_
  simp only [List.forall_mem_cons]
  refine ⟨Json.fits_ofFields (d := 0) ?_, by simp⟩
  simp only [List.forall_mem_cons]
  exact ⟨.string _, by simp⟩

theorem fits_synthesisedRoot : Json.Fits host.limit (synthesisedRoot : Json ν) := by
  have hlink : ∀ path, Json.Fits 2 (link path : Json ν) := by
    intro path
    refine (Json.fits_ofFields (d := 1) ?_)
    simp only [List.forall_mem_cons]
    exact ⟨.string _, by simp⟩
  have hlinks : Json.Fits 3 (.ofFields [("Sessions".toList,
      link "/redfish/v1/SessionService/Sessions")] : Json ν) := by
    refine Json.fits_ofFields (d := 2) ?_
    simp only [List.forall_mem_cons]
    exact ⟨hlink _, by simp⟩
  have hlink' := fun path => (hlink path).mono (show 2 ≤ 3 by decide)
  refine (Json.fits_ofFields (d := 3) ?_).mono (le_trans (by decide) host.limit_ge)
  simp only [List.forall_mem_cons]
  exact ⟨.string _, .string _, .string _, .string _, .string _, .string _, .string _,
    fits_vendorBlock.mono (by decide), hlink' _, hlink' _, hlink' _, hlink' _, hlink' _, hlink' _, hlinks,
    by simp⟩

theorem fits_rootMembers {root : Json ν} (h : Json.Fits host.limit root) :
    Json.Fits host.limit (writtenEach rootMembers root) := by
  have hlimit := host.limit_ge
  refine fits_writtenEach h ?_
  unfold rootMembers
  simp only [List.forall_mem_cons]
  refine ⟨⟨0, .string _, ?_⟩, ⟨0, .string _, ?_⟩, ⟨2, fits_vendorBlock, ?_⟩, by simp⟩
  all_goals exact le_trans (by decide) hlimit

/-- A document that is served as it is handed over is a success. -/
theorem isSuccess_rewriteScript {document : Json ν} (h : Json.Fits host.limit document)
    (machine : Machine ν σ) : isSuccess (answer host ctx (exec (rewriteScript host ctx
      (jsonResponse host.toHost 200 document)) machine).1).status = true := by
  obtain ⟨response, record, hrun, hcarries⟩ := exec_rewriteScript host ctx machine h 200
  rw [hrun, answer_script, status_finishScriptResponse, hcarries.status]
  rfl

theorem isSuccess_rootFrom {reply : Reply} {bytes : List UInt8} (hgood : Good host reply)
    (hbody : reply.body = .ok bytes) (machine : Machine ν σ) :
    isSuccess (answer host ctx
      (exec (rootFrom host ctx (forwardedReply reply bytes)) machine).1).status = true ↔
        Told reply := by
  have hstatus : isSuccess (forwardedReply reply bytes).status = true := hgood.status
  have hheaders : isJson (forwardedReply reply bytes).headers = isJson reply.headers :=
    isJson_copyEndToEnd _
  unfold rootFrom
  rw [hstatus, hheaders, Bool.true_and]
  cases hjson : isJson reply.headers with
  | false =>
      refine iff_of_true (isSuccess_rewriteScript fits_synthesisedRoot machine) ?_
      intro hjson'
      rw [hjson] at hjson'
      cases hjson'
  | true =>
      obtain ⟨bytes', hbody', hempty | hread⟩ := hgood.body
      · obtain rfl : bytes = bytes' := Except.ok.inj (hbody.symm.trans hbody')
        subst hempty
        obtain ⟨fault, hfault⟩ : ∃ fault, (forwardedReply reply []).json host.toHost =
            .error fault := json_forwardedReply_nil hjson
        refine iff_of_false ?_ fun htold => htold hjson hbody
        rw [if_pos rfl, exec_bind, hfault, exec_tryResult_error, thenExec_error,
          status_answer_error]
        exact Bool.false_ne_true
      · obtain rfl : bytes = bytes' := Except.ok.inj (hbody.symm.trans hbody')
        obtain ⟨root, hroot, _⟩ := hread hjson
        have hparse : (forwardedReply reply bytes).json host.toHost = .ok root := by
          unfold Forwarded.json forwardedReply
          simp only [hjson, if_true]
          exact bodyJson_of_scriptFromSlice hroot
        refine iff_of_true ?_ ?_
        · rw [if_pos rfl, exec_bind, hparse, exec_tryResult_ok, thenExec_ok, exec_bind,
            exec_setEach keyPaths_rootMembers, thenExec_ok]
          exact isSuccess_rewriteScript
            (fits_rootMembers (fits_of_scriptFromSlice hroot)) machine
        · intro _ hnil
          obtain ⟨parsed, hparsed, _⟩ := scriptFromSlice_ok_iff.mp hroot
          have hempty := isEmpty_of_fromSlice host hparsed
          rw [Except.ok.inj (hbody.symm.trans hnil)] at hempty
          cases hempty

theorem root_answered (hempty : machine.world.net.2 = []) :
    AnsweredBy host ctx (exec (bmc (forwarded host.recorded.toHost ctx) >>=
      rootFrom host.recorded ctx) machine) Told := by
  intro h
  obtain ⟨reply, hreply, hgood, hhead⟩ := forward_received (fun response =>
    ran_of_keepsWorld (rootFrom_keeps response)) (fun response _ => rootFrom_keeps response)
    hempty h
  obtain ⟨bytes, hbody, _⟩ := hgood.body
  refine ⟨reply, hhead, ?_⟩
  rw [exec_bind, exec_bmc_forwarded hreply hbody, thenExec_ok]
  exact isSuccess_rootFrom (good_recorded hgood) hbody _

/-! `bios.rn` -/

/-- The request again, at the path of the firmware. -/
def biosOutbound (ctx : RequestCtx) (system : Text) (spelling : String) : Outbound where
  method := ctx.parts.method
  url := urlTo ctx.target (systemPath system ++ spelling.toList)
  headers := dispatchHeaders ctx { inbound ctx with path := systemPath system ++ spelling.toList }
  body := (inbound ctx).body

theorem exec_biosRequest {σ : Type} {host : Rune ν σ} (machine : Machine ν σ) (system : Text)
    (spelling : String) :
    exec (biosRequest host ctx system spelling) machine =
      (Except.mapError Stop.error (dispatchedFrom host.toHost (systemPath system ++ spelling.toList)
          (biosOutbound ctx system spelling)
          (host.client (biosOutbound ctx system spelling) machine.world.net).1 >>= intoForwarded),
        { machine with world :=
          machine.world.after host.toHost (biosOutbound ctx system spelling) }) := by
  have hpath : requireAbsolute (systemPath system ++ spelling.toList) = .ok () := by
    have hshape : systemPath system ++ spelling.toList =
        '/' :: ("redfish/v1/Systems/".toList ++ system ++ spelling.toList) := rfl
    refine requireAbsolute_ok hshape ?_
    show some 'r' ≠ some '/'
    decide
  have hset : (inbound ctx).setPath (systemPath system ++ spelling.toList) =
      .ok { inbound ctx with path := systemPath system ++ spelling.toList } := by
    unfold BmcRequest.setPath
    rw [hpath]
    rfl
  have hsend : dispatch ctx { inbound ctx with path := systemPath system ++ spelling.toList } =
      .ok (biosOutbound ctx system spelling) := by
    have hparse : Method.parse (inbound ctx).method = some ctx.parts.method :=
      Method.parse_name ctx.parts.method
    unfold dispatch
    simp only [hpath, hparse]
    rfl
  unfold biosRequest
  rw [hset, exec_bmc]
  show (Except.mapError _ (exec (sendForwarded host.toHost ctx _) machine.world).1, { machine with
    world := (exec (sendForwarded host.toHost ctx _) machine.world).2 }) = _
  rw [exec_sendForwarded host.toHost machine.world hsend]

theorem biosRequest_ran (system : Text) (spelling : String) :
    Moves Ran (biosRequest host.recorded ctx system spelling) :=
  bmc_ran ((Moves.fromResult _).bind fun request => sendForwarded_longer host ctx request)

theorem not_found_of_good {reply : Reply} (h : Good host reply) : reply.status ≠ 404 := by
  intro heq
  have hstatus := h.status
  rw [heq] at hstatus
  cases hstatus

/-- A write that is answered well is not sent again. -/
theorem writeBios_answered (system : Text) (hempty : machine.world.net.2 = []) :
    AnsweredBy host ctx (exec (writeBios host.recorded ctx system) machine) fun _ => True := by
  intro h
  have hnext : ∀ written : Forwarded, Moves Ran (do
      let written ← if written.status = 404
        then biosRequest host.recorded ctx system "/Bios/Settings" else pure written
      rewriteForwarded host.recorded ctx written) := fun written =>
    .ite ((biosRequest_ran system _).bind fun written =>
        ran_of_keepsWorld (.rewriteForwarded Machine.logs_world written))
      ((Moves.pure written).bind fun written =>
        ran_of_keepsWorld (.rewriteForwarded Machine.logs_world written))
  obtain ⟨reply, hreply, hgood, hhead⟩ := first_received
    (congrArg (fun run => run.2.world) (exec_biosRequest machine system "/BIOS/Settings")) hnext
    (by
      -- a request that is not answered is an error, and the handler ends with it
      intro error herror value hvalue
      rw [exec_biosRequest, client_recorded, herror] at hvalue
      cases hvalue) hempty h
  refine ⟨reply, hhead, iff_of_true ?_ trivial⟩
  obtain ⟨bytes, hbody, _⟩ := hgood.body
  have hfirst : exec (biosRequest host.recorded ctx system "/BIOS/Settings") machine =
      (.ok (forwardedReply reply bytes), { machine with
        world := machine.world.after host.recorded.toHost
          (biosOutbound ctx system "/BIOS/Settings") }) := by
    rw [exec_biosRequest, client_recorded, hreply]
    show (Except.mapError Stop.error (intoForwarded reply), _) = _
    rw [intoForwarded_eq hbody]
    rfl
  have hstatus : (forwardedReply reply bytes).status ≠ 404 := not_found_of_good hgood
  unfold writeBios
  rw [exec_bind, hfirst, thenExec_ok, if_neg hstatus, exec_bind, exec_pure, thenExec_ok]
  exact isSuccess_rewriteForwarded (good_recorded hgood) hbody _

theorem readBios_answered (system : Text) (hempty : machine.world.net.2 = []) :
    AnsweredBy host ctx (exec (readBios host.recorded ctx system) machine) fun reply =>
      Told reply ∧ ∀ document, Documents host.recorded ctx machine.world.net document →
        IdShown host.recorded document := by
  intro h
  have hnext : ∀ reply : Forwarded, Moves Ran (do
      let reply ← if reply.status = 404 then biosRequest host.recorded ctx system "/BIOS"
        else pure reply
      dressing host.recorded ctx (dressBios host.recorded system) reply) := fun reply =>
    .ite ((biosRequest_ran system _).bind fun reply =>
        dressing_ran host ctx (dressBios_ran host system) reply)
      ((Moves.pure reply).bind fun reply =>
        dressing_ran host ctx (dressBios_ran host system) reply)
  obtain ⟨reply, hreply, hgood, hhead⟩ := forward_received hnext (by
    intro response hfailure
    rw [if_neg hfailure.status_ne]
    exact fun machine => dressing_failed hfailure machine) hempty h
  obtain ⟨bytes, hbody, _⟩ := hgood.body
  have hstatus : (forwardedReply reply bytes).status ≠ 404 := not_found_of_good hgood
  have hsame : exec (readBios host.recorded ctx system) machine =
      exec (dressed host.recorded ctx (dressBios host.recorded system)) machine := by
    unfold readBios dressed
    rw [exec_bind, exec_bind, exec_bmc_forwarded hreply hbody, thenExec_ok, thenExec_ok,
      if_neg hstatus, exec_bind, exec_pure, thenExec_ok]
  refine ⟨reply, hhead, ?_⟩
  rw [hsame]
  refine (isSuccess_dressed hreply (good_recorded hgood) fun document result hdocument =>
    fits_of_dressBios hdocument.fits).trans (and_congr_right fun _ => ?_)
  exact forall₂_congr fun document _ => exec_dressBios_ok_iff system document

/-! `system_settings.rn` -/

theorem parses_iff_told {reply : Reply} {bytes : List UInt8} (h : Good host reply)
    (hbody : reply.body = .ok bytes) :
    Parses host reply.status (copyEndToEnd reply.headers .new) bytes ↔ Told reply := by
  unfold Parses
  rw [isJson_copyEndToEnd]
  constructor
  · intro hparses hjson hnil
    obtain ⟨document, hdocument⟩ := hparses h.status hjson
    have hempty := isEmpty_of_fromSlice host hdocument
    rw [Except.ok.inj (hbody.symm.trans hnil)] at hempty
    cases hempty
  · intro htold _ hjson
    obtain ⟨bytes', hbody', hnil | hread⟩ := h.body
    · exact absurd (by rw [hbody', hnil]) (htold hjson)
    · obtain rfl : bytes = bytes' := Except.ok.inj (hbody.symm.trans hbody')
      obtain ⟨document, hdocument, _⟩ := hread hjson
      obtain ⟨parsed, hparsed, _⟩ := scriptFromSlice_ok_iff.mp hdocument
      exact ⟨parsed, hparsed⟩

theorem readSettings_answered (system : Text) (hempty : machine.world.net.2 = []) :
    AnsweredBy host ctx (exec (readSettings host.recorded ctx system) machine) Told := by
  intro h
  have hnext : ∀ current : BmcResponse, KeepsWorld (do
      let boot ← currentBoot host.recorded current
      let boot ← setEach (bootMembers system) boot
      rewriteScript host.recorded ctx
        (jsonResponse host.recorded.toHost 200 (settingsDocument system boot))) := by
    intro current
    refine Keeps.bind ?_ fun boot => (setEach_keeps _ boot).bind fun _ =>
      .rewriteScript Machine.logs_world _
    exact .ite ((Keeps.tryResult _).bind fun _ => .pure _) (.pure _)
  obtain ⟨reply, hreply, hgood, hhead⟩ := first_received
    (congrArg (fun run => run.2.world) (exec_getSystem ctx system machine))
    (fun current => ran_of_keepsWorld (hnext current)) (fun _ _ current _ => hnext current)
    hempty h
  refine ⟨reply, hhead, ?_⟩
  obtain ⟨bytes, hbody, _⟩ := hgood.body
  have hcurrent : systemReply host.recorded ctx system machine.world.net =
      .ok ⟨reply.status, copyEndToEnd reply.headers .new, bytes⟩ := systemReply_ok hreply hbody
  rw [← parses_iff_told (good_recorded hgood) hbody]
  by_cases hparses : Parses host.recorded reply.status (copyEndToEnd reply.headers .new) bytes
  · obtain ⟨boot, response, hrun, hcarries⟩ := exec_readSettings machine hcurrent hparses
    refine iff_of_true ?_ hparses
    rw [hrun, answer_script, status_finishScriptResponse, hcarries.status]
    rfl
  · obtain ⟨stop, hstop⟩ := exec_readSettings_error machine fun current hsame => by
      rw [← Except.ok.inj (hcurrent.symm.trans hsame)]
      exact hparses
    refine iff_of_false ?_ hparses
    rw [hstop, status_answer_error]
    exact Bool.false_ne_true

/-! A boot write -/

/-- What is answered for a reply that can be read. -/
theorem overrideStatus_readable {P : Json ν → Prop} {reply : Reply} (h : Readable host P reply) :
    (Told reply → overrideStatus host (.ok reply) = clampStatus reply.status) ∧
      (¬ Told reply → overrideStatus host (.ok reply) = 502) := by
  obtain ⟨bytes, hbody, hread⟩ := h
  obtain ⟨error, herror⟩ := host.fromSlice_nil
  unfold overrideStatus Told
  simp only [hbody]
  cases hjson : isJson reply.headers with
  | false => simp
  | true =>
      simp only [if_true, true_implies]
      rcases hread with rfl | hread
      · simp [herror]
      · obtain ⟨document, hdocument, _⟩ := hread hjson
        obtain ⟨parsed, hparsed, _⟩ := scriptFromSlice_ok_iff.mp hdocument
        have hne : bytes ≠ [] := by
          rintro rfl
          rw [herror] at hparsed
          cases hparsed
        simp [hparsed, hne]

/-- The run of a boot write: nothing was relayed, or one override was. -/
structure Overrides (host : Rune ν σ) (ctx : RequestCtx) (net : σ × List Exchanged)
    (run : Except Stop (Returned ScriptResponse) × Machine ν (σ × List Exchanged)) : Prop where
  either : ∃ system taken,
    ((answer host.recorded ctx run.1).status = bootStatus host.recorded ctx system taken net ∧
        run.2.world.net = bootNet host.recorded ctx system taken net) ∨
      ((answer host.recorded ctx run.1).status = 502 ∧ run.2.world.net = net)

/-- What was received is the reply to the override, and its status is answered. -/
theorem Overrides.received {net : σ × List Exchanged}
    {run : Except Stop (Returned ScriptResponse) × Machine ν (σ × List Exchanged)}
    (h : Overrides host ctx net run) (hempty : net.2 = [])
    (hsome : received run.2 ≠ []) : ∃ reply, Shipped.received run.2 = [reply] ∧
      (answer host.recorded ctx run.1).status = overrideStatus host (.ok reply) := by
  have hquiet : run.2.world.net = net → Shipped.received run.2 = [] := by
    intro hnet
    unfold Shipped.received
    rw [hnet, hempty]
    rfl
  obtain ⟨system, taken, ⟨hstatus, hnet⟩ | ⟨_, hnet⟩⟩ := h.either
  · unfold bootStatus at hstatus
    unfold bootNet at hnet
    split at hnet
    · exact absurd (hquiet hnet) hsome
    · rename_i hcount
      rw [if_neg hcount] at hstatus
      have hreceived : Shipped.received run.2 = [(⟨overrideOutbound host.recorded ctx system
          taken.boot, (host.client (overrideOutbound host.recorded ctx system taken.boot)
            net.1).1⟩ : Exchanged)].filterMap fun exchanged => exchanged.answer.toOption := by
        unfold Shipped.received
        rw [hnet, client_recorded, hempty]
        rfl
      rw [client_recorded] at hstatus
      cases hanswer : (host.client (overrideOutbound host.recorded ctx system taken.boot) net.1).1 with
      | error error =>
          rw [hanswer] at hreceived
          exact absurd hreceived hsome
      | ok reply =>
          rw [hanswer] at hreceived hstatus
          exact ⟨reply, hreceived, hstatus⟩
  · exact absurd (hquiet hnet) hsome

theorem overrides_patchSystem (system : Text) (req : ScriptRequest)
    (machine : Machine ν (σ × List Exchanged)) :
    Overrides host ctx machine.world.net
      (exec (patchSystem host.recorded ctx system req) machine) := by
  refine ⟨system, (bootWrite host.recorded req).taken, ?_⟩
  obtain ⟨_, ⟨_, _, hstatus, hnet⟩ | ⟨_, hstatus, hnet⟩⟩ :=
    exec_patchSystem ctx system req machine
  · exact .inl ⟨hstatus, hnet⟩
  · exact .inr ⟨hstatus, hnet⟩

theorem overrides_patchSettings (system : Text) (req : ScriptRequest)
    (machine : Machine ν (σ × List Exchanged)) :
    Overrides host ctx machine.world.net
      (exec (patchSettings host.recorded ctx system req) machine) := by
  refine ⟨system, (bootWrite host.recorded req).taken, ?_⟩
  obtain ⟨_, ⟨_, hstatus, hnet⟩ | ⟨_, hstatus, hnet⟩⟩ :=
    exec_patchSettings ctx system req machine
  · exact .inl ⟨hstatus, hnet⟩
  · exact .inr ⟨hstatus, hnet⟩

theorem Overrides.answered {net : σ × List Exchanged}
    {run : Except Stop (Returned ScriptResponse) × Machine ν (σ × List Exchanged)}
    (h : Overrides host ctx net run) (hempty : net.2 = []) : AnsweredBy host ctx run Told := by
  intro hwell
  obtain ⟨reply, hreceived, hstatus⟩ := h.received hempty hwell.some
  have hgood : Good host reply := hwell.good reply (by rw [hreceived]; exact List.mem_singleton_self _)
  obtain ⟨htold, hnot⟩ := overrideStatus_readable hgood.body
  refine ⟨reply, by rw [hreceived]; rfl, ?_⟩
  rw [hstatus]
  by_cases h : Told reply
  · rw [htold h, isSuccess_clampStatus]
    exact iff_of_true hgood.status h
  · rw [hnot h]
    exact iff_of_false Bool.false_ne_true h

end Scripts
end RedfishProxy.Shipped
