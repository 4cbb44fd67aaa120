import RedfishProxy.Shipped.Lockdown

/-!
# What a kept resource reads back

Every interleaving of requests is an order of their calls. In that order a
resource is a cell: a write answered 204 puts the sent value into it, a reset
drops it, and everything else keeps it. A read reports the cell, or the default.

Main results:
* `exec_cases`: everything a request can do to the store.
* `cell_after`: the cell of a resource after a history.
* `lockdown_reads_back`: what the answers are, in every interleaving.
-/

namespace RedfishProxy.Shipped

open Lib Http Script RuneHost ScriptUtil ScriptStore

section History

variable {ν σ : Type} (host : Rune ν σ) (target : SocketAddrV4) (base : Base)

/-- What the body of a request has for the member of a resource. -/
def LockdownRequest.sent (request : LockdownRequest) (r : Resource) : Option (Json ν) :=
  match bodyJson host.toHost request.req.body "request".toList with
  | .ok body => valueAt body (r.setting (ν := ν)).member
  | .error _ => none

/-- What a request means for a resource, going by its answer. -/
def cellEffect (r : Resource) (event : LockdownRequest × Response) : Effect (Json ν) :=
  if event.2.status = 204 then
    if event.1.script = .smcManagerConfigReset then .drop
    else if event.1.Writes r then
      match event.1.sent host r with
      | some value => .put value
      | none => .keep
    else .keep
  else .keep

/-- The bounds of the store, and only accepted values in the cells. -/
structure Settled (store : Store (Json ν)) : Prop where
  bounded : Bounded host.serde store
  accepted : ∀ (r : Resource) value, store.entries.lookup r.key = some value →
    r.setting.accepts value = true

theorem new_settled : Settled host (ScriptStore.new : Store (Json ν)) := by
  refine ⟨new_bounded, ?_⟩
  intro r value h
  cases h

/-! ## What a request can do -/

/-- The reset names no resource. -/
theorem script_ne_reset {request : LockdownRequest} {r : Resource}
    (h : request.resource = some r) : request.script ≠ .smcManagerConfigReset := by
  intro hscript
  have hnone : request.resource = none := by
    unfold LockdownRequest.resource
    rw [hscript]
    rfl
  rw [h] at hnone
  cases hnone

theorem plan_of_ne {request : LockdownRequest}
    (h : request.script ≠ .smcManagerConfigReset) :
    request.plan host target base =
      match request.resource with
      | none => Plan.alone (.error .none)
      | some r =>
        settingPlan host (request.ctx target base) r.setting r.key r.document request.req := by
  unfold LockdownRequest.plan
  cases hs : request.script with
  | smcManagerConfigReset => exact absurd hs h
  | sysLockdown => rfl
  | kcsInterface => rfl
  | hostInterface => rfl
  | secureBoot => rfl

variable {host} {store : Store (Json ν)}

/-- A value a write gives is sent by it. -/
theorem sent_of_given {request : LockdownRequest} {r : Resource} {value : Json ν}
    (h : givenValue host r.setting request.req = .ok (some value)) :
    request.sent host r = some value ∧ r.setting.accepts value = true := by
  unfold givenValue at h
  unfold LockdownRequest.sent
  split at h
  · cases hbody : bodyJson host.toHost request.req.body "request".toList with
    | error fault =>
        rw [hbody] at h
        cases h
    | ok body =>
        rw [hbody] at h
        injection h with h
        exact Option.filter_eq_some_iff.mp h
  · cases h

/-- A read is answered by what it found, never by a 204. -/
theorem status_readResult (ctx : RequestCtx) (document : Json ν → Option (Json ν))
    (value : Json ν) : (answer host ctx (readResult host ctx document value)).status ≠ 204 := by
  unfold readResult
  cases document value with
  | none =>
      rw [status_answer_error]
      decide
  | some built =>
      show (answer host ctx ((((jsonResponse host.toHost 200 built).rewrite host.toHost ctx).map
        Returned.script).mapError Stop.error)).status ≠ 204
      cases hrewrite : (jsonResponse host.toHost 200 built).rewrite host.toHost ctx with
      | error fault =>
          show (answer host ctx (.error (.error fault))).status ≠ 204
          rw [status_answer_error]
          decide
      | ok response =>
          show response.status ≠ 204
          rw [status_rewrite hrewrite]
          rcases status_jsonResponse host.toHost 200 built with h | h
          · rw [h]
            decide
          · rw [h]
            decide

theorem status_readPlan (ctx : RequestCtx) (setting : Setting ν) (key : Text)
    (document : Json ν → Option (Json ν)) (reply : Except Text (Reply (Json ν))) :
    (answer host ctx ((readPlan host ctx setting key document).result (some reply))).status
      ≠ 204 := by
  have hstop : ∀ stop, (answer host ctx (.error stop)).status ≠ 204 := by
    intro stop
    rw [status_answer_error]
    decide
  cases reply with
  | error text => exact hstop _
  | ok reply =>
      cases reply with
      | valueOr value => exact status_readResult ctx document value
      | value value => exact hstop _
      | done => exact hstop _
      | removed was => exact hstop _
      | removedPrefix count => exact hstop _
      | held is => exact hstop _

/-- A write, by what it gives. -/
theorem write_cases (store : Store (Json ν)) (ctx : RequestCtx) (setting : Setting ν) (key : Text) (req : ScriptRequest) :
    let plan := writePlan host setting key req
    ((answer host ctx (plan.result (plan.replyFrom host store).1)).status ≠ 204 ∧
        (plan.replyFrom host store).2 = store) ∨
      ((answer host ctx (plan.result (plan.replyFrom host store).1)).status = 204 ∧
        ∃ value, givenValue host setting req = .ok (some value) ∧
          (plan.replyFrom host store).2 =
            { store with entries := store.entries.insert key value }) := by
  intro plan
  have hplan : plan = writePlan host setting key req := rfl
  unfold writePlan at hplan
  cases hgiven : givenValue host setting req with
  | error fault =>
      rw [hgiven] at hplan
      rw [hplan]
      refine .inl ⟨?_, rfl⟩
      show (answer host ctx (.error (.error fault))).status ≠ 204
      rw [status_answer_error]
      decide
  | ok given =>
      rw [hgiven] at hplan
      cases given with
      | none =>
          rw [hplan]
          refine .inl ⟨?_, rfl⟩
          show (jsonResponse host.toHost 400 (errorDocument setting.refusal)).status ≠ 204
          rcases status_jsonResponse host.toHost 400 (errorDocument setting.refusal) with h | h
          · rw [h]
            decide
          · rw [h]
            decide
      | some value =>
          have hreply : plan.replyFrom host store =
              (some (step host.serde store ⟨some 0, .set key value⟩).1,
                next host.serde store ⟨some 0, .set key value⟩) := by
            rw [hplan]
            rfl
          rw [hreply, next]
          rcases step_set_cases host store key value with ⟨text, hstep⟩ | hstep
          · rw [hstep, hplan]
            refine .inl ⟨?_, rfl⟩
            show (answer host ctx (.error (.error [.display text]))).status ≠ 204
            rw [status_answer_error]
            decide
          · rw [hstep, hplan]
            exact .inr ⟨rfl, value, rfl, rfl⟩

/-- **Everything a request can do**: nothing, and no 204; a reset; a write. -/
theorem exec_cases (h : Settled host store) (request : LockdownRequest) :
    let ended := (lockdownCaller host target base).exec store request
    (ended.1.status ≠ 204 ∧ ended.2 = store) ∨
      (ended.1.status = 204 ∧ request.script = .smcManagerConfigReset ∧
        ended.2 = { store with
          entries := withoutPrefix store.entries "supermicro/".toList }) ∨
      (ended.1.status = 204 ∧ request.script ≠ .smcManagerConfigReset ∧
        ∃ r value, request.Writes r ∧ request.sent host r = some value ∧
          r.setting.accepts value = true ∧
          ended.2 = { store with entries := store.entries.insert r.key value }) := by
  intro ended
  have hended : ended = (answer host (request.ctx target base)
      ((request.plan host target base).result
        ((request.plan host target base).replyFrom host store).1),
      ((request.plan host target base).replyFrom host store).2) := by
    show Caller.exec _ store request = _
    unfold Caller.exec
    rw [replyTo_lockdownCaller]
    rfl
  rw [hended]
  clear hended ended
  have hreset : request.script = .smcManagerConfigReset →
      request.plan host target base = resetPlan := by
    intro hscript
    unfold LockdownRequest.plan
    rw [hscript]
  by_cases hscript : request.script = .smcManagerConfigReset
  · -- the reset goes through, on a bounded store
    have hkey : IsKey "supermicro/".toList := ⟨by decide, by decide⟩
    have hreply : resetPlan.replyFrom host store =
        (some (step host.serde store ⟨some 0, .removePrefix "supermicro/".toList⟩).1,
          next host.serde store ⟨some 0, .removePrefix "supermicro/".toList⟩) := rfl
    rw [hreset hscript, hreply, next, step_removePrefix host.serde h.bounded hkey 0]
    exact .inr (.inl ⟨rfl, hscript, rfl⟩)
  · have hplan := plan_of_ne host target base hscript
    cases hresource : request.resource with
    | none =>
        rw [hplan, hresource]
        refine .inl ⟨?_, rfl⟩
        show (answer host (request.ctx target base) (.error .none)).status ≠ 204
        rw [status_answer_error]
        decide
    | some r =>
        rw [hplan, hresource]
        unfold settingPlan
        cases hwrite : isWrite request.req with
        | true =>
            rcases write_cases store (request.ctx target base) r.setting r.key request.req with hkeep | ⟨hstatus, value, hgiven, hstore⟩
            · exact .inl hkeep
            · obtain ⟨hsent, haccepts⟩ := sent_of_given hgiven
              exact .inr (.inr ⟨hstatus, hscript, r, value, ⟨hresource, hwrite⟩, hsent, haccepts,
                hstore⟩)
        | false =>
            refine .inl ⟨?_, rfl⟩
            show (answer host (request.ctx target base)
              ((readPlan host (request.ctx target base) r.setting r.key r.document).result
                (some (step host.serde store ⟨some 0, .getOr r.key r.setting.fallback⟩).1))).status
                ≠ 204
            exact status_readPlan _ _ _ _ _

/-! ## The cell of a resource -/

theorem withoutPrefix_key (store : Store (Json ν)) (r : Resource) :
    (withoutPrefix store.entries "supermicro/".toList).lookup r.key = none := by
  rw [lookup_withoutPrefix, if_pos]
  exact List.isPrefixOf_iff_prefix.mpr r.prefix_key

/-- **A request treats the cell of a resource as its answer says.** -/
theorem lookup_exec (h : Settled host store) (request : LockdownRequest) (r : Resource) :
    ((lockdownCaller host target base).exec store request).2.entries.lookup r.key =
      (cellEffect host r (request, ((lockdownCaller host target base).exec store request).1)).apply
        (store.entries.lookup r.key) := by
  unfold cellEffect
  rcases exec_cases target base h request with
    ⟨hstatus, hstore⟩ | ⟨hstatus, hscript, hstore⟩ |
    ⟨hstatus, hscript, r', value, hwrites, hsent, _, hstore⟩
  · rw [if_neg hstatus, hstore]
    rfl
  · rw [if_pos hstatus, if_pos hscript, hstore]
    exact withoutPrefix_key store r
  · rw [if_pos hstatus, if_neg hscript, hstore]
    show (store.entries.insert r'.key value).lookup r.key = _
    rw [KeyMap.lookup_insert_eq]
    by_cases hr : r = r'
    · subst hr
      rw [if_pos rfl, if_pos hwrites, hsent]
      rfl
    · -- the request names one resource, and keys are not shared
      have hkey : r.key ≠ r'.key := fun hkey => hr (Resource.key_injective hkey)
      have hnot : ¬ request.Writes r := by
        intro hw
        have hsame := hw.1.symm.trans hwrites.1
        injection hsame with hsame
        exact hr hsame
      rw [if_neg hkey, if_neg hnot]
      rfl

theorem exec_settled (h : Settled host store) (request : LockdownRequest) :
    Settled host ((lockdownCaller host target base).exec store request).2 := by
  have hbounded : Bounded host.serde ((lockdownCaller host target base).exec store request).2 := by
    unfold Caller.exec
    rw [replyTo_lockdownCaller]
    unfold Plan.replyFrom
    cases (request.plan host target base).op with
    | none => exact h.bounded
    | some op => exact next_bounded h.bounded _
  refine ⟨hbounded, ?_⟩
  intro r value hlookup
  rcases exec_cases target base h request with
    ⟨_, hstore⟩ | ⟨_, _, hstore⟩ | ⟨_, _, r', value', _, _, haccepts, hstore⟩
  · rw [hstore] at hlookup
    exact h.accepted r value hlookup
  · rw [hstore] at hlookup
    change (withoutPrefix store.entries "supermicro/".toList).lookup r.key = _ at hlookup
    rw [withoutPrefix_key] at hlookup
    cases hlookup
  · rw [hstore] at hlookup
    change (store.entries.insert r'.key value').lookup r.key = _ at hlookup
    rw [KeyMap.lookup_insert_eq] at hlookup
    split at hlookup
    · rename_i hkey
      obtain rfl := Resource.key_injective hkey
      injection hlookup with hlookup
      rw [← hlookup]
      exact haccepts
    · exact h.accepted r value hlookup

variable (host)

/-- The store after these requests, one after the other. -/
def storeAfter (requests : List LockdownRequest) : Store (Json ν) :=
  after (leaves (lockdownCaller host target base).exec) ScriptStore.new requests

theorem storeAfter_settled (requests : List LockdownRequest) :
    Settled host (storeAfter host target base requests) :=
  (Visits.last requests).invariant (new_settled host) fun _ request h =>
    exec_settled target base h request

variable {host}

/-! ## Reading -/

/-- The response reports this value for the member of the resource. -/
def Reports (host : Rune ν σ) (r : Resource) (response : Response) (value : Json ν) : Prop :=
  response.status = 200 ∧ ∃ document, Shows host response document ∧
    document.get (r.setting (ν := ν)).member = some value

/-- A read asks for the cell, whatever else the store holds. -/
theorem plan_of_reads {request : LockdownRequest} {r : Resource} (h : request.Reads r) :
    request.plan host target base =
      readPlan host (request.ctx target base) r.setting r.key r.document := by
  rw [plan_of_ne host target base (script_ne_reset h.1), h.1]
  simp only [settingPlan, h.2, Bool.false_eq_true, if_false]

/-- **A read reports its cell**, or the default of an empty one. -/
theorem reports_exec (h : Settled host store) {request : LockdownRequest} {r : Resource}
    (hreads : request.Reads r) (hkey : IsKey r.key) :
    Reports host r ((lockdownCaller host target base).exec store request).1
      ((store.entries.lookup r.key).getD r.setting.fallback) := by
  have haccepts : r.setting.accepts
      ((store.entries.lookup r.key).getD r.setting.fallback) = true := by
    cases hlookup : store.entries.lookup r.key with
    | some value => exact h.accepted r value hlookup
    | none => cases r <;> rfl
  have hvalue : ((store.entries.lookup r.key).map host.scriptValue).getD r.setting.fallback =
      (store.entries.lookup r.key).getD r.setting.fallback := by
    cases hlookup : store.entries.lookup r.key with
    | some value => exact Resource.scriptValue_of_accepts host (h.accepted r value hlookup)
    | none => rfl
  obtain ⟨document, hdocument, hfits, hmember⟩ := Resource.document_of_accepts haccepts
  obtain ⟨response, hresponse, hcarries⟩ := rewrite_jsonResponse host (request.ctx target base)
    (hfits.mono (by have := host.limit_ge; omega)) 200
  have hexec : ((lockdownCaller host target base).exec store request).1 =
      finishScriptResponse response := by
    unfold Caller.exec
    rw [replyTo_lockdownCaller]
    show answer host (request.ctx target base) ((request.plan host target base).result
      ((request.plan host target base).replyFrom host store).1) = _
    rw [plan_of_reads target base hreads]
    show answer host (request.ctx target base)
      ((readPlan host (request.ctx target base) r.setting r.key r.document).result
        (some (step host.serde store ⟨some 0, .getOr r.key r.setting.fallback⟩).1)) = _
    rw [step_getOr_eq h.bounded hkey, hvalue]
    show answer host (request.ctx target base) (readResult host (request.ctx target base)
      r.document ((store.entries.lookup r.key).getD r.setting.fallback)) = _
    unfold readResult
    rw [hdocument]
    simp only [hresponse]
    rfl
  rw [hexec]
  refine ⟨hcarries.status, _, hcarries.shows, ?_⟩
  rw [get_served, hmember, Option.map_some, Resource.served_of_accepts host _ haccepts]

/-- **A write of an accepted value is answered 204**, where the key and the
encoded value are short enough and the store has room. -/
theorem status_write (h : Settled host store) {request : LockdownRequest} {r : Resource}
    (hwrites : request.Writes r) {value : Json ν}
    (hgiven : givenValue host r.setting request.req = .ok (some value)) (hkey : IsKey r.key)
    (haccepts : Accepts host.serde value value) (hroom : HasRoom store.entries r.key) :
    ((lockdownCaller host target base).exec store request).1.status = 204 := by
  have hset := set_ok hkey haccepts h.bounded.unpoisoned hroom 0
  have hstep : step host.serde store ⟨some 0, .set r.key value⟩ =
      (.ok .done, { store with entries := store.entries.insert r.key value }) := by
    simp only [step, hset]
  have hplan : request.plan host target base =
      Plan.calls (.set r.key value) fun _ => .ok (.script (statusResponse 204)) := by
    rw [plan_of_ne host target base (script_ne_reset hwrites.1), hwrites.1]
    simp only [settingPlan, hwrites.2, if_true, writePlan, hgiven]
  unfold Caller.exec
  rw [replyTo_lockdownCaller]
  show (answer host (request.ctx target base) ((request.plan host target base).result
    ((request.plan host target base).replyFrom host store).1)).status = 204
  rw [hplan]
  show (answer host (request.ctx target base)
    ((Plan.calls (.set r.key value) fun _ => .ok (.script (statusResponse 204))).result
      (some (step host.serde store ⟨some 0, .set r.key value⟩).1))).status = 204
  rw [hstep]
  rfl

/-- `get_or` looks at its own key alone. -/
theorem step_getOr_congr {store' : Store (Json ν)} (h : Bounded host.serde store)
    (h' : Bounded host.serde store') {key : Text} (fallback : Json ν)
    (hlookup : store'.entries.lookup key = store.entries.lookup key) :
    (step host.serde store' ⟨some 0, .getOr key fallback⟩).1 =
      (step host.serde store ⟨some 0, .getOr key fallback⟩).1 := by
  by_cases hkey : IsKey key
  · rw [step_getOr host.serde h hkey, step_getOr host.serde h' hkey, hlookup]
  · cases hcheck : checkKey key with
    | ok u => exact absurd ((checkKey_ok_iff key).mp hcheck) hkey
    | error text =>
        simp only [step, getOr, ScriptStore.get, lockFor, hcheck]
        rfl

/-- **A write to one resource does not change what another reads back.** -/
theorem exec_read_of_write (h : Settled host store) {write read : LockdownRequest}
    {r r' : Resource} (hwrites : write.Writes r) (hne : r' ≠ r) (hreads : read.Reads r') :
    ((lockdownCaller host target base).exec
        ((lockdownCaller host target base).exec store write).2 read).1 =
      ((lockdownCaller host target base).exec store read).1 := by
  have hstore : ∀ store : Store (Json ν), ((lockdownCaller host target base).exec store read).1 =
      answer host (read.ctx target base)
        ((readPlan host (read.ctx target base) r'.setting r'.key r'.document).result
          (some (step host.serde store ⟨some 0, .getOr r'.key r'.setting.fallback⟩).1)) := by
    intro store
    unfold Caller.exec
    rw [replyTo_lockdownCaller]
    show answer host (read.ctx target base) ((read.plan host target base).result
      ((read.plan host target base).replyFrom host store).1) = _
    rw [plan_of_reads target base hreads]
    rfl
  have hlookup := lookup_exec target base h write r'
  have hscript := script_ne_reset hwrites.1
  have hnot : ¬ write.Writes r' := by
    intro hw
    have hsame := hw.1.symm.trans hwrites.1
    injection hsame with hsame
    exact hne hsame
  have hkeep : cellEffect host r'
      (write, ((lockdownCaller host target base).exec store write).1) = .keep := by
    unfold cellEffect
    rw [if_neg hscript, if_neg hnot]
    split <;> rfl
  rw [hkeep] at hlookup
  have hafter := (exec_settled target base h write).bounded
  rw [hstore, hstore, step_getOr_congr h.bounded hafter r'.setting.fallback hlookup]

variable (host)

/-- **The cell of a resource holds the last write that counts.** -/
theorem cell_after (requests : List LockdownRequest) (r : Resource) (value : Json ν) :
    (storeAfter host target base requests).entries.lookup r.key = some value ↔
      LastPut (cellEffect host r)
        (trace (lockdownCaller host target base).exec ScriptStore.new requests) value := by
  have hview : (storeAfter host target base requests).entries.lookup r.key =
      valueAfter (cellEffect host r) none
        (trace (lockdownCaller host target base).exec ScriptStore.new requests) :=
    view_after (fun store : Store (Json ν) => store.entries.lookup r.key)
      (fun _ request (h : Settled host _) => exec_settled target base h request)
      (fun _ request h => lookup_exec target base h request r) (new_settled host) requests
  rw [hview, valueAfter_eq_some_iff]

/-- What an answer owes its caller, where the log has this in front of it. -/
structure Owes (done : List (Nat × LockdownRequest × Response)) (request : LockdownRequest)
    (response : Response) : Prop where
  /-- It is what the handler comes to on the store at its call. -/
  served : ∀ net, response = (serve host (request.script.handler host) target base
    request.arrival (storeAfter host target base (done.map fun e => e.2.1)) net).1
  /-- A read reports the last write that was answered 204 since the last reset. -/
  reads : ∀ r : Resource, request.Reads r → r.key.byteLen ≤ MAX_KEY_LEN →
    (∀ value, LastPut (cellEffect host r) (done.map Prod.snd) value →
      Reports host r response value) ∧
    ((¬ ∃ value, LastPut (cellEffect host r) (done.map Prod.snd) value) →
      Reports host r response r.setting.fallback)
  /-- A refused write changes nothing. -/
  refused : response.status = 400 → ∀ net, (serve host (request.script.handler host) target base
    request.arrival (storeAfter host target base (done.map fun e => e.2.1)) net).2.store =
      storeAfter host target base (done.map fun e => e.2.1)
  /-- A write changes what no other resource reads back. -/
  isolated : ∀ r r' : Resource, request.Writes r → r' ≠ r →
    ∀ read : LockdownRequest, read.Reads r' → ∀ net,
      (serve host (read.script.handler host) target base read.arrival
        (storeAfter host target base ((done.map fun e => e.2.1) ++ [request])) net).1 =
      (serve host (read.script.handler host) target base read.arrival
        (storeAfter host target base (done.map fun e => e.2.1)) net).1

/-- **Lockdown state reads back what was last accepted**, in every interleaving
of requests to any number of resources: the log has every answer, in an order
its callers can see, and each is what it owes. -/
theorem lockdown_reads_back (events : List (PoolEvent LockdownRequest)) :
    (∀ answer ∈ ((lockdownCaller host target base).run ScriptStore.new events).answers,
      answer ∈ ((lockdownCaller host target base).run ScriptStore.new events).log) ∧
    (∀ early late, events = early ++ late →
      ∀ first ∈ ((lockdownCaller host target base).run ScriptStore.new early).answers,
      ∀ second ∈ ((lockdownCaller host target base).run ScriptStore.new events).log,
        ((lockdownCaller host target base).run ScriptStore.new early).phases.length ≤ second.1 →
          ∃ done between rest,
            ((lockdownCaller host target base).run ScriptStore.new events).log =
              done ++ first :: between ++ second :: rest) ∧
    ∀ done id request response rest,
      ((lockdownCaller host target base).run ScriptStore.new events).log =
        done ++ (id, request, response) :: rest →
      Owes host target base done request response := by
  refine ⟨Caller.answered_mem _ _ events, ?_, ?_⟩
  · intro early late hevents first hfirst second hsecond hlate
    subst hevents
    exact Caller.answered_before _ _ early late hfirst hsecond hlate
  · intro done id request response rest hlog
    obtain ⟨hhistory, hresponse⟩ := Caller.log_at _ _ events hlog
    have hsettled := storeAfter_settled host target base (done.map fun e => e.2.1)
    have hcell := cell_after host target base (done.map fun e => e.2.1)
    rw [← hhistory] at hcell
    change response = ((lockdownCaller host target base).exec
      (storeAfter host target base (done.map fun e => e.2.1)) request).1 at hresponse
    refine ⟨?_, ?_, ?_, ?_⟩
    · intro net
      rw [hresponse]
      exact (exec_lockdownCaller host target base _ request net).1.symm
    · intro r hreads hlen
      have hkey : IsKey r.key := by
        refine ⟨?_, hlen⟩
        by_contra hshort
        have hnil : r.key = [] := Text.byteLen_eq_zero.mp (by omega)
        have hprefix := r.prefix_key
        rw [hnil] at hprefix
        exact absurd (List.prefix_nil.mp hprefix) (by decide)
      have hreports := reports_exec target base hsettled hreads hkey
      rw [← hresponse] at hreports
      constructor
      · intro value hput
        rwa [(hcell r value).mpr hput] at hreports
      · intro hnone
        have hempty : (storeAfter host target base
            (done.map fun e => e.2.1)).entries.lookup r.key = none := by
          rw [Option.eq_none_iff_forall_ne_some]
          intro value hvalue
          exact hnone ⟨value, (hcell r value).mp hvalue⟩
        rwa [hempty] at hreports
    · intro hstatus net
      rw [(exec_lockdownCaller host target base _ request net).2]
      -- a 400 is no 204, and nothing else changes the store
      rcases exec_cases target base hsettled request with ⟨_, hstore⟩ | ⟨h204, _⟩ | ⟨h204, _⟩
      · exact hstore
      · rw [hresponse, h204] at hstatus
        cases hstatus
      · rw [hresponse, h204] at hstatus
        cases hstatus
    · intro r r' hwrites hne read hreads net
      rw [(exec_lockdownCaller host target base _ read net).1,
        (exec_lockdownCaller host target base _ read net).1]
      unfold storeAfter
      rw [Caller.after_snoc]
      exact exec_read_of_write target base hsettled hwrites hne hreads

end History

/-- Two requests in flight at once, the first of which calls first. -/
def twoAtOnce {ι : Type} (a b : ι) : List (PoolEvent ι) :=
  [.arrive a, .arrive b, .call 0, .call 1, .answer 1, .answer 0]

theorem log_twoAtOnce {σ ο ρ ι β : Type} (caller : Caller σ ο ρ ι β) (start : σ) (a b : ι) :
    (caller.run start (twoAtOnce a b)).log =
      [(0, a, (caller.exec start a).1), (1, b, (caller.exec (caller.exec start a).2 b).1)] := rfl

def lockdownPath : Text := "/redfish/v1/Managers/BMC/Oem/Supermicro/SysLockdown".toList

def lockdownOn : Json Nat := .object [("SysLockdownEnabled".toList, .bool true)]

def jsonHeaders : HeaderMap := typeHeader "application/json".toList

def lockdownPatch : LockdownRequest where
  script := .sysLockdown
  arrival := {
    parts := { method := .PATCH, uri := { path := lockdownPath, query := none }, headers := jsonHeaders }
    body := writeBody lockdownOn }

def lockdownGet : LockdownRequest where
  script := .sysLockdown
  arrival := {
    parts := { method := .GET, uri := { path := lockdownPath, query := none }, headers := .new }
    body := [] }

def lockdownBmc : Resource := .sysLockdown ⟨"BMC".toList, by decide⟩

theorem given_lockdownPatch :
    givenValue quietHost lockdownBmc.setting lockdownPatch.req = .ok (some (.bool true)) := by
  have hfits : Json.Fits serdeLimit lockdownOn := (Json.Fits.bool true).one_field _
  have hbody : lockdownPatch.req.body = writeBody lockdownOn := rfl
  have hjson : lockdownPatch.req.isJson = true := by decide
  unfold givenValue
  rw [hjson, hbody, quietHost, bodyJson_writeBody _ hfits]
  rfl

theorem status_lockdownPatch : ((lockdownCaller quietHost bmcTarget proxyBase).exec
    ScriptStore.new lockdownPatch).1.status = 204 := by
  have hkey : IsKey lockdownBmc.key := ⟨by decide, by decide⟩
  have haccepts : Accepts quietHost.serde (.bool true) (.bool true) := ⟨rfl, _, rfl, by decide⟩
  have hwrites : lockdownPatch.Writes lockdownBmc := by decide
  exact status_write bmcTarget proxyBase (new_settled quietHost) hwrites given_lockdownPatch hkey
    haccepts (.inl (by decide))

/-- The read, second at the store, reports what was written. -/
theorem lockdown_reads_back_on : ∃ first second,
    ((lockdownCaller quietHost bmcTarget proxyBase).run ScriptStore.new
      (twoAtOnce lockdownPatch lockdownGet)).log =
        [(0, lockdownPatch, first), (1, lockdownGet, second)] ∧
    first.status = 204 ∧ Reports quietHost lockdownBmc second (.bool true) := by
  have hlog := log_twoAtOnce (lockdownCaller quietHost bmcTarget proxyBase) ScriptStore.new
    lockdownPatch lockdownGet
  have hreads : lockdownGet.Reads lockdownBmc := ⟨by decide, by decide⟩
  have hwrites : lockdownPatch.Writes lockdownBmc := by decide
  have hsent := (sent_of_given given_lockdownPatch).1
  have howes := (lockdown_reads_back quietHost bmcTarget proxyBase
    (twoAtOnce lockdownPatch lockdownGet)).2.2 [(0, lockdownPatch, _)] 1 lockdownGet _ [] hlog
  refine ⟨_, _, hlog, status_lockdownPatch, ?_⟩
  refine (howes.reads lockdownBmc hreads (by decide)).1 (.bool true) ⟨[], _, [], rfl, ?_, by simp⟩
  unfold cellEffect
  rw [if_pos status_lockdownPatch, if_neg (by decide), if_pos hwrites, hsent]

end RedfishProxy.Shipped
