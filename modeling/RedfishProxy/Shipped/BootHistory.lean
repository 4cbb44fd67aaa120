import RedfishProxy.Shipped.Lockdown
import RedfishProxy.Shipped.RefusedWrite

/-!
# The stored order over whole runs

Every script that writes the store, and the calls its requests make: in flight at
once, they make them in any order, so a history is a list of calls. Only a
`PATCH` of a system writes the order of one.

Main results:
* `serve_calls`: what a request does to the store is a history of its own.
* `order_invariant`: what all orders meet that a history keeps, the stored ones meet.
-/

namespace RedfishProxy.Shipped

open Lib Http Script RuneHost ScriptUtil
open ScriptStore (IsKey Bounded Store Op step_cases next_bounded new_bounded withoutPrefix
  lookup_withoutPrefix)

/-! ## Requests that write -/

section Handlers

variable {ν σ : Type} (host : Rune ν σ) (ctx : RequestCtx)

/-! `bios_change_password.rn` -/

def uefiKey : Text := "supermicro/UefiPasswordSet".toList

/-- Whether both members of the body are there. -/
def namesPassword (req : ScriptRequest) : Script ν σ Bool :=
  if req.isJson then do
    let body ← requestJson host req
    return (valueAt body "PasswordName".toList).isSome &&
      (valueAt body "NewPassword".toList).isSome
  else return false

def biosChangePassword (req : ScriptRequest) : Script ν σ (Returned ScriptResponse) := do
  logInbound host ctx
  if !(← namesPassword host req) then
    finishScript host ctx (jsonResponse host.toHost 400
      (errorDocument "PasswordName and NewPassword are both required".toList))
  else
    storeSet host uefiKey (.bool true)
    finishScript host ctx (statusResponse 204)

end Handlers

/-- The scripts that write the store. -/
inductive StoreScript where
  | systems
  | lockdown (script : LockdownScript)
  | biosChangePassword

/-- A request to one of them. -/
structure StoreRequest where
  script : StoreScript
  arrival : Arrival

section History

variable {ν σ : Type} (host : Rune ν σ) (target : SocketAddrV4) (base : Base)

def StoreScript.handler : StoreScript → Handler ν σ
  | systems => Shipped.systems host
  | lockdown script => script.handler host
  | biosChangePassword => Shipped.biosChangePassword host

/-- The orders a request sends for a system. -/
def StoreRequest.SendsOrder (request : StoreRequest) (system : Text) (order : Json ν) : Prop :=
  request.script = .systems ∧ PatchesSystem system request.arrival ∧
    order ∈ (request.arrival.bootWrite host).orders

/-- A call a request may write the store with. -/
def StoreRequest.MayCall (request : StoreRequest) (op : Op (Json ν)) : Prop :=
  match request.script with
  | .systems => ∃ system order, request.SendsOrder host system order ∧
      op = .set (orderKey system) order
  | .lockdown script =>
    (LockdownRequest.plan ⟨script, request.arrival⟩ host target base).op = some op
  | .biosChangePassword => op = .set uefiKey (.bool true)

/-- The store after a call. -/
def afterCall (store : Store (Json ν)) (op : Op (Json ν)) : Store (Json ν) :=
  ScriptStore.next host.serde store ⟨some 0, op⟩

/-- Calls in the order they are made, each by the request it comes with. -/
abbrev History (ν : Type) := List (StoreRequest × Op (Json ν))

/-- Every call is one its request may make. -/
def IsHistory (history : History ν) : Prop :=
  ∀ call ∈ history, call.1.MayCall host target base call.2

/-- The store after a history, from an empty one. -/
def storeOf (history : History ν) : Store (Json ν) :=
  after (afterCall host) ScriptStore.new (history.map Prod.snd)

variable {host target base}

/-! ## A request is a history -/

variable (host) in
theorem keepAll_calls (key : Text) (values : List (Json ν)) (store : Store (Json ν)) :
    ∃ kept, kept <+: values ∧
      (keepAll host key values store).2 = after (afterCall host) store (kept.map (.set key)) := by
  induction values generalizing store with
  | nil => exact ⟨[], List.nil_prefix, rfl⟩
  | cons value values ih =>
      by_cases h : Storable host store key value
      · obtain ⟨kept, hkept, hafter⟩ := ih { store with entries := store.entries.insert key value }
        refine ⟨value :: kept, by simpa using hkept, ?_⟩
        rw [keepAll_cons_of_storable h, hafter]
        have hnext : afterCall host store (.set key value) =
            { store with entries := store.entries.insert key value } := by
          unfold afterCall ScriptStore.next
          rcases set_cases host store key value with ⟨_, hstep⟩ | ⟨hnot, _⟩
          · rw [hstep]
          · exact absurd h hnot
        show _ = after (afterCall host) (afterCall host store (.set key value)) _
        rw [hnext]
      · obtain ⟨text, hkeep⟩ := keepAll_cons_of_not h values
        exact ⟨[], List.nil_prefix, by rw [hkeep]; rfl⟩

theorem biosChangePassword_calls (arrival : Arrival) (store : Store (Json ν)) (net : σ) :
    (serve host (biosChangePassword host) target base arrival store net).2.store = store ∨
      (serve host (biosChangePassword host) target base arrival store net).2.store =
        afterCall host store (.set uefiKey (.bool true)) := by
  have hnamed : ∀ req : ScriptRequest, KeepsStore (namesPassword (σ := σ) host req) := by
    intro req
    exact .ite ((Keeps.tryResult _).bind fun _ => .pure _) (.pure false)
  unfold serve biosChangePassword
  simp only
  rw [exec_opened, exec_bind]
  generalize hreq : scriptRequest arrival.parts arrival.body = req
  generalize hctx : requestCtx target base arrival.parts arrival.body = ctx
  have hstore := hnamed req (opened ctx store net)
  cases hrun : exec (namesPassword host req) (opened ctx store net) with
  | mk result machine =>
      rw [hrun] at hstore
      cases result with
      | error stop => exact .inl hstore
      | ok named =>
          cases named with
          | false => exact .inl hstore
          | true =>
              refine .inr ?_
              rw [thenExec_ok]
              refine (Keeps.view_bind (fun _ => .finishScript Machine.logs_store _) machine).trans ?_
              unfold storeSet
              rw [exec_bind, exec_storeCall]
              have hmachine : machine.store = store := hstore
              rw [hmachine]
              cases (ScriptStore.step host.serde store ⟨some 0, .set uefiKey (.bool true)⟩).1 <;> rfl

/-- The `systems` handler writes as its `PATCH` does, or not at all. -/
theorem systems_calls (arrival : Arrival) (store : Store (Json ν)) (net : σ) :
    (serve host (systems host) target base arrival store net).2.store = store ∨
      ∃ system, PatchesSystem system arrival ∧
        (serve host (systems host) target base arrival store net).2.store =
          (keepAll host (orderKey system) (arrival.bootWrite host).orders store).2 := by
  cases hpath : segment arrival.parts.uri.path 4 with
  | none =>
      refine .inl ?_
      unfold serve systems
      simp only
      rw [exec_opened]
      show (exec (tryOption (segment arrival.parts.uri.path 4) >>= _) _).2.store = store
      rw [hpath]
      rfl
  | some system =>
      by_cases hpatch : PatchesSystem system arrival
      · exact .inr ⟨system, hpatch, (serveSystem_patch_cases hpatch store net).1⟩
      · refine .inl ?_
        unfold serve systems
        simp only
        rw [exec_opened]
        show (exec (tryOption (segment arrival.parts.uri.path 4) >>= _) _).2.store = store
        rw [hpath, exec_bind, exec_tryOption_some, thenExec_ok]
        -- the collection is relayed, and any other method reads
        split
        · exact relay_keepsStore _
        · rename_i hnamed
          have hmethod : ¬ arrival.parts.method = .PATCH := by
            intro hmethod
            exact hpatch ⟨⟨hpath, by simpa using hnamed⟩, hmethod⟩
          rw [if_neg]
          · exact readSystem_keepsStore system _
          · intro heq
            exact hmethod (Method.ext (beq_iff_eq.mp heq))

/-- **What a request does to the store is a history of its own.** -/
theorem serve_calls (request : StoreRequest) (store : Store (Json ν)) (net : σ) :
    ∃ ops, (∀ op ∈ ops, request.MayCall host target base op) ∧
      (serve host (request.script.handler host) target base request.arrival store net).2.store =
        after (afterCall host) store ops := by
  obtain ⟨script, arrival⟩ := request
  cases script with
  | systems =>
      show ∃ ops, _ ∧ (serve host (systems host) target base arrival store net).2.store = _
      rcases systems_calls arrival store net with hsame | ⟨system, hpatch, hstore⟩
      · exact ⟨[], by simp, hsame⟩
      · obtain ⟨kept, hkept, hafter⟩ :=
          keepAll_calls host (orderKey system) (arrival.bootWrite host).orders store
        refine ⟨kept.map (.set (orderKey system)), ?_, hstore.trans hafter⟩
        intro op hmem
        obtain ⟨order, horder, rfl⟩ := List.mem_map.mp hmem
        exact ⟨system, order, ⟨rfl, hpatch, hkept.subset horder⟩, rfl⟩
  | lockdown script =>
      have hexec := (exec_lockdownCaller host target base store ⟨script, arrival⟩ net).2
      show ∃ ops, _ ∧ (serve host (script.handler host) target base arrival store net).2.store = _
      rw [hexec]
      unfold Caller.exec
      rw [replyTo_lockdownCaller]
      unfold Plan.replyFrom
      cases hop : (LockdownRequest.plan ⟨script, arrival⟩ host target base).op with
      | none => exact ⟨[], by simp, rfl⟩
      | some op =>
          refine ⟨[op], ?_, rfl⟩
          intro op' hmem
          obtain rfl := List.mem_singleton.mp hmem
          exact hop
  | biosChangePassword =>
      rcases biosChangePassword_calls arrival store net with hsame | hset
      · exact ⟨[], by simp, hsame⟩
      · refine ⟨[.set uefiKey (.bool true)], ?_, hset⟩
        intro op hmem
        exact List.mem_singleton.mp hmem

/-! ## The key of an order -/

theorem orderKey_injective {system system' : Text} (h : orderKey system = orderKey system') :
    system = system' := by
  unfold orderKey at h
  exact List.append_cancel_left (List.append_cancel_right h)

theorem getLast?_append_literal (front : Text) {last : Text} (h : last ≠ []) :
    (front ++ last).getLast? = last.getLast? := by
  obtain ⟨init, c, rfl⟩ : ∃ init c, last = init ++ [c] :=
    ⟨last.dropLast, last.getLast h, (List.dropLast_append_getLast h).symm⟩
  rw [← List.append_assoc, List.getLast?_concat, List.getLast?_concat]

/-- No resource of the other scripts is kept under it. -/
theorem key_ne_orderKey (r : Resource) (system : Text) : r.key ≠ orderKey system := by
  intro h
  have hlast := congrArg List.getLast? h
  have horder : (orderKey system).getLast? = some 'r' :=
    getLast?_append_literal _ (by decide)
  rw [horder] at hlast
  cases r with
  | sysLockdown manager =>
      have hkey : (Resource.sysLockdown manager).key.getLast? = some 'd' :=
        getLast?_append_literal _ (by decide)
      rw [hkey] at hlast
      exact absurd hlast (by decide)
  | kcsInterface manager =>
      have hkey : (Resource.kcsInterface manager).key.getLast? = some 'e' :=
        getLast?_append_literal _ (by decide)
      rw [hkey] at hlast
      exact absurd hlast (by decide)
  | hostInterface manager id =>
      have hkey : (Resource.hostInterface manager id).key.getLast? = some 'd' :=
        getLast?_append_literal _ (by decide)
      rw [hkey] at hlast
      exact absurd hlast (by decide)
  | secureBoot system =>
      have hkey : (Resource.secureBoot system).key.getLast? = some 'e' :=
        getLast?_append_literal _ (by decide)
      rw [hkey] at hlast
      exact absurd hlast (by decide)

theorem uefiKey_ne_orderKey (system : Text) : uefiKey ≠ orderKey system := by
  intro h
  have hlast := congrArg List.getLast? h
  have horder : (orderKey system).getLast? = some 'r' :=
    getLast?_append_literal _ (by decide)
  rw [horder] at hlast
  exact absurd hlast (by decide)

/-- A plan sets the key of its resource, if it sets one. -/
theorem key_of_plan {request : LockdownRequest} {key : Text} {value : Json ν}
    (h : (request.plan host target base).op = some (.set key value)) : ∃ r : Resource, key = r.key := by
  have hsetting : ∀ {ctx : RequestCtx} {setting : Setting ν} {k : Text}
      {document : Json ν → Option (Json ν)} {req : ScriptRequest},
      (settingPlan host ctx setting k document req).op = some (.set key value) → key = k := by
    intro ctx setting k document req h
    unfold settingPlan at h
    split at h
    · unfold writePlan at h
      split at h
      · cases h
      · cases h
      · injection h with h
        injection h with hkey
        exact hkey.symm
    · injection h with h
      cases h
  unfold LockdownRequest.plan at h
  split at h
  · injection h with h
    cases h
  · split at h
    · cases h
    · rename_i r _
      exact ⟨r, hsetting h⟩

/-- **Only a `PATCH` of the system writes its order.** -/
theorem sendsOrder_of_mayCall {request : StoreRequest} {system : Text} {order : Json ν}
    (h : request.MayCall host target base (.set (orderKey system) order)) :
    request.SendsOrder host system order := by
  unfold StoreRequest.MayCall at h
  split at h
  · obtain ⟨system', order', hsends, hop⟩ := h
    injection hop with hkey horder
    rw [orderKey_injective hkey, horder]
    exact hsends
  · obtain ⟨r, hr⟩ := key_of_plan h
    exact absurd hr.symm (key_ne_orderKey r system)
  · injection h with hkey
    exact absurd hkey.symm (uefiKey_ne_orderKey system)

theorem lookup_afterCall {op : Op (Json ν)} (key : Text) (store : Store (Json ν)) :
    (afterCall host store op).entries.lookup key = store.entries.lookup key ∨
      (afterCall host store op).entries.lookup key = none ∨
      ∃ value, op = .set key value ∧ storable host store key value = true ∧
        (afterCall host store op).entries.lookup key = some value := by
  unfold afterCall ScriptStore.next
  rcases step_cases host.serde store ⟨some 0, op⟩ with
    ⟨k, v, json, hop, _⟩ | ⟨k, hop, _, hstep⟩ | ⟨start, hop, _, hstep⟩ | ⟨hnext, _⟩
  · have hset : op = .set k v := hop
    rw [hset]
    rcases set_cases host store k v with ⟨hstorable, hstep⟩ | ⟨_, text, hstep⟩
    · rw [hstep]
      show AList.lookup key (AList.insert k v store.entries) = _ ∨ _
      rw [KeyMap.lookup_insert_eq]
      by_cases hkey : key = k
      · subst hkey
        exact .inr (.inr ⟨v, rfl, storable_iff.mpr hstorable, by rw [if_pos rfl]⟩)
      · exact .inl (if_neg hkey)
    · rw [hstep]
      exact .inl rfl
  · rw [hstep]
    show AList.lookup key (AList.erase k store.entries) = _ ∨ _
    rw [KeyMap.lookup_erase_eq]
    by_cases hkey : key = k
    · exact .inr (.inl (if_pos hkey))
    · exact .inl (if_neg hkey)
  · rw [hstep]
    show AList.lookup key (withoutPrefix store.entries start) = _ ∨ _
    rw [lookup_withoutPrefix]
    split
    · exact .inr (.inl rfl)
    · exact .inl rfl
  · exact .inl (by rw [show (ScriptStore.step host.serde store ⟨some 0, op⟩).2 = store from hnext])

/-! ## Over a history -/

/-- Every stored order meets this. -/
def OrdersMeet (P : Text → Json ν → Prop) (store : Store (Json ν)) : Prop :=
  ∀ system order, store.entries.lookup (orderKey system) = some order → P system order

/-- Every order does that a call of a history brings to a store which takes it. -/
def KeptOrdersMeet (host : Rune ν σ) (P : Text → Json ν → Prop) (history : History ν) : Prop :=
  ∀ done call rest, history = done ++ call :: rest → ∀ system order,
    call.2 = .set (orderKey system) order →
    storable host (storeOf host done) (orderKey system) order = true → P system order

theorem storeOf_bounded (history : History ν) : Bounded host.serde (storeOf host history) := by
  refine (Visits.last (history.map Prod.snd)).invariant new_bounded ?_
  intro store op h
  exact next_bounded h _

theorem storeOf_concat (history : History ν) (call : StoreRequest × Op (Json ν)) :
    storeOf host (history ++ [call]) = afterCall host (storeOf host history) call.2 := by
  unfold storeOf after
  rw [List.map_append, List.foldl_append]
  rfl

/-- **What all orders meet that are kept, the stored ones meet**, whatever else is
written. -/
theorem order_invariant {P : Text → Json ν → Prop} {history : History ν}
    (hkept : KeptOrdersMeet host P history) : OrdersMeet P (storeOf host history) := by
  induction history using List.reverseRecOn with
  | nil =>
      intro system order h
      cases h
  | append_singleton history call ih =>
      have hbefore : KeptOrdersMeet host P history := by
        intro done kept rest heq
        exact hkept done kept (rest ++ [call]) (by rw [heq, List.append_assoc, List.cons_append])
      intro system order hlookup
      rw [storeOf_concat] at hlookup
      rcases lookup_afterCall (orderKey system) (storeOf host history) with
        hsame | hnone | ⟨value, hset, hstorable, hvalue⟩
      · exact ih hbefore system order (hsame ▸ hlookup)
      · rw [hnone] at hlookup
        cases hlookup
      · rw [hvalue] at hlookup
        injection hlookup with hlookup
        rw [← hlookup]
        exact hkept history call [] rfl system value hset hstorable

/-- Whatever was sent, it is no deeper than a body. -/
theorem fits_stored {history : History ν} (hhistory : IsHistory host target base history)
    {system : Text} {order : Json ν}
    (h : (storeOf host history).entries.lookup (orderKey system) = some order) :
    Json.Fits (host.limit - 2) order := by
  have hkept : KeptOrdersMeet host (fun _ order => Json.Fits (host.limit - 2) order) history := by
    intro done call rest heq system order hset _
    have hmay := hhistory call (by simp [heq])
    rw [hset] at hmay
    exact fits_of_mem_orders (sendsOrder_of_mayCall hmay).2.2
  exact order_invariant hkept system order h

end History
end RedfishProxy.Shipped
