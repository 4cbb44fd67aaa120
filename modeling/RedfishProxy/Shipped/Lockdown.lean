import RedfishProxy.Lib.Interleave
import RedfishProxy.Script.StoreHistory
import RedfishProxy.Shipped.SerdeHost
import RedfishProxy.Shipped.Setting

/-!
# Lockdown over whole runs

Requests to the four kept resources and to the reset, in flight at once over one
store. A resource is what a request names in its path, and keeps one cell of the
store to itself.

Main results:
* `key_injective`: two resources never share a key.
* `cell_after`: a request treats the cell of a resource as its answer says.
* `lockdown_reads_back`: what a read reports, in every interleaving.
-/

namespace RedfishProxy.Shipped

open Lib Http Script RuneHost ScriptUtil

/-! ## What a path names -/

/-- A piece of a path. -/
structure Segment where
  text : Text
  noSlash : '/' ∉ text
  deriving DecidableEq

def segmentOf (path : Text) (index : Int) : Option Segment :=
  match h : segment path index with
  | some text => some ⟨text, slash_notMem_segment h⟩
  | none => none

theorem segment_eq (path : Text) (index : Int) :
    segment path index = (segmentOf path index).map Segment.text := by
  unfold segmentOf
  split
  · rename_i text h
    exact h
  · rename_i h
    exact h

/-- What the store keeps a member of. -/
inductive Resource where
  | sysLockdown (manager : Segment)
  | kcsInterface (manager : Segment)
  | hostInterface (manager id : Segment)
  | secureBoot (system : Segment)
  deriving DecidableEq

namespace Resource

def key : Resource → Text
  | sysLockdown manager => sysLockdownKey manager.text
  | kcsInterface manager => kcsInterfaceKey manager.text
  | hostInterface manager id => hostInterfaceKey manager.text id.text
  | secureBoot system => secureBootKey system.text

section Values

variable {ν : Type}

def setting : Resource → Setting ν
  | sysLockdown _ => sysLockdownSetting
  | kcsInterface _ => kcsInterfaceSetting
  | hostInterface _ _ => hostInterfaceSetting
  | secureBoot _ => secureBootSetting

def document : Resource → Json ν → Option (Json ν)
  | sysLockdown manager => sysLockdownDocument manager.text
  | kcsInterface manager => kcsInterfaceDocument manager.text
  | hostInterface manager id => hostInterfaceDocument manager.text id.text
  | secureBoot system => secureBootDocument system.text

end Values

/-- The segments of the key. -/
def keySegments : Resource → List Text
  | sysLockdown manager => ["supermicro".toList, manager.text, "SysLockdownEnabled".toList]
  | kcsInterface manager => ["supermicro".toList, manager.text, "KCSPrivilege".toList]
  | hostInterface manager id =>
    ["supermicro".toList, manager.text, id.text, "HostInterfaceEnabled".toList]
  | secureBoot system => ["supermicro".toList, system.text, "SecureBootEnable".toList]

theorem splitOn_append_slash {piece : Text} (h : '/' ∉ piece) (rest : Text) :
    (piece ++ '/' :: rest).splitOn '/' = piece :: rest.splitOn '/' :=
  List.splitOn_append_cons_self_of_not_mem h rest

theorem splitOn_key (r : Resource) : r.key.splitOn '/' = r.keySegments := by
  have hroot : '/' ∉ "supermicro".toList := by decide
  have hthree : ∀ (middle : Segment) (last : Text), '/' ∉ last →
      ("supermicro".toList ++ '/' :: (middle.text ++ '/' :: last)).splitOn '/' =
        ["supermicro".toList, middle.text, last] := by
    intro middle last hlast
    rw [splitOn_append_slash hroot, splitOn_append_slash middle.noSlash,
      List.splitOn_eq_singleton hlast]
  cases r with
  | sysLockdown manager => exact hthree manager _ (by decide)
  | kcsInterface manager => exact hthree manager _ (by decide)
  | secureBoot system => exact hthree system _ (by decide)
  | hostInterface manager id =>
      have hlast : '/' ∉ "HostInterfaceEnabled".toList := by decide
      have hkey : (hostInterface manager id).key = "supermicro".toList ++ '/' ::
          (manager.text ++ '/' :: (id.text ++ '/' :: "HostInterfaceEnabled".toList)) := by
        show "supermicro/".toList ++ manager.text ++ '/' :: id.text ++
          "/HostInterfaceEnabled".toList = _
        rw [List.append_assoc, List.append_assoc]
        rfl
      rw [hkey, splitOn_append_slash hroot, splitOn_append_slash manager.noSlash,
        splitOn_append_slash id.noSlash, List.splitOn_eq_singleton hlast]
      rfl

/-- **Two resources never share a key**, whatever their ids are. -/
theorem key_injective {r r' : Resource} (h : r.key = r'.key) : r = r' := by
  have hsegments : r.keySegments = r'.keySegments := by
    rw [← splitOn_key, ← splitOn_key, h]
  have hext : ∀ {a b : Segment}, a.text = b.text → a = b := by
    intro a b hab
    cases a
    cases b
    cases hab
    rfl
  -- the last segments differ, or the lengths do
  cases r <;> cases r' <;> simp only [keySegments, List.cons.injEq] at hsegments
  all_goals first
    | exact absurd hsegments.2.2.1 (by decide)
    | rw [hext hsegments.2.1, hext hsegments.2.2.1]
    | cases hsegments.2.2.2
    | rw [hext hsegments.2.1]

/-- The reset reaches every key. -/
theorem prefix_key (r : Resource) : "supermicro/".toList <+: r.key := by
  cases r <;> exact ⟨_, rfl⟩

/-! ### The document of a resource -/

section Documents

variable {ν : Type}

/-- An accepted value is a scalar. -/
theorem fits_of_accepts {r : Resource} {value : Json ν} (h : r.setting.accepts value = true)
    (d : Nat) : Json.Fits d value := by
  cases value with
  | null => exact .null
  | bool b => exact .bool b
  | number n => exact .number n
  | string text => exact .string text
  | array items => cases r <;> cases h
  | object fields => cases r <;> cases h

/-- **The document of an accepted value has it as the member.** -/
theorem document_of_accepts {r : Resource} {value : Json ν} (h : r.setting.accepts value = true) :
    ∃ document, r.document value = some document ∧ Json.Fits 2 document ∧
      document.get (r.setting (ν := ν)).member = some value := by
  have hvalue := fits_of_accepts h
  have hbuilt : ∀ fields : List (Text × Json ν), (∀ field ∈ fields, Json.Fits 1 field.2) →
      Json.Fits 2 (.ofFields fields) := fun fields hall => Json.fits_ofFields hall
  cases r with
  | sysLockdown manager =>
      refine ⟨_, rfl, hbuilt _ ?_, by rw [Json.get_ofFields]; rfl⟩
      simp only [List.forall_mem_cons]
      exact ⟨.string _, .string _, .string _, .string _, hvalue 1, by simp⟩
  | kcsInterface manager =>
      refine ⟨_, rfl, hbuilt _ ?_, by rw [Json.get_ofFields]; rfl⟩
      simp only [List.forall_mem_cons]
      exact ⟨.string _, .string _, .string _, .string _, hvalue 1, by simp⟩
  | hostInterface manager id =>
      refine ⟨_, rfl, hbuilt _ ?_, by rw [Json.get_ofFields]; rfl⟩
      have hstatus : Json.Fits (ν := ν) 1 (.ofFields [("State".toList, .string "Enabled".toList),
          ("Health".toList, .string "OK".toList)]) := by
        apply Json.fits_ofFields
        simp only [List.forall_mem_cons]
        exact ⟨.string _, .string _, by simp⟩
      simp only [List.forall_mem_cons]
      exact ⟨.string _, .string _, .string _, .string _, hvalue 1, .string _, hstatus, by simp⟩
  | secureBoot system =>
      -- only a bool gets this far
      cases value with
      | bool on =>
          refine ⟨_, rfl, hbuilt _ ?_, by rw [Json.get_ofFields]; rfl⟩
          simp only [List.forall_mem_cons]
          exact ⟨.string _, .string _, .string _, .string _, .bool on, .string _, .string _,
            by simp⟩
      | null => cases h
      | number n => cases h
      | string text => cases h
      | array items => cases h
      | object fields => cases h

/-- An accepted value is a `bool`, or the name of a privilege. -/
theorem accepts_cases {r : Resource} {value : Json ν} (h : r.setting.accepts value = true) :
    (∃ b, value = .bool b) ∨ ∃ text, value = .string text ∧ containsSep text = false := by
  have hbool : isBool value = true → ∃ b, value = .bool b := by
    intro hvalue
    cases value with
    | bool b => exact ⟨b, rfl⟩
    | null => cases hvalue
    | number n => cases hvalue
    | string text => cases hvalue
    | array items => cases hvalue
    | object fields => cases hvalue
  cases r with
  | sysLockdown manager => exact .inl (hbool h)
  | hostInterface manager id => exact .inl (hbool h)
  | secureBoot system => exact .inl (hbool h)
  | kcsInterface manager =>
      cases value with
      | string text =>
          have htext : text = "Administrator".toList ∨ text = "Operator".toList ∨
              text = "User".toList ∨ text = "Callback".toList := by
            change (text == "Administrator".toList || text == "Operator".toList ||
              text == "User".toList || text == "Callback".toList) = true at h
            rw [Bool.or_eq_true, Bool.or_eq_true, Bool.or_eq_true, beq_iff_eq, beq_iff_eq,
              beq_iff_eq, beq_iff_eq] at h
            rwa [or_assoc, or_assoc] at h
          refine .inr ⟨text, rfl, ?_⟩
          rcases htext with rfl | rfl | rfl | rfl <;> decide
      | null => cases h
      | bool b => cases h
      | number n => cases h
      | array items => cases h
      | object fields => cases h

/-- The caller reads an accepted value as it is: no swap touches it. -/
theorem served_of_accepts {σ : Type} (host : Rune ν σ) (ctx : RequestCtx) {r : Resource}
    {value : Json ν} (h : r.setting.accepts value = true) : served host ctx value = value := by
  rcases accepts_cases h with ⟨b, rfl⟩ | ⟨text, rfl, hplain⟩
  · rfl
  · exact served_plain host ctx hplain

/-- And a script reads it as it is. -/
theorem scriptValue_of_accepts {σ : Type} (host : Rune ν σ) {r : Resource} {value : Json ν}
    (h : r.setting.accepts value = true) : host.scriptValue value = value := by
  rcases accepts_cases h with ⟨b, rfl⟩ | ⟨text, rfl, _⟩
  · rfl
  · rfl

end Documents

end Resource

/-! ## Requests -/

/-- The scripts of the kept resources, and the one of the reset. -/
inductive LockdownScript where
  | sysLockdown
  | kcsInterface
  | hostInterface
  | secureBoot
  | smcManagerConfigReset
  deriving DecidableEq

namespace LockdownScript

def handler {ν σ : Type} (host : Rune ν σ) : LockdownScript → Handler ν σ
  | sysLockdown => Shipped.sysLockdown host
  | kcsInterface => Shipped.kcsInterface host
  | hostInterface => Shipped.hostInterface host
  | secureBoot => Shipped.secureBoot host
  | smcManagerConfigReset => Shipped.smcManagerConfigReset host

/-- The resource a path names to a script. -/
def resource (script : LockdownScript) (path : Text) : Option Resource :=
  match script with
  | sysLockdown => (segmentOf path 4).map .sysLockdown
  | kcsInterface => (segmentOf path 4).map .kcsInterface
  | hostInterface => do
    let manager ← segmentOf path 4
    let id ← segmentOf path 6
    return .hostInterface manager id
  | secureBoot => (segmentOf path 4).map .secureBoot
  | smcManagerConfigReset => none

end LockdownScript

/-- A request to one of them. -/
structure LockdownRequest where
  script : LockdownScript
  arrival : Arrival

namespace LockdownRequest

variable (request : LockdownRequest)

def req : ScriptRequest := scriptRequest request.arrival.parts request.arrival.body

def resource : Option Resource := request.script.resource request.req.path

/-- A `PATCH` or a `PUT` of the resource. -/
def Writes (r : Resource) : Prop := request.resource = some r ∧ isWrite request.req = true

/-- Any other method on it. -/
def Reads (r : Resource) : Prop := request.resource = some r ∧ isWrite request.req = false

instance (r : Resource) : Decidable (request.Writes r) := inferInstanceAs (Decidable (_ ∧ _))

section Plan

variable {ν σ : Type} (host : Rune ν σ) (target : SocketAddrV4) (base : Base)

def ctx : RequestCtx := requestCtx target base request.arrival.parts request.arrival.body

def plan : Plan ν :=
  match request.script with
  | .smcManagerConfigReset => resetPlan
  | _ =>
    match request.resource with
    | none => Plan.alone (.error .none)
    | some r => settingPlan host (request.ctx target base) r.setting r.key r.document request.req

/-- **A run of any of the handlers is its plan.** -/
theorem lockdown_follows : Follows host (request.plan host target base)
    (request.script.handler host (request.ctx target base) request.req) := by
  have hlog : ∀ {plan : Plan ν} {next : Script ν σ (Returned ScriptResponse)},
      Follows host plan next →
        Follows host plan (logInbound host (request.ctx target base) >>= fun _ => next) :=
    fun h => Follows.after (fun machine => ⟨_, exec_logInbound machine, rfl⟩) h
  have hnamed : ∀ {plan : Plan ν} {index : Int} {next : Text → Script ν σ (Returned ScriptResponse)}
      (name : Segment), segmentOf request.req.path index = some name →
      Follows host plan (next name.text) →
        Follows host plan (tryOption (segment request.req.path index) >>= next) := by
    intro plan index next name hname h
    rw [segment_eq, hname]
    exact Follows.after (fun machine => ⟨machine, rfl, rfl⟩) h
  have hunnamed : ∀ {index : Int} {next : Text → Script ν σ (Returned ScriptResponse)},
      segmentOf request.req.path index = none →
        Follows host (Plan.alone (.error .none))
          (tryOption (segment request.req.path index) >>= next) := by
    intro index next hname
    rw [segment_eq, hname]
    exact Follows.stop fun machine => rfl
  unfold plan resource LockdownScript.resource LockdownScript.handler
  cases request.script with
  | sysLockdown =>
      apply hlog
      cases hmanager : segmentOf request.req.path 4 with
      | none => exact hunnamed hmanager
      | some manager => exact hnamed manager hmanager (follows_serveSetting _ _ _ _)
  | kcsInterface =>
      apply hlog
      cases hmanager : segmentOf request.req.path 4 with
      | none => exact hunnamed hmanager
      | some manager => exact hnamed manager hmanager (follows_serveSetting _ _ _ _)
  | hostInterface =>
      apply hlog
      cases hmanager : segmentOf request.req.path 4 with
      | none => exact hunnamed hmanager
      | some manager =>
          apply hnamed manager hmanager
          cases hid : segmentOf request.req.path 6 with
          | none => exact hunnamed hid
          | some id => exact hnamed id hid (follows_serveSetting _ _ _ _)
  | secureBoot =>
      apply hlog
      cases hsystem : segmentOf request.req.path 4 with
      | none => exact hunnamed hsystem
      | some system => exact hnamed system hsystem (follows_serveSetting _ _ _ _)
  | smcManagerConfigReset => exact follows_smcManagerConfigReset request.req

end Plan
end LockdownRequest

section Caller

variable {ν σ : Type} (host : Rune ν σ) (target : SocketAddrV4) (base : Base)

/-- The requests as callers of the store. -/
def lockdownCaller : Caller (ScriptStore.Store (Json ν)) (ScriptStore.Op (Json ν))
    (Except Text (ScriptStore.Reply (Json ν))) LockdownRequest Response where
  call store op := ScriptStore.step host.serde store ⟨some 0, op⟩
  ask request := (request.plan host target base).op
  finish request reply :=
    answer host (request.ctx target base) ((request.plan host target base).result reply)

theorem replyTo_lockdownCaller (store : ScriptStore.Store (Json ν)) (request : LockdownRequest) :
    (lockdownCaller host target base).replyTo store request =
      (request.plan host target base).replyFrom host store := by
  unfold Caller.replyTo Plan.replyFrom lockdownCaller
  simp only
  cases (request.plan host target base).op <;> rfl

/-- **What a request comes to is the run of its handler**, whatever the network. -/
theorem exec_lockdownCaller (store : ScriptStore.Store (Json ν)) (request : LockdownRequest)
    (net : σ) :
    (serve host (request.script.handler host) target base request.arrival store net).1 =
        ((lockdownCaller host target base).exec store request).1 ∧
      (serve host (request.script.handler host) target base request.arrival store net).2.store =
        ((lockdownCaller host target base).exec store request).2 := by
  have hfollows := request.lockdown_follows host target base (start store net)
  unfold Caller.exec
  rw [replyTo_lockdownCaller]
  exact ⟨congrArg (answer host (request.ctx target base)) hfollows.1, hfollows.2⟩

end Caller
end RedfishProxy.Shipped
