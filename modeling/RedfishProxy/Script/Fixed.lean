import RedfishProxy.Lib.Alike
import RedfishProxy.Script.Exchange

/-!
# A BMC whose replies are fixed

Where a reply depends on the method and the URL of its request alone, it does
not matter who asks, or when: the ids that are resolved are the same.

Main results:
* `resolveIds_alike`: two requests resolve the same ids.
* `system_of_resolveIds`: the system is a member of some collection.
-/

namespace RedfishProxy.Script

open Lib Http

section Fixed

variable {ν V σ : Type} (host : Host ν V σ)

/-- Every reply is a function of the method and the URL. -/
def Fixed (answers : Method → Text → Except TransportError Reply) : Prop :=
  ∀ outbound net, (host.client outbound net).1 = answers outbound.method outbound.url

/-- Two worlds in which the same ids are resolved. -/
def SameIds (world world' : World σ) : Prop := world.ids = world'.ids

variable {host} {answers : Method → Text → Except TransportError Reply} {ctx ctx' : RequestCtx}

/-- What a helper makes of the reply does not depend on who asks. -/
theorem subrequest_alike (hfixed : Fixed host answers) (htarget : ctx.target = ctx'.target)
    {path : Text} (hpath : requireAbsolute path = .ok ()) (method : Method)
    (body : Option (List UInt8)) : Alike SameIds (subrequest host ctx method.name path body)
      (subrequest host ctx' method.name path body) := by
  intro world world' hids
  rw [exec_subrequest host world hpath, exec_subrequest host world' hpath, hfixed, hfixed]
  have hurl : (helperOutbound ctx method path body).url =
      (helperOutbound ctx' method path body).url := by
    unfold helperOutbound
    rw [htarget]
  refine ⟨?_, hids⟩
  unfold helperFrom dispatchedFrom outboundUrl
  rw [hurl]
  rfl

theorem getJson_alike (hfixed : Fixed host answers) (htarget : ctx.target = ctx'.target)
    {path : Text} (hpath : requireAbsolute path = .ok ()) :
    Alike SameIds (getJson host ctx path) (getJson host ctx' path) := by
  unfold getJson
  refine (subrequest_alike hfixed htarget hpath .GET none).bind fun response => ?_
  split
  · exact .throw _
  · exact .fromResult _

theorem requireAbsolute_system (id : Text) :
    requireAbsolute ("/redfish/v1/Systems/".toList ++ id) = .ok () := by
  have hpath : "/redfish/v1/Systems/".toList ++ id = '/' :: ("redfish/v1/Systems/".toList ++ id) :=
    rfl
  apply requireAbsolute_ok hpath
  show some 'r' ≠ some '/'
  decide

theorem findBios_alike (hfixed : Fixed host answers) (htarget : ctx.target = ctx'.target)
    (ids : List Text) : Alike SameIds (findBios host ctx ids) (findBios host ctx' ids) := by
  induction ids with
  | nil => exact .pure _
  | cons id ids ih =>
      unfold findBios
      refine (getJson_alike hfixed htarget (requireAbsolute_system id)).attempt.bind fun outcome => ?_
      cases outcome with
      | error fault => exact ih
      | ok system =>
          show Alike SameIds (if _ then _ else _) (if _ then _ else _)
          split
          · exact .pure _
          · exact ih

/-- **Two requests resolve the same ids.** -/
theorem resolveIds_alike (hfixed : Fixed host answers) (htarget : ctx.target = ctx'.target) :
    Alike SameIds (resolveIds host ctx) (resolveIds host ctx') := by
  have hresolved : ∀ ids : Ids, Alike (ε := Fault) SameIds
      (ExceptT.lift (modify fun world : World σ => { world with ids := some ids }))
      (ExceptT.lift (modify fun world : World σ => { world with ids := some ids })) :=
    fun ids _ _ _ => ⟨rfl, rfl⟩
  have hsystems : Alike SameIds (getJson host ctx "/redfish/v1/Systems".toList)
    (getJson host ctx' "/redfish/v1/Systems".toList) := getJson_alike hfixed htarget rfl
  have hmanagers : Alike SameIds (getJson host ctx "/redfish/v1/Managers".toList)
    (getJson host ctx' "/redfish/v1/Managers".toList) := getJson_alike hfixed htarget rfl
  intro world world' hids
  have hget : ∀ world : World σ, exec (ExceptT.lift get : Action σ (World σ)) world =
      (.ok world, world) := fun _ => rfl
  unfold resolveIds
  rw [exec_bind, exec_bind, hget, hget, thenExec_ok, thenExec_ok]
  have hsame : world.ids = world'.ids := hids
  rw [← hsame]
  cases world.ids with
  | some ids => exact ⟨rfl, hids⟩
  | none =>
      refine (hsystems.bind fun collection => ?_) world world' hids
      dsimp only
      split
      · exact .throw _
      · refine (findBios_alike hfixed htarget _).bind fun found => ?_
        split
        · exact (Alike.pure _).bind fun manager => (hresolved _).bind fun _ => .pure _
        · refine hmanagers.bind fun managers => ?_
          split
          · exact (Alike.pure _).bind fun manager => (hresolved _).bind fun _ => .pure _
          · exact (Alike.throw _).bind fun manager => (hresolved _).bind fun _ => .pure _

/-! ## The ids that are resolved -/

/-- Ids are resolved once. -/
theorem exec_resolveIds_some {world : World σ} {ids : Ids} (h : world.ids = some ids) :
    exec (resolveIds host ctx) world = (.ok ids, world) := by
  have hget : exec (ExceptT.lift get : Action σ (World σ)) world = (.ok world, world) := rfl
  unfold resolveIds
  rw [exec_bind, hget, thenExec_ok, h]
  rfl

theorem mem_of_findBios {ids : List Text} {found : Text × Json ν} {world world' : World σ}
    (h : exec (findBios host ctx ids) world = (.ok (some found), world')) : found.1 ∈ ids := by
  induction ids generalizing world with
  | nil => cases h
  | cons id ids ih =>
      unfold findBios at h
      obtain ⟨outcome, between, _, hnext⟩ := exec_bind_ok h
      cases outcome with
      | error fault => exact List.mem_cons_of_mem _ (ih hnext)
      | ok system =>
          simp only at hnext
          split at hnext
          · injection hnext with hfound
            injection hfound with hfound
            injection hfound with hfound
            rw [← hfound]
            exact List.mem_cons_self
          · exact List.mem_cons_of_mem _ (ih hnext)

/-- **The system is a member of some collection**, and is remembered. -/
theorem system_of_resolveIds {world world' : World σ} {ids : Ids} (hnone : world.ids = none)
    (h : exec (resolveIds host ctx) world = (.ok ids, world')) :
    world'.ids = some ids ∧ ∃ collection : Json ν, ids.system ∈ memberIds collection := by
  have hget : exec (ExceptT.lift get : Action σ (World σ)) world = (.ok world, world) := rfl
  unfold resolveIds at h
  rw [exec_bind, hget, thenExec_ok, hnone] at h
  obtain ⟨collection, world₁, _, h⟩ := exec_bind_ok h
  dsimp only at h
  split at h
  · cases h
  · rename_i preferred hpreferred
    obtain ⟨found, world₂, hfound, h⟩ := exec_bind_ok h
    have hlisted : preferred ∈ memberIds collection := by
      cases hfind : (memberIds collection).find? (· == "System_0".toList) with
      | some id =>
          rw [hfind] at hpreferred
          injection hpreferred with hpreferred
          rw [← hpreferred]
          exact List.mem_of_find?_eq_some hfind
      | none =>
          rw [hfind] at hpreferred
          exact List.mem_of_head? hpreferred
    have hsystem : (found.map Prod.fst).getD preferred ∈ memberIds collection := by
      cases found with
      | none => exact hlisted
      | some pair =>
          rcases List.mem_cons.mp (mem_of_findBios hfound) with heq | hmem
          · show pair.1 ∈ _
            rw [heq]
            exact hlisted
          · exact List.mem_of_mem_filter hmem
    have hend : ∀ (manager : Text) (between : World σ),
        ((Except.ok (⟨(found.map Prod.fst).getD preferred, manager⟩ : Ids) : Except Fault Ids),
          { between with ids := some ⟨(found.map Prod.fst).getD preferred, manager⟩ }) =
            (.ok ids, world') →
        world'.ids = some ids ∧ ∃ collection : Json ν, ids.system ∈ memberIds collection := by
      intro manager between heq
      injection heq with hids hworld
      injection hids with hids
      rw [← hworld, ← hids]
      exact ⟨rfl, collection, hsystem⟩
    split at h
    · exact hend _ _ h
    · obtain ⟨managers, world₃, _, h⟩ := exec_bind_ok h
      split at h
      · exact hend _ _ h
      · cases h

end Fixed
end RedfishProxy.Script
