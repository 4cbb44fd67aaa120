import RedfishProxy.Lib.Alike
import RedfishProxy.Script.Fetch

/-!
# The probing, await by await

`resolve_ids` suspends at every fetch and goes on with what came of it. Between
two awaits it only computes, so what it does with the network is a tree of
fetches (`resolveProbe`), and the call is a look at the ids that are kept, the
tree, and a write of its outcome (`exec_resolveIds`).
-/

namespace RedfishProxy.Script

open Lib Http

/-- A computation that awaits fetches. -/
inductive Probe (ν α : Type) where
  | done (outcome : Except Fault α)
  | get (path : Text) (next : Except Fault (Json ν) → Probe ν α)

section Probe

variable {ν V σ α : Type} (host : Host ν V σ) (ctx : RequestCtx)

/-- Alone, each fetch is answered before anything else happens. -/
def Probe.run : Probe ν α → Action σ α
  | .done outcome => fromResult outcome
  | .get path next => do
    let outcome ← attempt (getJson host ctx path)
    (next outcome).run

/-- The loop over the systems, and what is done with the one it finds. -/
def probeBios (next : Option (Text × Json ν) → Probe ν α) : List Text → Probe ν α
  | [] => next none
  | id :: rest => .get ("/redfish/v1/Systems/".toList ++ id) fun outcome =>
    match outcome with
    | .ok system =>
      if (system.get "Bios".toList).isSome then next (some (id, system)) else probeBios next rest
    | .error _ => probeBios next rest

/-- The manager the system names, or else the first one listed. -/
def probeManager (system : Text) (named : Option Text) : Probe ν Ids :=
  match named with
  | some manager => .done (.ok { system, manager })
  | none => .get "/redfish/v1/Managers".toList fun outcome =>
    match outcome with
    | .error fault => .done (.error fault)
    | .ok listing =>
      match (memberIds listing).head? with
      | some manager => .done (.ok { system, manager })
      | none => .done (.error [.lit "no managers found under /redfish/v1/Managers".toList])

def resolveProbe : Probe ν Ids :=
  .get "/redfish/v1/Systems".toList fun outcome =>
    match outcome with
    | .error fault => .done (.error fault)
    | .ok listing =>
      let systems := memberIds listing
      match (systems.find? (· == "System_0".toList)).or systems.head? with
      | none => .done (.error [.lit "no systems found under /redfish/v1/Systems".toList])
      | some preferred =>
        probeBios (fun found => probeManager ((found.map Prod.fst).getD preferred)
          (found.bind fun pair => managedBy pair.2)) (preferred :: systems.filter (· != preferred))

/-- The write of the ids that were resolved. -/
def keepIds (ids : Ids) : Action σ Ids := do
  ExceptT.lift (modify fun world : World σ => { world with ids := some ids })
  return ids

variable {host ctx}

theorem exec_run_get (path : Text) (next : Except Fault (Json ν) → Probe ν α) (world : World σ) :
    exec ((Probe.get path next).run host ctx) world =
      exec ((next (exec (getJson host ctx path) world).1).run host ctx)
        (exec (getJson host ctx path) world).2 := by
  rw [Probe.run, exec_bind, exec_attempt, thenExec_ok]

/-- The loop of the tree is the loop of the call. -/
theorem exec_probeBios (next : Option (Text × Json ν) → Probe ν α) (ids : List Text)
    (world : World σ) : exec ((probeBios next ids).run host ctx) world =
      exec (findBios host ctx ids >>= fun found => (next found).run host ctx) world := by
  induction ids generalizing world with
  | nil =>
      rw [exec_bind]
      rfl
  | cons id ids ih =>
      rw [probeBios, exec_run_get, findBios, bind_assoc, exec_bind, exec_attempt, thenExec_ok]
      cases (exec (getJson host ctx ("/redfish/v1/Systems/".toList ++ id)) world).1 with
      | error fault => exact ih _
      | ok system =>
          dsimp only
          split_ifs
          · rw [pure_bind]
          · exact ih _

/-- The tree for the manager is what the call does for it, the write left out. -/
theorem exec_probeManager (system : Text) (named : Option Text) (world : World σ) :
    exec (do
      let manager ← match named with
        | some manager => pure manager
        | none => do
          let managers := memberIds (← getJson host ctx "/redfish/v1/Managers".toList)
          match managers.head? with
          | some manager => pure manager
          | none => throw [.lit "no managers found under /redfish/v1/Managers".toList]
      keepIds { system, manager } : Action σ Ids) world =
      thenExec keepIds (exec ((probeManager system named).run host ctx) world) := by
  cases named with
  | some manager => rfl
  | none =>
      dsimp only
      rw [probeManager, exec_run_get, exec_bind]
      cases exec (getJson host ctx "/redfish/v1/Managers".toList) world with
      | mk result next =>
          cases result with
          | error fault => rfl
          | ok managers =>
              rw [thenExec_ok]
              dsimp only
              cases (memberIds managers).head? <;> rfl

/-- **A call** looks at the ids that are kept, and where there are none it
probes and keeps what it found. -/
theorem exec_resolveIds (world : World σ) : exec (resolveIds host ctx) world =
    match world.ids with
    | some ids => (.ok ids, world)
    | none => thenExec keepIds (exec ((resolveProbe (ν := ν)).run host ctx) world) := by
  unfold resolveIds
  rw [exec_bind]
  show thenExec _ (Except.ok world, world) = _
  rw [thenExec_ok]
  cases world.ids with
  | some ids => rfl
  | none =>
      dsimp only
      rw [exec_bind, resolveProbe, exec_run_get]
      cases exec (getJson host ctx "/redfish/v1/Systems".toList) world with
      | mk result listed =>
          cases result with
          | error fault => rfl
          | ok listing =>
              rw [thenExec_ok]
              dsimp only
              cases ((memberIds listing).find? (· == "System_0".toList)).or
                  (memberIds listing).head? with
              | none => rfl
              | some preferred =>
                  dsimp only
                  rw [exec_probeBios, exec_bind, exec_bind]
                  cases exec (findBios host ctx (preferred ::
                      (memberIds listing).filter (· != preferred))) listed with
                  | mk result probed =>
                      cases result with
                      | error fault => rfl
                      | ok found => exact exec_probeManager ..

end Probe

end RedfishProxy.Script
