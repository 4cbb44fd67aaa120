import RedfishProxy.Lib.Moves
import RedfishProxy.Script.Exchange
import RedfishProxy.Shipped.Frame

/-!
# A network that remembers

The same host over a network that keeps every request to the BMC and what came
of it, in order. What a script relays is what such a network holds after it. The
record only grows, whatever a call comes to.
-/

namespace RedfishProxy.Shipped

open Lib Http Script

/-- A request to the BMC, and what came of it. -/
structure Exchanged where
  outbound : Outbound
  answer : Except TransportError Reply

variable {ν σ : Type} (host : Rune ν σ)

def Rune.recorded : Rune ν (σ × List Exchanged) :=
  { host with
    client := fun outbound net =>
      ((host.client outbound net.1).1, (host.client outbound net.1).2,
        net.2 ++ [⟨outbound, (host.client outbound net.1).1⟩]) }

@[simp] theorem client_recorded (outbound : Outbound) (net : σ × List Exchanged) :
    host.recorded.client outbound net =
      ((host.client outbound net.1).1, (host.client outbound net.1).2,
        net.2 ++ [⟨outbound, (host.client outbound net.1).1⟩]) := rfl

/-! ## The record grows -/

/-- What was recorded is still there, with what came after it. -/
def Longer (world world' : World (σ × List Exchanged)) : Prop := world.net.2 <+: world'.net.2

instance : Std.Refl (Longer (σ := σ)) := ⟨fun _ => List.prefix_rfl⟩

instance : IsTrans (World (σ × List Exchanged)) Longer := ⟨fun _ _ _ h h' => h.trans h'⟩

theorem longer_after (world : World (σ × List Exchanged)) (outbound : Outbound) :
    Longer world (world.after host.recorded.toHost outbound) := List.prefix_append ..

section Calls

variable (ctx : RequestCtx)

theorem dispatched_longer (request : BmcRequest) :
    Moves Longer (dispatched host.recorded.toHost ctx request) := by
  intro world
  cases hsend : dispatch ctx request with
  | error fault =>
      rw [exec_dispatched_error _ world hsend]
      exact Std.Refl.refl world
  | ok outbound =>
      rw [exec_dispatched _ world hsend]
      exact longer_after host world outbound

theorem sendForwarded_longer (request : BmcRequest) :
    Moves Longer (sendForwarded host.recorded.toHost ctx request) :=
  (dispatched_longer host ctx request).bind fun _ => .fromResult _

theorem subrequest_longer (method path : Text) (body : Option (List UInt8)) :
    Moves Longer (subrequest host.recorded.toHost ctx method path body) :=
  (dispatched_longer host ctx _).bind fun _ => (Moves.fromResult _).bind fun _ => .pure _

theorem getJson_longer (path : Text) : Moves Longer (getJson host.recorded.toHost ctx path) := by
  refine (subrequest_longer host ctx _ _ _).bind fun response => ?_
  split
  · exact .throw _
  · exact .fromResult _

theorem findBios_longer (ids : List Text) :
    Moves Longer (findBios host.recorded.toHost ctx ids) := by
  induction ids with
  | nil => exact .pure _
  | cons id ids ih =>
      refine (getJson_longer host ctx _).attempt.bind fun outcome => ?_
      cases outcome with
      | error fault => exact ih
      | ok system => exact .ite (.pure _) ih

/-- The ids are resolved by asking, or are there already. -/
theorem resolveIds_longer : Moves Longer (resolveIds host.recorded.toHost ctx) := by
  have hresolved : ∀ ids : Ids, Moves (ε := Fault) (Longer (σ := σ))
      (ExceptT.lift (modify fun world => { world with ids := some ids })) :=
    fun ids world => List.prefix_rfl
  unfold resolveIds
  refine Moves.bind (.of_eq fun _ => rfl) fun world => ?_
  split
  · exact .pure _
  · refine (getJson_longer host ctx _).bind fun collection => ?_
    dsimp only
    split
    · exact .throw _
    · refine (findBios_longer host ctx _).bind fun found => ?_
      split
      · exact (Moves.pure _).bind fun manager => (hresolved _).bind fun _ => .pure _
      · refine (getJson_longer host ctx _).bind fun managers => ?_
        split
        · exact (Moves.pure _).bind fun manager => (hresolved _).bind fun _ => .pure _
        · exact (Moves.throw _).bind fun manager => (hresolved _).bind fun _ => .pure _

end Calls

end RedfishProxy.Shipped
