import RedfishProxy.Shipped.Serve

/-!
# What a script leaves alone

A script that only asks the BMC, logs and builds its response leaves the store
as it is; one that only logs and builds it leaves the world as well. The rules
follow how the script is put together.
-/

namespace RedfishProxy.Shipped

open Lib Http Script RuneHost

section Frame

variable {ν σ α β γ : Type} {host : Rune ν σ} {ctx : RequestCtx} {view : Machine ν σ → γ}

/-- Whatever it comes to, this part of the machine is as it was. -/
def Keeps (view : Machine ν σ → γ) (script : Script ν σ α) : Prop :=
  ∀ machine, view (exec script machine).2 = view machine

abbrev KeepsStore (script : Script ν σ α) : Prop := Keeps Machine.store script

abbrev KeepsWorld (script : Script ν σ α) : Prop := Keeps Machine.world script

namespace Keeps

theorem pure (value : α) : Keeps view (Pure.pure value : Script ν σ α) := fun _ => rfl

/-- What comes after leaves it as the script does. -/
theorem view_bind {script : Script ν σ α} {next : α → Script ν σ β}
    (hnext : ∀ value, Keeps view (next value)) (machine : Machine ν σ) :
    view (exec (script >>= next) machine).2 = view (exec script machine).2 := by
  rw [exec_bind]
  cases exec script machine with
  | mk result machine' =>
      cases result with
      | error stop => rfl
      | ok value => exact hnext value machine'

theorem bind {script : Script ν σ α} {next : α → Script ν σ β} (h : Keeps view script)
    (hnext : ∀ value, Keeps view (next value)) : Keeps view (script >>= next) :=
  fun machine => (view_bind hnext machine).trans (h machine)

theorem ite {c : Prop} [Decidable c] {a b : Script ν σ α} (ha : Keeps view a)
    (hb : Keeps view b) : Keeps view (if c then a else b) := by
  split
  · exact ha
  · exact hb

theorem tryResult (result : Except Fault α) : Keeps view (tryResult result : Script ν σ α) :=
  fun _ => rfl

theorem tryOption (value : Option α) : Keeps view (tryOption value : Script ν σ α) := by
  cases value <;> exact fun _ => rfl

theorem orStop (value : Option α) : Keeps view (orStop value : Script ν σ α) := by
  cases value <;> exact fun _ => rfl

theorem bmc (action : Action σ α) : KeepsStore (bmc action : Script ν σ α) := fun _ => rfl

/-- The store only answers. -/
theorem storeGetOr (key : Text) (fallback : Json ν) : KeepsStore (storeGetOr host key fallback) := by
  unfold Shipped.storeGetOr
  refine bind (fun _ => rfl) ?_
  intro reply machine
  cases reply <;> rfl

theorem storeGetOr_world (key : Text) (fallback : Json ν) :
    KeepsWorld (Shipped.storeGetOr host key fallback) := by
  unfold Shipped.storeGetOr
  refine bind (fun _ => rfl) ?_
  intro reply machine
  cases reply <;> rfl

/-! A record changes neither the store nor the world. -/

section Logged

variable (hview : ∀ (machine : Machine ν σ) (record : Record),
  view (machine.logs record) = view machine)

include hview

theorem logged (record : Except Fault Record) : Keeps view (logged record : Script ν σ Unit) := by
  unfold Shipped.logged
  refine (tryResult record).bind ?_
  intro record machine
  exact hview machine record

theorem finishScript (response : ScriptResponse) : Keeps view (finishScript host ctx response) :=
  (logged hview _).bind fun _ => pure _

theorem rewriteScript (response : ScriptResponse) : Keeps view (rewriteScript host ctx response) :=
  (tryResult _).bind fun response => finishScript hview response

theorem rewriteForwarded (response : Forwarded) :
    Keeps view (rewriteForwarded host ctx response) :=
  (tryResult _).bind fun _ => (logged hview _).bind fun _ => pure _

end Logged
end Keeps

end Frame
end RedfishProxy.Shipped
