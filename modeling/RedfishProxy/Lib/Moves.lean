import Mathlib.Order.Defs.Unbundled
import RedfishProxy.Lib.Alike

/-!
# Where a computation moves its state

A computation moves along a relation when, whatever it comes to, it leaves a
state related to the one it started in. Along a preorder the computations that do
are closed under how computations are put together.
-/

namespace Lib

universe u

variable {ε σ α β : Type u}

def Moves (R : σ → σ → Prop) (m : ExceptT ε (StateM σ) α) : Prop :=
  ∀ state, R state (exec m state).2

namespace Moves

variable {R : σ → σ → Prop}

section Still

variable [Std.Refl R]

/-- A computation that changes nothing stays where it is. -/
theorem of_eq {m : ExceptT ε (StateM σ) α} (h : ∀ state, (exec m state).2 = state) : Moves R m := by
  intro state
  rw [h]
  exact Std.Refl.refl state

theorem pure (value : α) : Moves (ε := ε) R (Pure.pure value) := of_eq fun _ => rfl

theorem throw (error : ε) : Moves (α := α) R (MonadExcept.throw error) := of_eq fun _ => rfl

theorem fromResult (result : Except ε α) : Moves R (Lib.fromResult result) := of_eq fun _ => rfl

end Still

theorem bind [IsTrans σ R] {m : ExceptT ε (StateM σ) α} {next : α → ExceptT ε (StateM σ) β}
    (h : Moves R m) (hnext : ∀ value, Moves R (next value)) : Moves R (m >>= next) := by
  intro state
  rw [exec_bind]
  have hfirst := h state
  cases hm : exec m state with
  | mk result between =>
      rw [hm] at hfirst
      cases result with
      | error error => exact hfirst
      | ok value => exact IsTrans.trans _ _ _ hfirst (hnext value between)

theorem map {m : ExceptT ε (StateM σ) α} (h : Moves R m) (f : α → β) : Moves R (f <$> m) := by
  intro state
  rw [exec_map]
  exact h state

theorem mapM [Std.Refl R] [IsTrans σ R] {f : α → ExceptT ε (StateM σ) β} (items : List α)
    (h : ∀ item ∈ items, Moves R (f item)) : Moves R (items.mapM f) := by
  induction items with
  | nil => exact pure []
  | cons item items ih =>
      rw [List.mapM_cons]
      refine bind (h item (by simp)) fun value => bind (ih ?_) fun values => pure _
      intro item hitem
      exact h item (by simp [hitem])

/-- From where the first part leaves it, the rest moves the state on. -/
theorem after_bind [Std.Refl R] {next : α → ExceptT ε (StateM σ) β}
    (hnext : ∀ value, Moves R (next value)) (m : ExceptT ε (StateM σ) α) (state : σ) :
    R (exec m state).2 (exec (m >>= next) state).2 := by
  rw [exec_bind]
  cases exec m state with
  | mk result between =>
      cases result with
      | error error => exact Std.Refl.refl between
      | ok value => exact hnext value between

theorem ite {c : Prop} [Decidable c] {a b : ExceptT ε (StateM σ) α} (ha : Moves R a)
    (hb : Moves R b) : Moves R (if c then a else b) := by
  split
  · exact ha
  · exact hb

theorem attempt {m : ExceptT ε (StateM σ) α} (h : Moves R m) :
    Moves (ε := ε) R (Lib.attempt m) := by
  intro state
  rw [exec_attempt]
  exact h state

end Moves

end Lib
