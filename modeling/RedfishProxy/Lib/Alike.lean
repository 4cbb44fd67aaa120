import RedfishProxy.Lib.Exec
import RedfishProxy.Lib.Throws

/-!
# Two computations that come to the same

Two computations are alike under a relation on states when from related states
they come to one result and to related states again. The rules follow how the
computations are put together.
-/

namespace Lib

universe u

variable {ε σ α β : Type u}

theorem exec_attempt (m : ExceptT ε (StateM σ) α) (state : σ) :
    exec (attempt m : ExceptT ε (StateM σ) (Except ε α)) state =
      (.ok (exec m state).1, (exec m state).2) := rfl

def Alike (R : σ → σ → Prop) (a b : ExceptT ε (StateM σ) α) : Prop :=
  ∀ state state', R state state' →
    (exec a state).1 = (exec b state').1 ∧ R (exec a state).2 (exec b state').2

namespace Alike

variable {R : σ → σ → Prop}

theorem pure (value : α) : Alike (ε := ε) R (Pure.pure value) (Pure.pure value) :=
  fun _ _ h => ⟨rfl, h⟩

theorem throw (error : ε) : Alike (α := α) R (MonadExcept.throw error) (MonadExcept.throw error) :=
  fun _ _ h => ⟨rfl, h⟩

theorem fromResult (result : Except ε α) :
    Alike R (Lib.fromResult result) (Lib.fromResult result) :=
  fun _ _ h => ⟨rfl, h⟩

theorem bind {a b : ExceptT ε (StateM σ) α} {next next' : α → ExceptT ε (StateM σ) β}
    (h : Alike R a b) (hnext : ∀ value, Alike R (next value) (next' value)) :
    Alike R (a >>= next) (b >>= next') := by
  intro state state' hstates
  obtain ⟨hresult, hafter⟩ := h state state' hstates
  rw [exec_bind, exec_bind]
  cases ha : exec a state with
  | mk result after =>
      cases hb : exec b state' with
      | mk result' after' =>
          rw [ha, hb] at hresult hafter
          have hsame : result = result' := hresult
          subst hsame
          cases result with
          | error error => exact ⟨rfl, hafter⟩
          | ok value => exact hnext value after after' hafter

/-- The outcomes are alike as values. -/
theorem attempt {a b : ExceptT ε (StateM σ) α} (h : Alike R a b) :
    Alike (ε := ε) R (Lib.attempt a) (Lib.attempt b) := by
  intro state state' hstates
  obtain ⟨hresult, hafter⟩ := h state state' hstates
  rw [exec_attempt, exec_attempt]
  exact ⟨congrArg Except.ok hresult, hafter⟩

end Alike

end Lib
