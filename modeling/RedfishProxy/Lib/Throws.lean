/-!
# The errors of a stateful computation

`Throws P m` says that whatever state `m` starts in, an error it ends in meets
`P`. The rules follow how a computation is put together, so that an error can be
traced to the call that raised it.
-/

namespace Lib

universe u

variable {ε σ α β : Type u} {P : ε → Prop}

/-- Only errors that meet `P`. -/
def Throws (P : ε → Prop) (m : ExceptT ε (StateM σ) α) : Prop :=
  ∀ state error, (m.run.run state).1 = .error error → P error

/-- The same of a plain result. -/
def Fails (P : ε → Prop) (result : Except ε α) : Prop :=
  ∀ error, result = .error error → P error

/-- A value that a computation may come to. -/
def Yields (m : ExceptT ε (StateM σ) α) (value : α) : Prop :=
  ∃ state, (m.run.run state).1 = .ok value

/-- An `Except` in a stateful computation. -/
def fromResult (result : Except ε α) : ExceptT ε (StateM σ) α := ExceptT.mk (pure result)

/-- The outcome of a computation, as a value. -/
def attempt (m : ExceptT ε (StateM σ) α) : ExceptT ε (StateM σ) (Except ε α) :=
  ExceptT.lift m.run

namespace Fails

theorem ok (value : α) : Fails P (.ok value) := by
  intro error h
  cases h

theorem error {error : ε} (h : P error) : Fails P (.error error : Except ε α) := by
  intro error' heq
  injection heq with heq
  rw [← heq]
  exact h

theorem bind {result : Except ε α} {next : α → Except ε β} (hresult : Fails P result)
    (hnext : ∀ value, Fails P (next value)) : Fails P (result >>= next) := by
  cases result with
  | ok value => exact hnext value
  | error e => exact error (hresult e rfl)

theorem mapError {ε' : Type u} {result : Except ε' α} {f : ε' → ε} (h : ∀ e, P (f e)) :
    Fails P (result.mapError f) := by
  cases result with
  | ok value => exact ok value
  | error e => exact error (h e)

end Fails

namespace Yields

theorem fromResult {result : Except ε α} {value : α}
    (h : Yields (Lib.fromResult result : ExceptT ε (StateM σ) α) value) : result = .ok value := by
  obtain ⟨_, h⟩ := h
  exact h

theorem lift {m : StateM σ α} {value : α}
    (h : Yields (ExceptT.lift m : ExceptT ε (StateM σ) α) value) :
    ∃ state, (m.run state).1 = value := by
  obtain ⟨state, h⟩ := h
  injection h with h
  exact ⟨state, h⟩

end Yields

namespace Throws

theorem pure (value : α) : Throws P (Pure.pure value : ExceptT ε (StateM σ) α) := by
  intro state error h
  cases h

theorem throw {error : ε} (h : P error) :
    Throws P (MonadExcept.throw error : ExceptT ε (StateM σ) α) := by
  intro state error' heq
  injection heq with heq
  rw [← heq]
  exact h

theorem fromResult {result : Except ε α} (h : Fails P result) :
    Throws P (fromResult result : ExceptT ε (StateM σ) α) := by
  intro state error heq
  exact h error heq

/-- What only reads and writes the state throws nothing. -/
theorem lift (m : StateM σ α) : Throws P (ExceptT.lift m : ExceptT ε (StateM σ) α) := by
  intro state error h
  cases h

theorem attempt (m : ExceptT ε (StateM σ) α) : Throws P (attempt m) := lift m.run

/-- What comes after a computation only has to be looked at for the values it
may come to. -/
theorem bindYields {m : ExceptT ε (StateM σ) α} {next : α → ExceptT ε (StateM σ) β}
    (hm : Throws P m) (hnext : ∀ value, Yields m value → Throws P (next value)) :
    Throws P (m >>= next) := by
  intro state error h
  change ((ExceptT.bindCont next (m.run.run state).1).run (m.run.run state).2).1 = _ at h
  cases hresult : (m.run.run state).1 with
  | ok value =>
      rw [hresult] at h
      exact hnext value ⟨state, hresult⟩ _ error h
  | error e =>
      rw [hresult] at h
      injection h with h
      rw [← h]
      exact hm state e hresult

theorem bind {m : ExceptT ε (StateM σ) α} {next : α → ExceptT ε (StateM σ) β}
    (hm : Throws P m) (hnext : ∀ value, Throws P (next value)) : Throws P (m >>= next) :=
  bindYields hm fun value _ => hnext value

theorem map {m : ExceptT ε (StateM σ) α} (hm : Throws P m) (f : α → β) : Throws P (f <$> m) := by
  have hbind : (f <$> m) = (m >>= fun value => Pure.pure (f value)) := (bind_pure_comp f m).symm
  rw [hbind]
  exact bind hm fun value => pure (f value)

theorem mapM {f : α → ExceptT ε (StateM σ) β} (items : List α)
    (hf : ∀ item ∈ items, Throws P (f item)) : Throws P (items.mapM f) := by
  induction items with
  | nil => exact pure []
  | cons item items ih =>
      rw [List.mapM_cons]
      refine bind (hf item (by simp)) fun value => bind (ih ?_) fun values => pure _
      intro item hitem
      exact hf item (by simp [hitem])

theorem mono {Q : ε → Prop} {m : ExceptT ε (StateM σ) α} (hm : Throws P m)
    (h : ∀ error, P error → Q error) : Throws Q m :=
  fun state error heq => h error (hm state error heq)

end Throws
end Lib
