import Mathlib.Data.List.Forall2

/-!
# Running a computation

`exec m state` is what `m` comes to from a state: its result and the state it
leaves. The equations say how a run is put together, so that a computation is
followed step by step, and a list of them item by item (`ExecAll`).
-/

namespace Lib

universe u

variable {ε σ α β : Type u}

/-- The result of a computation and the state it leaves. -/
def exec (m : ExceptT ε (StateM σ) α) (state : σ) : Except ε α × σ := m.run.run state

/-- What comes after a result. -/
def thenExec (next : α → ExceptT ε (StateM σ) β) : Except ε α × σ → Except ε β × σ
  | (.ok value, state) => exec (next value) state
  | (.error error, state) => (.error error, state)

@[simp] theorem thenExec_ok (next : α → ExceptT ε (StateM σ) β) (value : α) (state : σ) :
    thenExec next (.ok value, state) = exec (next value) state := rfl

@[simp] theorem thenExec_error (next : α → ExceptT ε (StateM σ) β) (error : ε) (state : σ) :
    thenExec next (.error error, state) = (.error error, state) := rfl

@[simp] theorem exec_pure (value : α) (state : σ) :
    exec (pure value : ExceptT ε (StateM σ) α) state = (.ok value, state) := rfl

@[simp] theorem exec_throw (error : ε) (state : σ) :
    exec (throw error : ExceptT ε (StateM σ) α) state = (.error error, state) := rfl

@[simp] theorem exec_bind (m : ExceptT ε (StateM σ) α) (next : α → ExceptT ε (StateM σ) β)
    (state : σ) : exec (m >>= next) state = thenExec next (exec m state) := by
  show ((ExceptT.bindCont next (m.run.run state).1).run (m.run.run state).2) = _
  unfold exec
  cases h : m.run.run state with
  | mk result state' => cases result <;> rfl

/-- What comes to a value comes to one at each step. -/
theorem exec_bind_ok {m : ExceptT ε (StateM σ) α} {next : α → ExceptT ε (StateM σ) β}
    {state state' : σ} {value : β} (h : exec (m >>= next) state = (.ok value, state')) :
    ∃ first between, exec m state = (.ok first, between) ∧
      exec (next first) between = (.ok value, state') := by
  rw [exec_bind] at h
  cases hm : exec m state with
  | mk result between =>
      rw [hm] at h
      cases result with
      | error error => cases h
      | ok first => exact ⟨first, between, rfl, h⟩

/-- What comes to a value in any case leaves it to what is before it. -/
theorem exec_bind_ok_iff {m : ExceptT ε (StateM σ) α} {next : α → ExceptT ε (StateM σ) β}
    (hnext : ∀ value between, ∃ result, (exec (next value) between).1 = .ok result) (state : σ) :
    (∃ result, (exec (m >>= next) state).1 = .ok result) ↔
      ∃ value, (exec m state).1 = .ok value := by
  rw [exec_bind]
  cases exec m state with
  | mk result between =>
      cases result with
      | error error => exact iff_of_false (fun ⟨_, h⟩ => nomatch h) (fun ⟨_, h⟩ => nomatch h)
      | ok value => exact iff_of_true (hnext value between) ⟨value, rfl⟩

@[simp] theorem exec_map (f : α → β) (m : ExceptT ε (StateM σ) α) (state : σ) :
    exec (f <$> m) state = ((exec m state).1.map f, (exec m state).2) := by
  have h : f <$> m = m >>= fun value => pure (f value) := (bind_pure_comp f m).symm
  rw [h, exec_bind]
  cases exec m state with
  | mk result state' => cases result <;> rfl

/-! ## Lists of computations -/

/-- Each item comes to its result, from the state the one before left. -/
inductive ExecAll (f : α → ExceptT ε (StateM σ) β) : List α → List β → σ → σ → Prop where
  | nil (state : σ) : ExecAll f [] [] state state
  | cons {item : α} {items : List α} {result : β} {results : List β} {state between last : σ}
      (h : exec (f item) state = (.ok result, between))
      (hrest : ExecAll f items results between last) :
      ExecAll f (item :: items) (result :: results) state last

variable {f : α → ExceptT ε (StateM σ) β} {items : List α} {results : List β} {state last : σ}

theorem exec_mapM_ok_iff :
    exec (items.mapM f) state = (.ok results, last) ↔ ExecAll f items results state last := by
  induction items generalizing results state with
  | nil =>
      constructor
      · intro h
        cases h
        exact .nil _
      · intro h
        cases h
        rfl
  | cons item items ih =>
      rw [List.mapM_cons]
      constructor
      · intro h
        obtain ⟨result, between, hitem, h⟩ := exec_bind_ok h
        obtain ⟨others, last', hothers, h⟩ := exec_bind_ok h
        cases h
        exact .cons hitem (ih.mp hothers)
      · intro h
        cases h with
        | cons hitem hrest =>
            rw [exec_bind, hitem, thenExec_ok, exec_bind, ih.mpr hrest, thenExec_ok, exec_pure]

/-- The first that fails ends the list. -/
theorem exec_mapM_error {before after : List α} {item : α} {error : ε} {between : σ}
    (hbefore : ExecAll f before results state between)
    (hitem : exec (f item) between = (.error error, last)) :
    exec ((before ++ item :: after).mapM f) state = (.error error, last) := by
  induction hbefore with
  | nil state => rw [List.nil_append, List.mapM_cons, exec_bind, hitem, thenExec_error]
  | cons h _ ih =>
      rw [List.cons_append, List.mapM_cons, exec_bind, h, thenExec_ok, exec_bind, ih hitem,
        thenExec_error]

/-- Items that come to their results wherever an invariant holds, and keep it. -/
theorem execAll_of_invariant {Inv : σ → Prop} {R : α → β → Prop}
    (hf : ∀ item result, R item result → ∀ state, Inv state →
      ∃ next, exec (f item) state = (.ok result, next) ∧ Inv next)
    (hall : List.Forall₂ R items results) (hstart : Inv state) :
    ∃ last, ExecAll f items results state last ∧ Inv last := by
  induction hall generalizing state with
  | nil => exact ⟨state, .nil state, hstart⟩
  | cons hitem _ ih =>
      obtain ⟨next, hrun, hnext⟩ := hf _ _ hitem state hstart
      obtain ⟨last, hrest, hlast⟩ := ih hnext
      exact ⟨last, .cons hrun hrest, hlast⟩

end Lib
