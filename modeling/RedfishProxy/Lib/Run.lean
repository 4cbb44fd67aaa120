/-!
# Runs of a deterministic system

A system is a step function. `Visits` says which states a run goes through; the
rules say what holds of all of them. `Visits.invariant` needs each step to keep
the invariant, `Visits.invariant_of_mem` only the steps the run takes. A run
whose steps can fail is a `foldlM`; `foldlM_invariant` is its rule.
-/

namespace Lib

universe u v

variable {σ : Type u} {α : Type v} (step : σ → α → σ)

/-- The state a run ends in. -/
def after (start : σ) (actions : List α) : σ := actions.foldl step start

theorem after_append (start : σ) (front back : List α) :
    after step start (front ++ back) = after step (after step start front) back :=
  List.foldl_append ..

theorem after_concat (start : σ) (actions : List α) (action : α) :
    after step start (actions ++ [action]) = step (after step start actions) action :=
  after_append step start actions [action]

/-- What holds of every step of a run, step by step. -/
theorem forall_splits_cons {P : List α → α → Prop} {first : α} {items : List α}
    (hfirst : P [] first)
    (h : ∀ done item rest, items = done ++ item :: rest → P (first :: done) item)
    (done : List α) (item : α) (rest : List α) (hitems : first :: items = done ++ item :: rest) :
    P done item := by
  cases done with
  | nil =>
      obtain ⟨rfl, _⟩ := List.cons.inj hitems
      exact hfirst
  | cons other done =>
      obtain ⟨rfl, htail⟩ := List.cons.inj hitems
      exact h done item rest htail

/-- A state the run goes through, its first and its last included. -/
def Visits (start : σ) (actions : List α) (state : σ) : Prop :=
  ∃ done rest, actions = done ++ rest ∧ state = after step start done

namespace Visits

variable {step} {start state : σ} {actions : List α}

theorem first (actions : List α) : Visits step start actions start :=
  ⟨[], actions, rfl, rfl⟩

theorem last (actions : List α) : Visits step start actions (after step start actions) :=
  ⟨actions, [], by simp, rfl⟩

theorem cons_iff {action : α} :
    Visits step start (action :: actions) state ↔
      state = start ∨ Visits step (step start action) actions state := by
  constructor
  · intro h
    obtain ⟨done, rest, heq, hstate⟩ := h
    cases done with
    | nil => exact .inl hstate
    | cons first done =>
        obtain ⟨rfl, hrest⟩ := List.cons.inj heq
        exact .inr ⟨done, rest, hrest, hstate⟩
  · intro h
    rcases h with h | ⟨done, rest, heq, hstate⟩
    · subst h
      exact first _
    · exact ⟨action :: done, rest, by rw [heq]; rfl, hstate⟩

theorem eq_of_nil (h : Visits step start [] state) : state = start := by
  obtain ⟨done, rest, heq, hstate⟩ := h
  cases done with
  | nil => exact hstate
  | cons first done => cases heq

/-- What the steps of this run keep holds of every state it visits. -/
theorem invariant_of_mem {Inv : σ → Prop} (hstart : Inv start)
    (hstep : ∀ s, ∀ action ∈ actions, Inv s → Inv (step s action))
    (h : Visits step start actions state) : Inv state := by
  induction actions generalizing start with
  | nil =>
      rw [h.eq_of_nil]
      exact hstart
  | cons action actions ih =>
      rcases cons_iff.mp h with heq | h
      · rw [heq]
        exact hstart
      · refine ih (hstep start action (by simp) hstart) ?_ h
        intro s a ha
        exact hstep s a (by simp [ha])

/-- What every step keeps holds of every state of every run. -/
theorem invariant {Inv : σ → Prop} (hstart : Inv start)
    (hstep : ∀ s action, Inv s → Inv (step s action))
    (h : Visits step start actions state) : Inv state :=
  invariant_of_mem hstart (fun s action _ => hstep s action) h

end Visits

/-! ## Steps that can fail -/

section Fallible

variable {ε : Type u} {β γ : Type v}

/-- A result that went on came to a value first. -/
theorem bind_ok {result : Except ε β} {next : β → Except ε γ} {value : γ}
    (h : result >>= next = .ok value) : ∃ first, result = .ok first ∧ next first = .ok value := by
  cases result with
  | error error => cases h
  | ok first => exact ⟨first, rfl, h⟩

theorem map_ok {result : Except ε β} {f : β → γ} {value : γ} (h : result.map f = .ok value) :
    ∃ first, result = .ok first ∧ f first = value := by
  cases result with
  | error error => cases h
  | ok first => exact ⟨first, rfl, Except.ok.inj h⟩

theorem mapError_ok {ε' : Type u} {result : Except ε β} {f : ε → ε'} {value : β}
    (h : result.mapError f = .ok value) : result = .ok value := by
  cases result with
  | error error => cases h
  | ok found => exact congrArg Except.ok (Except.ok.inj h)

/-- What every step that succeeds keeps holds where a run that succeeds ends. -/
theorem foldlM_invariant {σ : Type v} {step : σ → α → Except ε σ} (Inv : σ → Prop)
    {actions : List α} {start last : σ}
    (hstep : ∀ s s', ∀ action ∈ actions, step s action = .ok s' → Inv s → Inv s')
    (h : actions.foldlM step start = .ok last) (hstart : Inv start) : Inv last := by
  induction actions generalizing start with
  | nil =>
      obtain rfl : start = last := by injection h
      exact hstart
  | cons action actions ih =>
      rw [List.foldlM_cons] at h
      obtain ⟨next, hfirst, hrest⟩ := bind_ok h
      refine ih ?_ hrest (hstep start next action (by simp) hfirst hstart)
      intro s s' a ha
      exact hstep s s' a (by simp [ha])

theorem foldlM_append_ok {σ : Type v} {step : σ → α → Except ε σ} {actions more : List α}
    {start last : σ} (h : (actions ++ more).foldlM step start = .ok last) :
    ∃ between, actions.foldlM step start = .ok between ∧ more.foldlM step between = .ok last := by
  rw [List.foldlM_append] at h
  exact bind_ok h

/-- Two runs of the same actions stay related as their steps do. -/
theorem foldlM_related {σ : Type v} {step : σ → α → Except ε σ} (R : σ → σ → Prop)
    (hstep : ∀ s s' t t' action, R s t → step s action = .ok s' → step t action = .ok t' → R s' t')
    {actions : List α} {start start' last last' : σ} (hstart : R start start')
    (h : actions.foldlM step start = .ok last) (h' : actions.foldlM step start' = .ok last') :
    R last last' := by
  induction actions generalizing start start' with
  | nil =>
      obtain rfl : start = last := by injection h
      obtain rfl : start' = last' := by injection h'
      exact hstart
  | cons action actions ih =>
      rw [List.foldlM_cons] at h h'
      obtain ⟨next, hfirst, hrest⟩ := bind_ok h
      obtain ⟨next', hfirst', hrest'⟩ := bind_ok h'
      exact ih (hstep start next start' next' action hstart hfirst hfirst') hrest hrest'

end Fallible

end Lib
