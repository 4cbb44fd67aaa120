import Mathlib.Data.List.Induction
import RedfishProxy.Lib.Run

/-!
# A value that is computed on first use

Calls look at a cell. One that finds it filled takes what is there; one that
finds it empty computes the value, suspending on the way, and fills the cell
without looking again. The calls are interleaved at their awaits, with any
answers, and may be dropped.

Main results:
* `one_value_iff`: all calls that succeed have one value exactly in the runs that
  never put another value into a filled cell.
* `not_late_of_in_turn`: no call computes on beside a filled cell when none starts
  beside another.
-/

namespace Lib

universe u v w x

/-- A computation that suspends. It goes on with an answer it awaits. -/
structure Suspending (τ : Type u) (β : Type v) (ε : Type w) (α : Type x) where
  start : τ ⊕ Except ε α
  resume : τ → β → Option (τ ⊕ Except ε α)

/-- Where a call stands. A value comes with the number of the call that computed
it, which the program does not keep. -/
inductive CallPhase (τ : Type u) (ε : Type w) (α : Type x) where
  | pending (task : τ)
  | ended (outcome : Except ε (Nat × α))
  | dropped

/-- The cell, and the calls by their number. -/
structure FirstUse (τ : Type u) (ε : Type w) (α : Type x) where
  kept : Option (Nat × α)
  calls : List (CallPhase τ ε α)

inductive UseEvent (β : Type v) where
  /-- A new call looks at the cell. -/
  | look
  /-- What a call awaits has come. -/
  | wake (call : Nat) (answer : β)
  | drop (call : Nat)

namespace FirstUse

variable {τ : Type u} {β : Type v} {ε : Type w} {α : Type x}

def empty : FirstUse τ ε α := ⟨none, []⟩

/-- The call goes on to its next await, or comes to its end. -/
def advance (state : FirstUse τ ε α) (call : Nat) : τ ⊕ Except ε α → FirstUse τ ε α
  | .inl task => { state with calls := state.calls.set call (.pending task) }
  | .inr (.error error) => { state with calls := state.calls.set call (.ended (.error error)) }
  | .inr (.ok value) => {
      kept := some (call, value)
      calls := state.calls.set call (.ended (.ok (call, value))) }

variable (program : Suspending τ β ε α)

def step (state : FirstUse τ ε α) : UseEvent β → FirstUse τ ε α
  | .look =>
    match state.kept with
    | some kept => { state with calls := state.calls ++ [.ended (.ok kept)] }
    | none =>
      advance { state with calls := state.calls ++ [.dropped] } state.calls.length program.start
  | .wake call answer =>
    match state.calls[call]? with
    | some (.pending task) =>
      match program.resume task answer with
      | some next => state.advance call next
      | none => state
    | _ => state
  | .drop call =>
    match state.calls[call]? with
    | some (.pending _) => { state with calls := state.calls.set call .dropped }
    | _ => state

/-- The call came to this value. -/
def Succeeded (state : FirstUse τ ε α) (call : Nat) (value : Nat × α) : Prop :=
  state.calls[call]? = some (.ended (.ok value))

/-- All calls that succeeded have one value. -/
def OneValue (state : FirstUse τ ε α) : Prop :=
  ∀ call call' value value', state.Succeeded call value → state.Succeeded call' value' →
    value.2 = value'.2

/-- The event is the end of a computation whose value goes over a different
one. -/
def Overwrites (state : FirstUse τ ε α) (event : UseEvent β) : Prop :=
  ∃ kept call answer task value, state.kept = some kept ∧ event = .wake call answer ∧
    state.calls[call]? = some (.pending task) ∧
      program.resume task answer = some (.inr (.ok value)) ∧ value ≠ kept.2

/-- The call is computing. -/
def AtWork (state : FirstUse τ ε α) (call : Nat) : Prop :=
  ∃ task, state.calls[call]? = some (.pending task)

/-- A call computes on when another has filled the cell. -/
def Late (state : FirstUse τ ε α) (event : UseEvent β) : Prop :=
  ∃ call answer, event = .wake call answer ∧ state.AtWork call ∧ state.kept ≠ none

/-- A call finds the cell empty while another is computing. -/
def Overlaps (state : FirstUse τ ε α) (event : UseEvent β) : Prop :=
  event = .look ∧ state.kept = none ∧ ∃ call, state.AtWork call

theorem Overwrites.late {program : Suspending τ β ε α} {state : FirstUse τ ε α}
    {event : UseEvent β} (h : Overwrites program state event) : Late state event := by
  obtain ⟨kept, call, answer, task, value, hkept, hevent, htask, _⟩ := h
  exact ⟨call, answer, hevent, ⟨task, htask⟩, by simp [hkept]⟩

/-! ## What one step does -/

section Step

variable {program} {state : FirstUse τ ε α} {call : Nat} {phase : CallPhase τ ε α}

theorem succeeded_append (state : FirstUse τ ε α) (phase : CallPhase τ ε α)
    (kept : Option (Nat × α)) (c : Nat) (v : Nat × α) : Succeeded ⟨kept, state.calls ++ [phase]⟩ c v ↔
      state.Succeeded c v ∨ c = state.calls.length ∧ phase = .ended (.ok v) := by
  unfold Succeeded
  dsimp only
  by_cases hlt : c < state.calls.length
  · rw [List.getElem?_append_left hlt]
    constructor
    · exact .inl
    · rintro (h | ⟨rfl, _⟩)
      · exact h
      · omega
  · rw [List.getElem?_append_right (by omega)]
    have hnone : state.calls[c]? = none := List.getElem?_eq_none (by omega)
    rw [hnone]
    by_cases heq : c = state.calls.length
    · subst heq
      simp
    · have hpast : [phase][c - state.calls.length]? = none :=
        List.getElem?_eq_none (by rw [List.length_singleton]; omega)
      simp [hpast, heq]

theorem succeeded_set (hcall : call < state.calls.length) (hnew : ∀ v, ¬ state.Succeeded call v)
    (phase : CallPhase τ ε α) (kept : Option (Nat × α)) (c : Nat) (v : Nat × α) :
    Succeeded ⟨kept, state.calls.set call phase⟩ c v ↔
      state.Succeeded c v ∨ c = call ∧ phase = .ended (.ok v) := by
  unfold Succeeded
  dsimp only
  by_cases heq : c = call
  · subst heq
    rw [List.getElem?_set_self hcall]
    constructor
    · intro h
      exact .inr ⟨rfl, Option.some.inj h⟩
    · rintro (h | ⟨_, h⟩)
      · exact absurd h (hnew v)
      · rw [h]
  · rw [List.getElem?_set_ne (Ne.symm heq)]
    simp [heq]

/-- What a step leaves: the same successes; one more, with what the cell holds;
or one more with a value of its own, which is put into the cell. -/
inductive Stepped (overwrites : Prop) (state state' : FirstUse τ ε α) : Prop where
  | quiet (hkept : state'.kept = state.kept)
      (hcalls : ∀ c v, state'.Succeeded c v ↔ state.Succeeded c v)
  | took (call : Nat) (value : Nat × α) (hkept : state.kept = some value)
      (hsame : state'.kept = state.kept)
      (hcalls : ∀ c v, state'.Succeeded c v ↔ state.Succeeded c v ∨ c = call ∧ v = value)
  | filled (call : Nat) (value : α) (hnew : ∀ v, ¬ state.Succeeded call v)
      (hfresh : ∀ kept, state.kept = some kept → value = kept.2 ∨ overwrites)
      (hkept : state'.kept = some (call, value))
      (hcalls : ∀ c v, state'.Succeeded c v ↔
        state.Succeeded c v ∨ c = call ∧ v = (call, value))

theorem Stepped.of_same {overwrites : Prop} (placed : FirstUse τ ε α) {state' : FirstUse τ ε α}
    (hkept : placed.kept = state.kept)
    (hplaced : ∀ c v, placed.Succeeded c v ↔ state.Succeeded c v)
    (h : Stepped overwrites placed state') : Stepped overwrites state state' := by
  cases h with
  | quiet hsame hcalls =>
      exact .quiet (hsame.trans hkept) fun c v => (hcalls c v).trans (hplaced c v)
  | took call value hvalue hsame hcalls =>
      refine .took call value (hkept ▸ hvalue) (hsame.trans hkept) fun c v => ?_
      rw [hcalls, hplaced]
  | filled call value hnew hfresh hfilled hcalls =>
      refine .filled call value (fun v hv => hnew v ((hplaced _ v).mpr hv)) (hkept ▸ hfresh) hfilled
        fun c v => ?_
      rw [hcalls, hplaced]

theorem stepped_advance (hcall : call < state.calls.length)
    (hnew : ∀ v, ¬ state.Succeeded call v) {next : τ ⊕ Except ε α} {overwrites : Prop}
    (hfresh : ∀ value, next = .inr (.ok value) →
      ∀ kept, state.kept = some kept → value = kept.2 ∨ overwrites) :
    Stepped overwrites state (state.advance call next) := by
  match next with
  | .inl task =>
      refine .quiet rfl fun c v => (succeeded_set hcall hnew _ _ c v).trans ?_
      simp
  | .inr (.error error) =>
      refine .quiet rfl fun c v => (succeeded_set hcall hnew _ _ c v).trans ?_
      simp
  | .inr (.ok value) =>
      refine .filled call value hnew (hfresh value rfl) rfl fun c v => ?_
      refine (succeeded_set hcall hnew _ _ c v).trans ?_
      simp [eq_comm]

theorem Stepped.still (overwrites : Prop) (state : FirstUse τ ε α) :
    Stepped overwrites state state :=
  .quiet rfl fun _ _ => Iff.rfl

theorem not_succeeded_of_pending {task : τ} (h : state.calls[call]? = some (.pending task))
    (v : Nat × α) : ¬ state.Succeeded call v := by
  intro hv
  rw [Succeeded, h] at hv
  cases hv

theorem stepped_look (program : Suspending τ β ε α) (state : FirstUse τ ε α) :
    Stepped (Overwrites program state .look) state (step program state .look) := by
  cases hkept : state.kept with
  | some kept =>
      have hstep : step program state .look =
          ⟨state.kept, state.calls ++ [.ended (.ok kept)]⟩ := by
        unfold step
        rw [hkept]
      rw [hstep]
      refine .took state.calls.length kept hkept rfl fun c v => ?_
      rw [succeeded_append]
      simp [eq_comm]
  | none =>
      let placed : FirstUse τ ε α := ⟨state.kept, state.calls ++ [.dropped]⟩
      have hstep : step program state .look =
          placed.advance state.calls.length program.start := by
        simp only [step, hkept, placed]
      have hplaced : ∀ c v, placed.Succeeded c v ↔ state.Succeeded c v := by
        intro c v
        rw [succeeded_append]
        simp
      rw [hstep]
      refine Stepped.of_same placed rfl hplaced (stepped_advance ?_ ?_ ?_)
      · show state.calls.length < (state.calls ++ [CallPhase.dropped]).length
        rw [List.length_append]
        exact Nat.lt_succ_self _
      · intro v hv
        rw [hplaced] at hv
        obtain ⟨hlt, _⟩ := List.getElem?_eq_some_iff.mp hv
        omega
      · intro _ _ kept hsome
        rw [show placed.kept = state.kept from rfl, hkept] at hsome
        cases hsome

theorem stepped_wake (program : Suspending τ β ε α) (state : FirstUse τ ε α) (call : Nat)
    (answer : β) : Stepped (Overwrites program state (.wake call answer)) state
      (step program state (.wake call answer)) := by
  unfold step
  dsimp only
  split
  · rename_i task htask
    split
    · rename_i next hnext
      refine stepped_advance (List.getElem?_eq_some_iff.mp htask).1
        (not_succeeded_of_pending htask) ?_
      rintro value rfl kept hkept
      rcases Classical.em (value = kept.2) with heq | hne
      · exact .inl heq
      · exact .inr ⟨kept, call, answer, task, value, hkept, rfl, htask, hnext, hne⟩
    · exact .still _ state
  · exact .still _ state

theorem stepped_drop (program : Suspending τ β ε α) (state : FirstUse τ ε α) (call : Nat) :
    Stepped (Overwrites program state (.drop call)) state (step program state (.drop call)) := by
  unfold step
  dsimp only
  split
  · rename_i task htask
    refine .quiet rfl fun c v => ?_
    refine (succeeded_set (List.getElem?_eq_some_iff.mp htask).1
      (not_succeeded_of_pending htask) _ _ c v).trans ?_
    simp
  · exact .still _ state

/-- **Every step** is one of these. -/
theorem stepped (program : Suspending τ β ε α) (state : FirstUse τ ε α) (event : UseEvent β) :
    Stepped (Overwrites program state event) state (step program state event) := by
  cases event with
  | look => exact stepped_look program state
  | wake call answer => exact stepped_wake program state call answer
  | drop call => exact stepped_drop program state call

end Step

/-! ## One call at a time -/

/-- At most one call is computing, and only for an empty cell. -/
structure InTurn (state : FirstUse τ ε α) : Prop where
  one : ∀ call call', state.AtWork call → state.AtWork call' → call = call'
  unfilled : ∀ call, state.AtWork call → state.kept = none

section InTurn

variable {program : Suspending τ β ε α} {state : FirstUse τ ε α} {call : Nat}

theorem not_late_of_inTurn (h : InTurn state) (event : UseEvent β) : ¬ Late state event := by
  rintro ⟨call, _, _, hwork, hkept⟩
  exact hkept (h.unfilled call hwork)

/-- Whether another call is computing does not depend on where this one stands. -/
theorem atWork_set_of_ne {other : Nat} (hne : other ≠ call) (phase : CallPhase τ ε α)
    (kept : Option (Nat × α)) : AtWork ⟨kept, state.calls.set call phase⟩ other ↔
      state.AtWork other := by
  unfold AtWork
  rw [List.getElem?_set_ne (Ne.symm hne)]

/-- A call that has ended, or is dropped, is not computing. -/
theorem not_atWork_set (hcall : call < state.calls.length) {phase : CallPhase τ ε α}
    (hphase : ∀ task, phase ≠ .pending task) (kept : Option (Nat × α)) :
    ¬ AtWork ⟨kept, state.calls.set call phase⟩ call := by
  rintro ⟨task, htask⟩
  rw [List.getElem?_set_self hcall] at htask
  exact hphase task (Option.some.inj htask)

/-- The one call that was computing has ended, so none is. -/
theorem inTurn_set (hcall : call < state.calls.length)
    (honly : ∀ other, state.AtWork other → other = call) {phase : CallPhase τ ε α}
    (hphase : ∀ task, phase ≠ .pending task) (kept : Option (Nat × α)) :
    InTurn ⟨kept, state.calls.set call phase⟩ := by
  have hnone : ∀ other, ¬ AtWork ⟨kept, state.calls.set call phase⟩ other := by
    intro other hwork
    by_cases heq : other = call
    · subst heq
      exact not_atWork_set hcall hphase kept hwork
    · exact heq (honly other ((atWork_set_of_ne heq phase kept).mp hwork))
  exact ⟨fun other _ hwork _ => absurd hwork (hnone other), fun other hwork =>
    absurd hwork (hnone other)⟩

theorem inTurn_advance (hcall : call < state.calls.length)
    (honly : ∀ other, state.AtWork other → other = call) (hempty : state.kept = none)
    (next : τ ⊕ Except ε α) : InTurn (state.advance call next) := by
  match next with
  | .inl task =>
      have hsame : ∀ other, AtWork ⟨state.kept, state.calls.set call (.pending task)⟩ other →
          other = call := by
        intro other hwork
        by_contra hne
        exact hne (honly other ((atWork_set_of_ne hne _ _).mp hwork))
      exact ⟨fun other other' hwork hwork' => (hsame other hwork).trans (hsame other' hwork').symm,
        fun _ _ => hempty⟩
  | .inr (.error error) => exact inTurn_set hcall honly (by simp) _
  | .inr (.ok value) => exact inTurn_set hcall honly (by simp) _

theorem atWork_append {phase : CallPhase τ ε α} (hphase : ∀ task, phase ≠ .pending task)
    {kept : Option (Nat × α)} (h : AtWork ⟨kept, state.calls ++ [phase]⟩ call) :
    state.AtWork call := by
  obtain ⟨task, htask⟩ := h
  refine ⟨task, ?_⟩
  by_cases hlt : call < state.calls.length
  · rwa [List.getElem?_append_left hlt] at htask
  · rw [List.getElem?_append_right (by omega)] at htask
    have hmem : CallPhase.pending task ∈ [phase] := List.mem_of_getElem? htask
    exact absurd (List.mem_singleton.mp hmem).symm (hphase task)

/-- **Calls stay in turn** as long as none starts beside another. -/
theorem InTurn.step (h : InTurn state) {event : UseEvent β} (hevent : ¬ Overlaps state event) :
    InTurn (step program state event) := by
  unfold FirstUse.step
  cases event with
  | look =>
      cases hkept : state.kept with
      | some kept =>
          have hold : ∀ call, AtWork ⟨some kept, state.calls ++ [.ended (.ok kept)]⟩ call →
              state.AtWork call := fun _ => atWork_append (by simp)
          refine ⟨fun call call' hwork hwork' => h.one call call' (hold call hwork)
            (hold call' hwork'), fun call hwork => ?_⟩
          have hunfilled := h.unfilled call (hold call hwork)
          rw [hkept] at hunfilled
          cases hunfilled
      | none =>
          refine inTurn_advance ?_ (fun other hwork => ?_) rfl _
          · show state.calls.length < (state.calls ++ [CallPhase.dropped]).length
            rw [List.length_append]
            exact Nat.lt_succ_self _
          · -- nobody else is computing, since this would be an overlap
            exact absurd ⟨rfl, hkept, other, atWork_append (by simp) hwork⟩ hevent
  | wake call answer =>
      dsimp only
      split
      · rename_i task htask
        have hwork : state.AtWork call := ⟨task, htask⟩
        split
        · exact inTurn_advance (List.getElem?_eq_some_iff.mp htask).1
            (fun other hother => h.one other call hother hwork) (h.unfilled call hwork) _
        · exact h
      · exact h
  | drop call =>
      dsimp only
      split
      · rename_i task htask
        exact inTurn_set (List.getElem?_eq_some_iff.mp htask).1
          (fun other hother => h.one other call hother ⟨task, htask⟩) (by simp) _
      · exact h

theorem inTurn_empty : InTurn (empty : FirstUse τ ε α) where
  one := fun _ _ hwork _ => by
    obtain ⟨_, htask⟩ := hwork
    cases htask
  unfilled := fun _ _ => rfl

theorem inTurn_after (events : List (UseEvent β))
    (h : ∀ done event rest, events = done ++ event :: rest →
      ¬ Overlaps (after (step program) empty done) event) :
    InTurn (after (step program) empty events) := by
  induction events using List.reverseRecOn with
  | nil => exact inTurn_empty
  | append_singleton events event ih =>
      rw [after_concat]
      refine (ih fun done event' rest hevents => h done event' (rest ++ [event]) ?_).step
        (h events event [] rfl)
      rw [hevents, List.append_assoc, List.cons_append]

/-- **No call is late** in a run in which none starts beside another. -/
theorem not_late_of_in_turn {events : List (UseEvent β)}
    (h : ∀ done event rest, events = done ++ event :: rest →
      ¬ Overlaps (after (step program) empty done) event) {done : List (UseEvent β)}
    {event : UseEvent β} {rest : List (UseEvent β)} (hevents : events = done ++ event :: rest) :
    ¬ Late (after (step program) empty done) event := by
  refine not_late_of_inTurn (inTurn_after done fun before event' between hdone => ?_) event
  refine h before event' (between ++ event :: rest) ?_
  rw [hevents, hdone, List.append_assoc, List.cons_append]

end InTurn

/-! ## Runs -/

section Runs

variable {program : Suspending τ β ε α} {state : FirstUse τ ε α} {events : List (UseEvent β)}

/-- What the cell holds, the call that computed it came to. -/
theorem succeeded_of_kept (events : List (UseEvent β)) {value : Nat × α}
    (h : (after (step program) empty events).kept = some value) :
    (after (step program) empty events).Succeeded value.1 value := by
  induction events using List.reverseRecOn generalizing value with
  | nil => cases h
  | append_singleton events event ih =>
      rw [after_concat] at h ⊢
      cases stepped program (after (step program) empty events) event with
      | quiet hkept hcalls => exact (hcalls _ _).mpr (ih (hkept ▸ h))
      | took call taken _ hsame hcalls => exact (hcalls _ _).mpr (.inl (ih (hsame ▸ h)))
      | filled call computed _ _ hkept hcalls =>
          obtain rfl : (call, computed) = value := Option.some.inj (hkept.symm.trans h)
          exact (hcalls _ _).mpr (.inr ⟨rfl, rfl⟩)

/-- What a call came to, the call that computed it came to. -/
theorem succeeded_origin (events : List (UseEvent β)) {call : Nat} {value : Nat × α}
    (h : (after (step program) empty events).Succeeded call value) :
    (after (step program) empty events).Succeeded value.1 value := by
  induction events using List.reverseRecOn generalizing call value with
  | nil =>
      rw [Succeeded, after, List.foldl_nil, empty, List.getElem?_nil] at h
      cases h
  | append_singleton events event ih =>
      rw [after_concat] at h ⊢
      cases stepped program (after (step program) empty events) event with
      | quiet _ hcalls => exact (hcalls _ _).mpr (ih ((hcalls _ _).mp h))
      | took _ taken hkept _ hcalls =>
          rcases (hcalls _ _).mp h with h | ⟨_, rfl⟩
          · exact (hcalls _ _).mpr (.inl (ih h))
          · exact (hcalls _ _).mpr (.inl (succeeded_of_kept events hkept))
      | filled filler computed _ _ _ hcalls =>
          rcases (hcalls _ _).mp h with h | ⟨_, rfl⟩
          · exact (hcalls _ _).mpr (.inl (ih h))
          · exact (hcalls _ _).mpr (.inr ⟨rfl, rfl⟩)

/-- Where no value goes over a different one, the cell holds what every call came
to. -/
theorem kept_of_succeeded (events : List (UseEvent β))
    (h : ∀ done event rest, events = done ++ event :: rest →
      ¬ Overwrites program (after (step program) empty done) event) {call : Nat} {value : Nat × α}
    (hvalue : (after (step program) empty events).Succeeded call value) :
    ∃ kept, (after (step program) empty events).kept = some kept ∧ kept.2 = value.2 := by
  induction events using List.reverseRecOn generalizing call value with
  | nil =>
      rw [Succeeded, after, List.foldl_nil, empty, List.getElem?_nil] at hvalue
      cases hvalue
  | append_singleton events event ih =>
      have hbefore : ∀ {call : Nat} {value : Nat × α},
          (after (step program) empty events).Succeeded call value →
          ∃ kept, (after (step program) empty events).kept = some kept ∧ kept.2 = value.2 := by
        refine ih fun done event' rest hevents => h done event' (rest ++ [event]) ?_
        rw [hevents, List.append_assoc, List.cons_append]
      have hevent := h events event [] rfl
      rw [after_concat] at hvalue ⊢
      cases stepped program (after (step program) empty events) event with
      | quiet hkept hcalls =>
          rw [hkept]
          exact hbefore ((hcalls _ _).mp hvalue)
      | took _ taken hkept hsame hcalls =>
          rw [hsame]
          rcases (hcalls _ _).mp hvalue with hvalue | ⟨_, rfl⟩
          · exact hbefore hvalue
          · exact ⟨_, hkept, rfl⟩
      | filled filler computed _ hfresh hkept hcalls =>
          refine ⟨_, hkept, ?_⟩
          rcases (hcalls _ _).mp hvalue with hvalue | ⟨_, rfl⟩
          · obtain ⟨kept, hsome, hsame⟩ := hbefore hvalue
            exact ((hfresh kept hsome).resolve_right hevent).trans hsame
          · rfl

/-- A value that goes over a different one leaves two calls with two values. -/
theorem Overwrites.exists_succeeded {done : List (UseEvent β)} {event : UseEvent β}
    (h : Overwrites program (after (step program) empty done) event) :
    ∃ call call' value value',
      (after (step program) empty (done ++ [event])).Succeeded call value ∧
      (after (step program) empty (done ++ [event])).Succeeded call' value' ∧
        value.2 ≠ value'.2 := by
  obtain ⟨kept, call, answer, task, computed, hkept, rfl, htask, hresume, hne⟩ := h
  have hold := succeeded_of_kept done hkept
  have hnew := not_succeeded_of_pending htask
  have hstep : after (step program) empty (done ++ [.wake call answer]) =
      advance (after (step program) empty done) call (.inr (.ok computed)) := by
    rw [after_concat]
    simp only [step, htask, hresume]
  have hset := succeeded_set (List.getElem?_eq_some_iff.mp htask).1 hnew
    (.ended (.ok (call, computed))) (some (call, computed))
  rw [hstep]
  exact ⟨call, kept.1, (call, computed), kept, (hset _ _).mpr (.inr ⟨rfl, rfl⟩),
    (hset _ _).mpr (.inl hold), hne⟩

/-- **All calls have one value** in every state of a run, exactly where no value
goes over a different one. -/
theorem one_value_iff (program : Suspending τ β ε α) (events : List (UseEvent β)) :
    (∀ state, Visits (step program) empty events state → OneValue state) ↔
      ∀ done event rest, events = done ++ event :: rest →
        ¬ Overwrites program (after (step program) empty done) event := by
  constructor
  · rintro h done event rest rfl hoverwrites
    obtain ⟨call, call', value, value', hvalue, hvalue', hne⟩ := hoverwrites.exists_succeeded
    refine hne (h _ ⟨done ++ [event], rest, ?_, rfl⟩ call call' value value' hvalue hvalue')
    rw [List.append_assoc, List.singleton_append]
  · rintro h state ⟨done, rest, rfl, rfl⟩ call call' value value' hvalue hvalue'
    have hdone : ∀ before event after', done = before ++ event :: after' →
        ¬ Overwrites program (after (step program) empty before) event := by
      rintro before event after' rfl
      exact h before event (after' ++ rest) (by rw [List.append_assoc, List.cons_append])
    obtain ⟨kept, hkept, hsame⟩ := kept_of_succeeded done hdone hvalue
    obtain ⟨kept', hkept', hsame'⟩ := kept_of_succeeded done hdone hvalue'
    obtain rfl : kept = kept' := Option.some.inj (hkept.symm.trans hkept')
    exact hsame.symm.trans hsame'

end Runs

end FirstUse

end Lib
