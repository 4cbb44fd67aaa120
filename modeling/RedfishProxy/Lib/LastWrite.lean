import Mathlib.Data.List.Induction
import RedfishProxy.Lib.Run

/-!
# The last write that counts

What a cell holds after a history, when each event keeps it, puts a value into
it or drops its value. `valueAfter_eq_some_iff` reads the cell back as the last
put that nothing followed; `view_after` ties it to a system that keeps the cell
inside a larger state. Where writes come in two kinds, those that overwrite and
those that only fill, `settled_eq` says what the cell ends up with.
-/

namespace Lib

universe u v w x

/-- What an event does to one cell. -/
inductive Effect (α : Type w) where
  | keep
  | put (value : α)
  | drop

namespace Effect

variable {α : Type w}

def apply : Effect α → Option α → Option α
  | .keep, held => held
  | .put value, _ => some value
  | .drop, _ => none

@[simp] theorem apply_keep (held : Option α) : (keep : Effect α).apply held = held := rfl

@[simp] theorem apply_put (value : α) (held : Option α) :
    (put value).apply held = some value := rfl

@[simp] theorem apply_drop (held : Option α) : (drop : Effect α).apply held = none := rfl

end Effect

section Cell

variable {ε : Type u} {α : Type w} (effect : ε → Effect α)

/-- What the cell holds after the history. -/
def valueAfter (held : Option α) (history : List ε) : Option α :=
  history.foldl (fun held event => (effect event).apply held) held

/-- The history puts the value into the cell and keeps it there. -/
def LastPut (history : List ε) (value : α) : Prop :=
  ∃ done event rest, history = done ++ event :: rest ∧ effect event = .put value ∧
    ∀ later ∈ rest, effect later = .keep

theorem valueAfter_append (held : Option α) (history more : List ε) :
    valueAfter effect held (history ++ more) =
      valueAfter effect (valueAfter effect held history) more :=
  List.foldl_append ..

/-- One more event: it puts the value, or it keeps the value put before. -/
theorem lastPut_snoc_iff (history : List ε) (event : ε) (value : α) :
    LastPut effect (history ++ [event]) value ↔
      effect event = .put value ∨ effect event = .keep ∧ LastPut effect history value := by
  constructor
  · intro h
    obtain ⟨done, first, rest, heq, hput, hkeep⟩ := h
    rcases List.eq_nil_or_concat rest with rfl | ⟨front, last, rfl⟩
    · obtain ⟨_, hlast⟩ := List.append_inj' heq rfl
      obtain rfl := (List.cons.inj hlast).1
      exact .inl hput
    · rw [List.concat_eq_append, ← List.cons_append, ← List.append_assoc] at heq
      obtain ⟨hhistory, hlast⟩ := List.append_inj' heq rfl
      obtain rfl := (List.cons.inj hlast).1
      refine .inr ⟨hkeep event (by simp), done, first, front, hhistory, hput, ?_⟩
      intro later hlater
      exact hkeep later (by simp [hlater])
  · intro h
    rcases h with hput | ⟨hkeep, done, first, rest, heq, hput, hrest⟩
    · exact ⟨history, event, [], rfl, hput, by simp⟩
    · refine ⟨done, first, rest ++ [event], by simp [heq], hput, ?_⟩
      intro later hlater
      rcases List.mem_append.mp hlater with hlater | hlater
      · exact hrest later hlater
      · rw [List.mem_singleton.mp hlater]
        exact hkeep

/-- **An empty cell holds, after a history, its last put that counts.** -/
theorem valueAfter_eq_some_iff (history : List ε) (value : α) :
    valueAfter effect none history = some value ↔ LastPut effect history value := by
  induction history using List.reverseRecOn generalizing value with
  | nil =>
      constructor
      · intro h
        cases h
      · intro h
        obtain ⟨done, event, rest, heq, _⟩ := h
        cases done <;> cases heq
  | append_singleton history event ih =>
      rw [valueAfter_append, lastPut_snoc_iff, ← ih]
      show (effect event).apply (valueAfter effect none history) = some value ↔ _
      cases effect event <;> simp

end Cell

section System

variable {σ : Type u} {ι : Type v} {β : Type x} (exec : σ → ι → β × σ)

/-- The state an action leaves behind. -/
def leaves (state : σ) (action : ι) : σ := (exec state action).2

/-- The actions of a run, each with its answer. -/
def trace : σ → List ι → List (ι × β)
  | _, [] => []
  | state, action :: actions =>
      (action, (exec state action).1) :: trace (leaves exec state action) actions

variable {exec} {α : Type w} {effect : ι × β → Effect α} {Inv : σ → Prop} (view : σ → Option α)

/-- A cell of the state that each action treats as its event says holds what the
trace puts into it. -/
theorem view_after (hinv : ∀ state action, Inv state → Inv (leaves exec state action))
    (hview : ∀ state action, Inv state →
      view (leaves exec state action) =
        (effect (action, (exec state action).1)).apply (view state))
    {start : σ} (hstart : Inv start) (actions : List ι) :
    view (after (leaves exec) start actions) =
      valueAfter effect (view start) (trace exec start actions) := by
  induction actions generalizing start with
  | nil => rfl
  | cons action actions ih =>
      show view (after (leaves exec) (leaves exec start action) actions) =
        valueAfter effect ((effect (action, (exec start action).1)).apply (view start))
          (trace exec (leaves exec start action) actions)
      rw [ih (hinv start action hstart), hview start action hstart]

end System

/-! ## Writes that give way -/

/-- What a call does to a cell that may have a value: nothing, gives it one, or
gives it one only where it has none. -/
inductive Assign (α : Type w) where
  | keep
  | put (value : α)
  | fill (value : α)

namespace Assign

variable {α : Type w}

def apply : Assign α → Option α → Option α
  | .keep, held => held
  | .put value, _ => some value
  | .fill value, held => some (held.getD value)

def putValue : Assign α → Option α
  | .put value => some value
  | _ => none

def fillValue : Assign α → Option α
  | .fill value => some value
  | _ => none

end Assign

section Settled

variable {ε : Type u} {α : Type w} (assign : ε → Assign α)

/-- What the cell holds after the calls. -/
def settled (held : Option α) (calls : List ε) : Option α :=
  calls.foldl (fun held call => (assign call).apply held) held

/-- The values that calls put, in order. -/
def puts (calls : List ε) : List α := calls.filterMap fun call => (assign call).putValue

/-- The values that calls would fill the cell with. -/
def fills (calls : List ε) : List α := calls.filterMap fun call => (assign call).fillValue

/-- **The last put wins**, then what was there, then the first fill. -/
theorem settled_eq (held : Option α) (calls : List ε) : settled assign held calls =
    (puts assign calls).getLast?.or (held.or (fills assign calls).head?) := by
  induction calls generalizing held with
  | nil => cases held <;> rfl
  | cons call calls ih =>
      show settled assign ((assign call).apply held) calls = _
      rw [ih, puts, puts, fills, fills, List.filterMap_cons, List.filterMap_cons]
      cases assign call with
      | keep => rfl
      | put value =>
          show (puts assign calls).getLast?.or (some value) =
            (value :: puts assign calls).getLast?.or _
          rw [List.getLast?_cons]
          cases (puts assign calls).getLast? <;> rfl
      | fill value => cases held <;> rfl

end Settled
end Lib
