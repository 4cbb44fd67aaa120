import Mathlib.Logic.Equiv.Defs
import Mathlib.Order.Basic
import RedfishProxy.Lib.Alike

/-!
# Computations that ask

A dialogue is a computation cut at its questions: it ends, or it asks and goes
on with the answer. Played alone it is a function of a state; between its
questions anything may happen to that state. `Keeps` is what a dialogue asks and
ends with whatever it is answered, by a protocol with stages; `Told` is a
computation on a state together with the dialogue it is.

Main results:
* `play_bind`: a dialogue followed by another is played one after the other.
* `Told.bind`: what is told is closed under how computations are put together,
  and keeps to the protocol as its parts do.
-/

namespace Lib

/-- A computation that asks, and goes on with the answer. -/
inductive Dialogue (Q : Type) (A : Q → Type) (α : Type) where
  | done (result : α)
  | ask (question : Q) (next : A question → Dialogue Q A α)

namespace Dialogue

variable {Q : Type} {A : Q → Type} {α β S P : Type}

def bind : Dialogue Q A α → (α → Dialogue Q A β) → Dialogue Q A β
  | .done result, next => next result
  | .ask question rest, next => .ask question fun answer => (rest answer).bind next

/-- Played against something that answers. -/
def play (answer : (question : Q) → S → A question × S) : Dialogue Q A α → S → α × S
  | .done result, state => (result, state)
  | .ask question next, state =>
    (next (answer question state).1).play answer (answer question state).2

theorem play_bind (answer : (question : Q) → S → A question × S) (dialogue : Dialogue Q A α)
    (next : α → Dialogue Q A β) (state : S) : (dialogue.bind next).play answer state =
      (next (dialogue.play answer state).1).play answer (dialogue.play answer state).2 := by
  induction dialogue generalizing state with
  | done result => rfl
  | ask question rest ih => exact ih _ _

/-! ## Protocols -/

/-- From this stage on it asks what the protocol has it ask, and ends where it
may end, whatever it is answered. -/
def Keeps (rule : P → Q → P → Prop) (ends : P → α → Prop) : P → Dialogue Q A α → Prop
  | stage, .done result => ends stage result
  | stage, .ask question next =>
    ∃ stage', rule stage question stage' ∧ ∀ answer, (next answer).Keeps rule ends stage'

namespace Keeps

variable {rule : P → Q → P → Prop} {ends : P → α → Prop} {stage : P} {dialogue : Dialogue Q A α}

theorem bind {next : α → Dialogue Q A β} {ends' : P → β → Prop}
    (h : dialogue.Keeps rule ends stage)
    (hnext : ∀ stage' result, ends stage' result → (next result).Keeps rule ends' stage') :
    (dialogue.bind next).Keeps rule ends' stage := by
  induction dialogue generalizing stage with
  | done result => exact hnext stage result h
  | ask question rest ih =>
      obtain ⟨stage', hrule, hrest⟩ := h
      exact ⟨stage', hrule, fun answer => ih answer (hrest answer)⟩

/-- What is asked under a narrower protocol is asked under a wider one. -/
theorem mono {rule' : P → Q → P → Prop} {ends' : P → α → Prop}
    (hrule : ∀ stage question stage', rule stage question stage' → rule' stage question stage')
    (hends : ∀ stage result, ends stage result → ends' stage result)
    (h : dialogue.Keeps rule ends stage) : dialogue.Keeps rule' ends' stage := by
  induction dialogue generalizing stage with
  | done result => exact hends stage result h
  | ask question rest ih =>
      obtain ⟨stage', hstep, hrest⟩ := h
      exact ⟨stage', hrule _ _ _ hstep, fun answer => ih answer (hrest answer)⟩

/-- And so under one that sees less of the stages. -/
theorem image {P' : Type} {rule' : P' → Q → P' → Prop} {ends' : P' → α → Prop} (f : P → P')
    (hrule : ∀ stage question stage', rule stage question stage' →
      rule' (f stage) question (f stage'))
    (hends : ∀ stage result, ends stage result → ends' (f stage) result)
    (h : dialogue.Keeps rule ends stage) : dialogue.Keeps rule' ends' (f stage) := by
  induction dialogue generalizing stage with
  | done result => exact hends stage result h
  | ask question rest ih =>
      obtain ⟨stage', hstep, hrest⟩ := h
      exact ⟨f stage', hrule _ _ _ hstep, fun answer => ih answer (hrest answer)⟩

end Keeps
end Dialogue

/-! ## Computations and their dialogues -/

section Told

variable {Q : Type} {A : Q → Type} {α β ε M L S P : Type} [Preorder P]

/-- A computation on a state of which a part is its own and a part is shared, as
a dialogue about the shared part. `stage` is a stage that is enough for it, and
`ends` says where it ends from there. -/
structure Told (split : M ≃ L × S) (answer : (question : Q) → S → A question × S)
    (rule : P → Q → P → Prop) (stage : P) (m : ExceptT ε (StateM M) α)
    (ends : P → Except ε α → Prop) where
  dialogue : L → Dialogue Q A (Except ε α × L)
  /-- Alone, the computation is the dialogue. -/
  tells : ∀ own shared, exec m (split.symm (own, shared)) =
    (((dialogue own).play answer shared).1.1,
      split.symm (((dialogue own).play answer shared).1.2, ((dialogue own).play answer shared).2))
  keeps : ∀ own stage', stage ≤ stage' →
    (dialogue own).Keeps rule (fun stage'' ended => ends stage'' ended.1) stage'

namespace Told

variable {split : M ≃ L × S} {answer : (question : Q) → S → A question × S}
  {rule : P → Q → P → Prop} {stage : P}

/-- Where a part of a computation leaves the protocol, however it ends. -/
abbrev Reaches (stage : P) : P → Except ε α → Prop := fun stage' _ => stage ≤ stage'

variable {ends : P → Except ε β → Prop}

/-- The same computation, written in another way. -/
def congr {m m' : ExceptT ε (StateM M) β} (h : ∀ state, exec m' state = exec m state)
    (told : Told split answer rule stage m ends) : Told split answer rule stage m' ends where
  dialogue := told.dialogue
  tells own shared := (h _).trans (told.tells own shared)
  keeps := told.keeps

/-- A computation that looks at its own part first. -/
def byOwn {m : ExceptT ε (StateM M) β} (found : L → ExceptT ε (StateM M) β)
    (h : ∀ own shared, exec m (split.symm (own, shared)) =
      exec (found own) (split.symm (own, shared)))
    (told : ∀ own, Told split answer rule stage (found own) ends) :
    Told split answer rule stage m ends where
  dialogue own := (told own).dialogue own
  tells own shared := (h own shared).trans ((told own).tells own shared)
  keeps own := (told own).keeps own

/-- A computation that asks nothing. -/
def silent {m : ExceptT ε (StateM M) β} (result : Except ε β)
    (h : ∀ state, exec m state = (result, state))
    (hends : ∀ stage', stage ≤ stage' → ends stage' result) :
    Told split answer rule stage m ends where
  dialogue own := .done (result, own)
  tells _ _ := h _
  keeps _ stage' hstage := hends stage' hstage

def pure (value : β) (hends : ∀ stage', stage ≤ stage' → ends stage' (.ok value)) :
    Told split answer rule stage (Pure.pure value) ends :=
  silent (.ok value) (fun _ => rfl) hends

def throw (error : ε) (hends : ∀ stage', stage ≤ stage' → ends stage' (.error error)) :
    Told split answer rule stage (MonadExcept.throw error) ends :=
  silent (.error error) (fun _ => rfl) hends

/-- One question. -/
def ask {m : ExceptT ε (StateM M) β} (question : Q) (result : A question → Except ε β)
    (h : ∀ own shared, exec m (split.symm (own, shared)) =
      (result (answer question shared).1, split.symm (own, (answer question shared).2)))
    (hrule : ∀ stage', stage ≤ stage' → ∃ stage'', rule stage' question stage'' ∧
      ∀ answer, ends stage'' (result answer)) :
    Told split answer rule stage m ends where
  dialogue own := .ask question fun answer => .done (result answer, own)
  tells := h
  keeps _ stage' hstage := hrule stage' hstage

/-- What a computation goes on with. -/
def resume (next : α → L → Dialogue Q A (Except ε β × L)) :
    Except ε α × L → Dialogue Q A (Except ε β × L)
  | (.ok value, own) => next value own
  | (.error error, own) => .done (.error error, own)

/-- **One part after the other.** -/
def bind {m : ExceptT ε (StateM M) α} {next : α → ExceptT ε (StateM M) β} {between : P}
    (first : Told split answer rule stage m (Reaches between))
    (rest : ∀ value, Told split answer rule between (next value) ends)
    (herror : ∀ error stage', between ≤ stage' → ends stage' (.error error)) :
    Told split answer rule stage (m >>= next) ends where
  dialogue own := (first.dialogue own).bind (resume fun value => (rest value).dialogue)
  tells own shared := by
    rw [exec_bind, first.tells, Dialogue.play_bind]
    cases ((first.dialogue own).play answer shared).1 with
    | mk result own' =>
        cases result with
        | error error => rfl
        | ok value => exact (rest value).tells own' _
  keeps own stage' hstage := by
    refine (first.keeps own stage' hstage).bind fun stage'' ended hended => ?_
    obtain ⟨result, own'⟩ := ended
    cases result with
    | error error => exact herror error stage'' hended
    | ok value => exact (rest value).keeps own' stage'' hended

/-- A part that only has to be gone through. -/
def andThen {m : ExceptT ε (StateM M) α} {next : α → ExceptT ε (StateM M) β} {between after : P}
    (first : Told split answer rule stage m (Reaches between))
    (rest : ∀ value, Told split answer rule between (next value) (Reaches after))
    (hafter : after ≤ between) : Told split answer rule stage (m >>= next) (Reaches after) :=
  first.bind rest fun _ _ h => hafter.trans h

def ite {c : Prop} [Decidable c] {a b : ExceptT ε (StateM M) β}
    (ha : Told split answer rule stage a ends) (hb : Told split answer rule stage b ends) :
    Told split answer rule stage (if c then a else b) ends where
  dialogue own := if c then ha.dialogue own else hb.dialogue own
  tells own shared := by
    split
    · exact ha.tells own shared
    · exact hb.tells own shared
  keeps own stage' hstage := by
    split
    · exact ha.keeps own stage' hstage
    · exact hb.keeps own stage' hstage

/-- From a stage that is enough, any later one is. -/
def weaken {m : ExceptT ε (StateM M) β} {stage' : P} (told : Told split answer rule stage m ends)
    (h : stage ≤ stage') : Told split answer rule stage' m ends :=
  { told with keeps := fun own later hlater => told.keeps own later (h.trans hlater) }

def map {m : ExceptT ε (StateM M) α} (f : α → β)
    (told : Told split answer rule stage m fun stage' result => ends stage' (result.map f)) :
    Told split answer rule stage (f <$> m) ends where
  dialogue own := (told.dialogue own).bind fun ended => .done (ended.1.map f, ended.2)
  tells own shared := by
    rw [exec_map, told.tells, Dialogue.play_bind]
    rfl
  keeps own stage' hstage := (told.keeps own stage' hstage).bind fun _ _ h => h

/-- What fails is gone on from. -/
def attempt {m : ExceptT ε (StateM M) α} {between : P}
    (told : Told split answer rule stage m (Reaches between)) :
    Told split answer rule stage (Lib.attempt m : ExceptT ε (StateM M) (Except ε α))
      (Reaches between) where
  dialogue own := (told.dialogue own).bind fun ended => .done (.ok ended.1, ended.2)
  tells own shared := by
    rw [exec_attempt, told.tells, Dialogue.play_bind]
    rfl
  keeps own stage' hstage := (told.keeps own stage' hstage).bind fun _ _ h => h

/-- Each item leaves the protocol where it was. -/
def mapM {f : α → ExceptT ε (StateM M) β}
    (each : ∀ item, Told split answer rule stage (f item) (Reaches stage)) :
    ∀ items : List α, Told split answer rule stage (items.mapM f) (Reaches stage)
  | [] => pure [] fun _ h => h
  | item :: items => congr (fun _ => congrArg (exec · _) List.mapM_cons) <| (each item).andThen
      (fun _ => (mapM each items).andThen (fun _ => pure _ fun _ h => h) le_rfl) le_rfl

def foldlM {f : β → α → ExceptT ε (StateM M) β}
    (each : ∀ value item, Told split answer rule stage (f value item) (Reaches stage)) :
    ∀ (items : List α) (value : β),
      Told split answer rule stage (items.foldlM f value) (Reaches stage)
  | [], value => pure value fun _ h => h
  | item :: items, value => congr (fun _ => congrArg (exec · _) List.foldlM_cons) <|
      (each value item).andThen (fun value => foldlM each items value) le_rfl

end Told
end Told
end Lib
