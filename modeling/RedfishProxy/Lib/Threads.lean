import Mathlib.Data.List.Induction
import RedfishProxy.Lib.Dialogue
import RedfishProxy.Lib.Run

/-!
# Dialogues side by side

Requests arrive at any time, each with its dialogue, and are taken on one
question at a time, in any order. A question is put to an object they share, in
one step, or to the outside, which answers anything. A request that is given up
is one that is not taken on any more.

Main results:
* `keeps_protocol`: what a request asked is a walk of its protocol, whatever the
  others do.
* `shared_eq`: the shared object is what the questions put to it, in their
  order, make of it.
-/

namespace Lib

variable {Q : Type} {A : Q → Type} {ι α S P : Type}

/-- What the outside answers, to any question. -/
abbrev Outside (A : Q → Type) := (question : Q) → A question

/-- How the shared object answers the questions that are put to it. -/
abbrev Sharing (A : Q → Type) (S : Type) := (question : Q) → Option (S → A question × S)

namespace Dialogue

variable (sharing : Sharing A S)

/-- One question is answered. -/
def advance : Dialogue Q A α × S → Outside A → Dialogue Q A α × S
  | (.done result, shared), _ => (.done result, shared)
  | (.ask question next, shared), outside =>
    match sharing question with
    | some answer => (next (answer shared).1, (answer shared).2)
    | none => (next (outside question), shared)

/-- Taken on with nothing in between. -/
def alone (dialogue : Dialogue Q A α) (heard : List (Outside A)) (shared : S) :
    Dialogue Q A α × S := after (advance sharing) (dialogue, shared) heard

variable {sharing} {question : Q} {next : A question → Dialogue Q A α} {shared : S}
  {outside : Outside A}

theorem advance_shared {answer : S → A question × S} (h : sharing question = some answer) :
    advance sharing (.ask question next, shared) outside =
      (next (answer shared).1, (answer shared).2) := by
  simp only [advance, h]

theorem advance_outside (h : sharing question = none) :
    advance sharing (.ask question next, shared) outside = (next (outside question), shared) := by
  simp only [advance, h]

variable (sharing) in
/-- A question goes on with some answer. -/
theorem exists_advance (question : Q) (next : A question → Dialogue Q A α) (shared : S)
    (outside : Outside A) :
    ∃ answer, (advance sharing (.ask question next, shared) outside).1 = next answer := by
  cases h : sharing question with
  | some answer => exact ⟨_, congrArg Prod.fst (advance_shared h)⟩
  | none => exact ⟨_, congrArg Prod.fst (advance_outside h)⟩

variable (sharing)

/-- Of the questions that are left, so many are put to the shared object. -/
def spends (left : Nat) (question : Q) (left' : Nat) : Prop :=
  if (sharing question).isSome then left = left' + 1 else left' = left

/-- It puts no more questions than these to the shared object. -/
def AtMost (count : Nat) (dialogue : Dialogue Q A α) : Prop :=
  dialogue.Keeps (spends sharing) (fun _ _ => True) count

/-- A protocol whose stages count them. -/
theorem atMost_of_keeps {rule : P → Q → P → Prop} {ends : P → α → Prop} {stage : P}
    {dialogue : Dialogue Q A α} (h : dialogue.Keeps rule ends stage) (count : P → Nat)
    (hcount : ∀ stage question stage', rule stage question stage' →
      spends sharing (count stage) question (count stage')) :
    dialogue.AtMost sharing (count stage) :=
  Keeps.image count hcount (fun _ _ _ => True.intro) h

end Dialogue

/-! ## Threads -/

/-- A request in service: what it heard so far, and what is left of it. -/
structure Thread (A : Q → Type) (ι α : Type) where
  request : ι
  heard : List (Outside A)
  rest : Dialogue Q A α

/-- The requests by their number, and every question with the number of the
request that asked it. -/
structure Threads (A : Q → Type) (ι α S : Type) where
  shared : S
  threads : List (Thread A ι α)
  asked : List (Nat × Q)

inductive ThreadEvent (A : Q → Type) (ι : Type) where
  | arrive (request : ι)
  | go (id : Nat) (outside : Outside A)

namespace Threads

variable (sharing : Sharing A S) (opening : ι → Dialogue Q A α)

def empty (start : S) : Threads A ι α S where
  shared := start
  threads := []
  asked := []

def arrive (pool : Threads A ι α S) (request : ι) : Threads A ι α S :=
  { pool with threads := pool.threads ++ [⟨request, [], opening request⟩] }

/-- One question of a request that has not ended. -/
def go (pool : Threads A ι α S) (id : Nat) (outside : Outside A) : Threads A ι α S :=
  match pool.threads[id]? with
  | some ⟨request, heard, .ask question next⟩ =>
    let reached := Dialogue.advance sharing (.ask question next, pool.shared) outside
    { shared := reached.2
      threads := pool.threads.set id ⟨request, heard ++ [outside], reached.1⟩
      asked := pool.asked ++ [(id, question)] }
  | _ => pool

def step (pool : Threads A ι α S) : ThreadEvent A ι → Threads A ι α S
  | .arrive request => arrive opening pool request
  | .go id outside => go sharing pool id outside

/-- The pool after the events. -/
def run (start : S) (events : List (ThreadEvent A ι)) : Threads A ι α S :=
  after (step sharing opening) (empty start) events

/-- What one request asked, in order. -/
def askedBy (pool : Threads A ι α S) (id : Nat) : List Q :=
  (pool.asked.filter fun entry => entry.1 = id).map Prod.snd

/-- The requests that put a question to the shared object, in the order of their
questions. -/
def callers (pool : Threads A ι α S) : List Nat :=
  (pool.asked.filter fun entry => (sharing entry.2).isSome).map Prod.fst

/-! ## What one step does -/

variable {sharing opening} {pool : Threads A ι α S}

variable (sharing) in
/-- A request that goes on has a question; nothing else changes anything. -/
theorem go_cases (pool : Threads A ι α S) (id : Nat) (outside : Outside A) :
    (∃ request heard question next,
      pool.threads[id]? = some ⟨request, heard, .ask question next⟩ ∧
      go sharing pool id outside = {
        shared := (Dialogue.advance sharing (.ask question next, pool.shared) outside).2
        threads := pool.threads.set id ⟨request, heard ++ [outside],
          (Dialogue.advance sharing (.ask question next, pool.shared) outside).1⟩
        asked := pool.asked ++ [(id, question)] }) ∨
    go sharing pool id outside = pool := by
  unfold go
  split
  · rename_i request heard question next hthread
    exact .inl ⟨request, heard, question, next, hthread, rfl⟩
  · exact .inr rfl

theorem getElem?_arrive (pool : Threads A ι α S) (request : ι) (id : Nat) :
    (arrive opening pool request).threads[id]? =
      if id = pool.threads.length then some ⟨request, [], opening request⟩
      else pool.threads[id]? := by
  show (pool.threads ++ [_])[id]? = _
  rcases Nat.lt_trichotomy id pool.threads.length with hlt | heq | hgt
  · rw [List.getElem?_append_left hlt, if_neg (by omega)]
  · subst heq
    simp
  · rw [List.getElem?_append_right (by omega), if_neg (by omega)]
    have hpast : id - pool.threads.length ≠ 0 := by omega
    rw [List.getElem?_eq_none (by simp; omega), List.getElem?_eq_none (by omega)]

theorem getElem?_set_thread {id : Nat} {thread : Thread A ι α}
    (h : pool.threads[id]? = some thread) (thread' : Thread A ι α) (other : Nat) :
    (pool.threads.set id thread')[other]? =
      if other = id then some thread' else pool.threads[other]? := by
  have hlt : id < pool.threads.length := (List.getElem?_eq_some_iff.mp h).1
  rw [List.getElem?_set]
  by_cases hother : other = id
  · subst hother
    simp [hlt]
  · rw [if_neg (Ne.symm hother), if_neg hother]

theorem askedBy_snoc (id other : Nat) (question : Q) :
    ((pool.asked ++ [(id, question)]).filter fun entry => entry.1 = other).map Prod.snd =
      pool.askedBy other ++ if other = id then [question] else [] := by
  unfold askedBy
  rw [List.filter_append, List.map_append]
  by_cases h : other = id
  · subst h
    simp
  · simp [h, Ne.symm h]

/-- The questions of a request come after its arrival. -/
def Arrived (pool : Threads A ι α S) : Prop := ∀ entry ∈ pool.asked, entry.1 < pool.threads.length

theorem arrived_step (event : ThreadEvent A ι) (h : pool.Arrived) :
    (step sharing opening pool event).Arrived := by
  cases event with
  | arrive request =>
      intro entry hentry
      show entry.1 < (pool.threads ++ [_]).length
      have hlt := h entry hentry
      rw [List.length_append]
      omega
  | go id outside =>
      show (go sharing pool id outside).Arrived
      rcases go_cases sharing pool id outside with
        ⟨request, heard, question, next, hthread, hgo⟩ | hgo
      · rw [hgo]
        intro entry hentry
        show entry.1 < (pool.threads.set id _).length
        rw [List.length_set]
        rcases List.mem_append.mp hentry with hentry | hentry
        · exact h entry hentry
        · rw [List.mem_singleton.mp hentry]
          exact (List.getElem?_eq_some_iff.mp hthread).1
      · rw [hgo]
        exact h

theorem arrived {start : S} {events : List (ThreadEvent A ι)}
    (h : Visits (step sharing opening) (empty start) events pool) : pool.Arrived := by
  refine h.invariant (?_ : Arrived (empty start)) fun _ event => arrived_step event
  intro entry hentry
  cases hentry

/-! ## Each request keeps to its protocol -/

section Protocol

variable {rule : ι → P → Q → P → Prop} {ends : ι → P → α → Prop} {first : ι → P}

/-- These questions lead from one stage to the other. -/
inductive Walks (rule : P → Q → P → Prop) : P → List Q → P → Prop where
  | nil (stage : P) : Walks rule stage [] stage
  | snoc {stage between last : P} {questions : List Q} {question : Q}
      (h : Walks rule stage questions between) (hlast : rule between question last) :
      Walks rule stage (questions ++ [question]) last

/-- Each question of a walk is one the rule has. -/
theorem Walks.rule_of_mem {rule : P → Q → P → Prop} {stage last : P} {questions : List Q}
    (h : Walks rule stage questions last) :
    ∀ question ∈ questions, ∃ before after, rule before question after := by
  induction h with
  | nil => simp
  | snoc _ hlast ih =>
      intro question hquestion
      rcases List.mem_append.mp hquestion with hquestion | hquestion
      · exact ih question hquestion
      · obtain rfl := List.mem_singleton.mp hquestion
        exact ⟨_, _, hlast⟩

/-- What each question takes of a measure, a walk takes together. -/
theorem Walks.spent {rule : P → Q → P → Prop} (counts : Q → Bool) (measure : P → Nat)
    (hrule : ∀ before question after, rule before question after →
      measure after + (if counts question then 1 else 0) ≤ measure before)
    {stage last : P} {questions : List Q} (h : Walks rule stage questions last) :
    measure last + questions.countP counts ≤ measure stage := by
  induction h with
  | nil => exact Nat.le_refl _
  | snoc _ hlast ih =>
      have hstep := hrule _ _ _ hlast
      rw [List.countP_append, List.countP_singleton]
      omega

theorem Arrived.askedBy_nil (h : pool.Arrived) {id : Nat} (hid : pool.threads.length ≤ id) :
    pool.askedBy id = [] := by
  unfold askedBy
  rw [List.map_eq_nil_iff, List.filter_eq_nil_iff]
  intro entry hentry heq
  have hlt := h entry hentry
  have heq : entry.1 = id := by simpa using heq
  omega

/-- Where the requests stand in their protocols. -/
def Follow (rule : ι → P → Q → P → Prop) (ends : ι → P → α → Prop) (first : ι → P)
    (pool : Threads A ι α S) : Prop :=
  ∀ id thread, pool.threads[id]? = some thread → ∃ stage,
    Walks (rule thread.request) (first thread.request) (pool.askedBy id) stage ∧
      thread.rest.Keeps (rule thread.request) (ends thread.request) stage

theorem follow_step (hopening : ∀ request,
    (opening request).Keeps (rule request) (ends request) (first request))
    (event : ThreadEvent A ι) (harrived : pool.Arrived) (h : Follow rule ends first pool) :
    Follow rule ends first (step sharing opening pool event) := by
  cases event with
  | arrive request =>
      intro id thread hthread
      change (arrive opening pool request).threads[id]? = _ at hthread
      rw [getElem?_arrive] at hthread
      split at hthread
      · -- the new one has asked nothing
        rename_i hid
        obtain rfl := Option.some.inj hthread
        refine ⟨first request, ?_, hopening request⟩
        show Walks _ _ (pool.askedBy id) _
        rw [harrived.askedBy_nil (by omega)]
        exact .nil _
      · exact h id thread hthread
  | go id outside =>
      show Follow rule ends first (go sharing pool id outside)
      rcases go_cases sharing pool id outside with
        ⟨request, heard, question, next, hthread, hgo⟩ | hgo
      · rw [hgo]
        intro other thread hother
        change (pool.threads.set id _)[other]? = _ at hother
        rw [getElem?_set_thread hthread] at hother
        show ∃ stage, Walks _ _ (((pool.asked ++ [(id, question)]).filter _).map Prod.snd) _ ∧ _
        rw [askedBy_snoc]
        split at hother
        · rename_i hid
          subst hid
          obtain rfl := Option.some.inj hother
          obtain ⟨stage, hwalks, stage', hrule, hnext⟩ := h other _ hthread
          obtain ⟨answer, hanswer⟩ :=
            Dialogue.exists_advance sharing question next pool.shared outside
          refine ⟨stage', by rw [if_pos rfl]; exact hwalks.snoc hrule, ?_⟩
          rw [hanswer]
          exact hnext answer
        · rename_i hid
          rw [if_neg hid, List.append_nil]
          exact h other thread hother
      · rw [hgo]
        exact h

/-- **Every request keeps to its protocol**, whatever the others do. -/
theorem keeps_protocol (hopening : ∀ request,
    (opening request).Keeps (rule request) (ends request) (first request))
    {start : S} {events : List (ThreadEvent A ι)}
    (h : Visits (step sharing opening) (empty start) events pool) :
    Follow rule ends first pool := by
  obtain ⟨done, rest, hevents, rfl⟩ := h
  clear hevents
  induction done using List.reverseRecOn with
  | nil =>
      intro id thread hthread
      cases hthread
  | append_singleton done event ih =>
      rw [after_concat]
      exact follow_step hopening event (arrived (Visits.last done)) ih

end Protocol

/-! ## The shared object -/

/-- What a question makes of the shared object. -/
def put (sharing : Sharing A S) (shared : S) (question : Q) : S :=
  match sharing question with
  | some answer => (answer shared).2
  | none => shared

theorem advance_snd (question : Q) (next : A question → Dialogue Q A α) (shared : S)
    (outside : Outside A) : (Dialogue.advance sharing (.ask question next, shared) outside).2 =
      put sharing shared question := by
  cases h : sharing question with
  | some answer => rw [Dialogue.advance_shared h, put, h]
  | none => rw [Dialogue.advance_outside h, put, h]

/-- It is what the questions that were asked make of it. -/
def SharedFrom (sharing : Sharing A S) (start : S) (pool : Threads A ι α S) : Prop :=
  pool.shared = after (put sharing) start (pool.asked.map Prod.snd)

theorem sharedFrom_step {start : S} (event : ThreadEvent A ι) (h : SharedFrom sharing start pool) :
    SharedFrom sharing start (step sharing opening pool event) := by
  cases event with
  | arrive request => exact h
  | go id outside =>
      show SharedFrom sharing start (go sharing pool id outside)
      rcases go_cases sharing pool id outside with ⟨request, heard, question, next, _, hgo⟩ | hgo
      · rw [hgo]
        show (Dialogue.advance sharing (.ask question next, pool.shared) outside).2 =
          after (put sharing) start ((pool.asked ++ [(id, question)]).map Prod.snd)
        rw [advance_snd, List.map_append, List.map_singleton, after_concat, ← h]
      · rw [hgo]
        exact h

/-- **The shared object is what its questions make of it**, in their order. -/
theorem shared_eq {start : S} {events : List (ThreadEvent A ι)}
    (h : Visits (step sharing opening) (empty start) events pool) :
    SharedFrom sharing start pool :=
  h.invariant (rfl : SharedFrom sharing start (empty start)) fun _ event => sharedFrom_step event

end Threads
end Lib
