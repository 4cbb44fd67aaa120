import RedfishProxy.Lib.LastWrite

/-!
# Requests in flight over a shared object

Requests arrive at any time, call the shared object once at most, and are
answered later, in any order. A call is one step of the object; what a request
does before and after it is its own. `log` is the order of the calls.

Main results:
* `log_eq_trace`: the requests of the log, one after the other, give the answers
  of the log and leave the object as it is.
* `answered_before`: the log keeps to the order in which answers are given and
  requests arrive.
-/

namespace Lib

universe u v w x y

/-- Requests that call an object. -/
structure Caller (σ : Type u) (ο : Type v) (ρ : Type w) (ι : Type x) (β : Type y) where
  /-- One step of the object. -/
  call : σ → ο → ρ × σ
  /-- What the request calls it for, if it does. -/
  ask : ι → Option ο
  /-- The answer, from the reply to the call. -/
  finish : ι → Option ρ → β

inductive Phase (ρ : Type w) (ι : Type x) where
  | arrived (request : ι)
  | called (request : ι) (reply : Option ρ)
  | answered (request : ι)

/-- The requests by their number, with the object. -/
structure Pool (σ : Type u) (ρ : Type w) (ι : Type x) (β : Type y) where
  shared : σ
  phases : List (Phase ρ ι)
  log : List (Nat × ι × β)
  answers : List (Nat × ι × β)

inductive PoolEvent (ι : Type x) where
  | arrive (request : ι)
  | call (id : Nat)
  | answer (id : Nat)

namespace Caller

variable {σ : Type u} {ο : Type v} {ρ : Type w} {ι : Type x} {β : Type y}
  (caller : Caller σ ο ρ ι β)

/-- The call of a request, if it makes one. -/
def replyTo (shared : σ) (request : ι) : Option ρ × σ :=
  match caller.ask request with
  | some op => (some (caller.call shared op).1, (caller.call shared op).2)
  | none => (none, shared)

/-- A request with nothing in between. -/
def exec (shared : σ) (request : ι) : β × σ :=
  (caller.finish request (caller.replyTo shared request).1, (caller.replyTo shared request).2)

def arrive (pool : Pool σ ρ ι β) (request : ι) : Pool σ ρ ι β :=
  { pool with phases := pool.phases ++ [.arrived request] }

/-- The call of a request that has arrived. -/
def callAt (pool : Pool σ ρ ι β) (id : Nat) : Pool σ ρ ι β :=
  match pool.phases[id]? with
  | some (.arrived request) =>
    let replied := caller.replyTo pool.shared request
    { pool with
      shared := replied.2
      phases := pool.phases.set id (.called request replied.1)
      log := pool.log ++ [(id, request, caller.finish request replied.1)] }
  | _ => pool

/-- The answer to a request that has called. -/
def answerAt (pool : Pool σ ρ ι β) (id : Nat) : Pool σ ρ ι β :=
  match pool.phases[id]? with
  | some (.called request reply) =>
    { pool with
      phases := pool.phases.set id (.answered request)
      answers := pool.answers ++ [(id, request, caller.finish request reply)] }
  | _ => pool

def step (pool : Pool σ ρ ι β) : PoolEvent ι → Pool σ ρ ι β
  | .arrive request => arrive pool request
  | .call id => caller.callAt pool id
  | .answer id => caller.answerAt pool id

def empty (start : σ) : Pool σ ρ ι β where
  shared := start
  phases := []
  log := []
  answers := []

/-- The pool after the events. -/
def run (start : σ) (events : List (PoolEvent ι)) : Pool σ ρ ι β :=
  after caller.step (empty start) events

variable {caller} {start : σ}

/-- What holds between the calls that were made and the requests that made them. -/
structure Ordered (caller : Caller σ ο ρ ι β) (start : σ) (pool : Pool σ ρ ι β) : Prop where
  shared : pool.shared = after (leaves caller.exec) start (pool.log.map fun e => e.2.1)
  log : pool.log.map Prod.snd = trace caller.exec start (pool.log.map fun e => e.2.1)
  called : ∀ id request reply, pool.phases[id]? = some (.called request reply) →
    (id, request, caller.finish request reply) ∈ pool.log
  answers : ∀ answer ∈ pool.answers, answer ∈ pool.log
  ids : ∀ entry ∈ pool.log, entry.1 < pool.phases.length

theorem after_snoc {α : Type v} (next : σ → α → σ) (state : σ) (actions : List α) (action : α) :
    after next state (actions ++ [action]) = next (after next state actions) action := by
  unfold after
  rw [List.foldl_append]
  rfl

theorem trace_append (run : σ → ι → β × σ) (state : σ) (requests more : List ι) :
    trace run state (requests ++ more) =
      trace run state requests ++ trace run (after (leaves run) state requests) more := by
  induction requests generalizing state with
  | nil => rfl
  | cons first requests ih => exact congrArg _ (ih (leaves run state first))

theorem length_trace (run : σ → ι → β × σ) (state : σ) (requests : List ι) :
    (trace run state requests).length = requests.length := by
  induction requests generalizing state with
  | nil => rfl
  | cons first requests ih => exact congrArg (· + 1) (ih (leaves run state first))

theorem ordered_empty : Ordered caller start (empty start) where
  shared := rfl
  log := rfl
  called := by
    intro id request reply h
    cases h
  answers := by
    intro answer h
    cases h
  ids := by
    intro entry h
    cases h

variable {pool : Pool σ ρ ι β}

theorem arrive_ordered (h : Ordered caller start pool) (request : ι) :
    Ordered caller start (arrive pool request) := by
  refine ⟨h.shared, h.log, ?_, h.answers, ?_⟩
  · intro id request' reply hphase
    change (pool.phases ++ [Phase.arrived request])[id]? = _ at hphase
    rw [List.getElem?_append] at hphase
    split at hphase
    · exact h.called id request' reply hphase
    · -- the new one has not called
      rw [List.getElem?_singleton] at hphase
      split at hphase <;> cases hphase
  · intro entry hentry
    show entry.1 < (pool.phases ++ [Phase.arrived request]).length
    have hlt := h.ids entry hentry
    rw [List.length_append]
    omega

/-- **A call goes to the end of the log.** -/
theorem callAt_ordered (h : Ordered caller start pool) (id : Nat) :
    Ordered caller start (caller.callAt pool id) := by
  unfold callAt
  split
  · rename_i request hphase
    have hlt : id < pool.phases.length := (List.getElem?_eq_some_iff.mp hphase).1
    refine ⟨?_, ?_, ?_, ?_, ?_⟩
    · show (caller.replyTo pool.shared request).2 = _
      simp only [List.map_append, List.map_cons, List.map_nil]
      rw [after_snoc, ← h.shared]
      rfl
    · simp only [List.map_append, List.map_cons, List.map_nil]
      rw [trace_append, ← h.shared, h.log]
      rfl
    · intro id' request' reply hphase'
      simp only [List.getElem?_set] at hphase'
      split at hphase'
      · rename_i heq
        subst heq
        obtain ⟨rfl, rfl⟩ : request = request' ∧ _ = reply := by simpa [hlt] using hphase'
        exact List.mem_append_right _ List.mem_cons_self
      · exact List.mem_append_left _ (h.called id' request' reply hphase')
    · intro answer hanswer
      exact List.mem_append_left _ (h.answers answer hanswer)
    · intro entry hentry
      show entry.1 < (pool.phases.set id _).length
      rw [List.length_set]
      rcases List.mem_append.mp hentry with hentry | hentry
      · exact h.ids entry hentry
      · rw [List.mem_singleton.mp hentry]
        exact hlt
  · exact h

theorem answerAt_ordered (h : Ordered caller start pool) (id : Nat) :
    Ordered caller start (caller.answerAt pool id) := by
  unfold answerAt
  split
  · rename_i request reply hphase
    refine ⟨h.shared, h.log, ?_, ?_, ?_⟩
    · intro id' request' reply' hphase'
      simp only [List.getElem?_set] at hphase'
      split at hphase'
      · split at hphase' <;> cases hphase'
      · exact h.called id' request' reply' hphase'
    · intro answer hanswer
      rcases List.mem_append.mp hanswer with hanswer | hanswer
      · exact h.answers answer hanswer
      · rw [List.mem_singleton.mp hanswer]
        exact h.called id request reply hphase
    · intro entry hentry
      show entry.1 < (pool.phases.set id _).length
      rw [List.length_set]
      exact h.ids entry hentry
  · exact h

theorem step_ordered (h : Ordered caller start pool) (event : PoolEvent ι) :
    Ordered caller start (caller.step pool event) := by
  cases event with
  | arrive request => exact arrive_ordered h request
  | call id => exact callAt_ordered h id
  | answer id => exact answerAt_ordered h id

variable (caller)

theorem run_ordered (start : σ) (events : List (PoolEvent ι)) :
    Ordered caller start (caller.run start events) :=
  (Visits.last events).invariant ordered_empty fun _ event h => step_ordered h event

/-- **The log is a run without interleaving**, with the same answers. -/
theorem log_eq_trace (start : σ) (events : List (PoolEvent ι)) :
    (caller.run start events).log.map Prod.snd =
      trace caller.exec start ((caller.run start events).log.map fun e => e.2.1) :=
  (run_ordered caller start events).log

/-- An answer that was given is in the log. -/
theorem answered_mem (start : σ) (events : List (PoolEvent ι)) :
    ∀ answer ∈ (caller.run start events).answers, answer ∈ (caller.run start events).log :=
  (run_ordered caller start events).answers

/-- The requests of the log have arrived. -/
theorem idsOf_lt (start : σ) (events : List (PoolEvent ι)) :
    ∀ entry ∈ (caller.run start events).log,
      entry.1 < (caller.run start events).phases.length :=
  (run_ordered caller start events).ids

/-- The log only grows, at its end. -/
theorem log_prefix (start : σ) (events more : List (PoolEvent ι)) :
    (caller.run start events).log <+: (caller.run start (events ++ more)).log := by
  have hstep : ∀ (pool : Pool σ ρ ι β) (event : PoolEvent ι),
      pool.log <+: (caller.step pool event).log := by
    intro pool event
    cases event with
    | arrive request => exact List.prefix_rfl
    | call id =>
        show pool.log <+: (caller.callAt pool id).log
        unfold callAt
        split
        · exact List.prefix_append ..
        · exact List.prefix_rfl
    | answer id =>
        show pool.log <+: (caller.answerAt pool id).log
        unfold answerAt
        split <;> exact List.prefix_rfl
  unfold run after
  rw [List.foldl_append]
  generalize events.foldl caller.step (empty start) = pool
  induction more generalizing pool with
  | nil => exact List.prefix_rfl
  | cons event more ih => exact (hstep pool event).trans (ih _)

/-- **At each place of the log**, what is before it is a run, and the answer is
what comes next. -/
theorem log_at (start : σ) (events : List (PoolEvent ι)) {done rest : List (Nat × ι × β)} {id : Nat}
    {request : ι} {response : β}
    (h : (caller.run start events).log = done ++ (id, request, response) :: rest) :
    done.map Prod.snd = trace caller.exec start (done.map fun e => e.2.1) ∧
      response = (caller.exec (after (leaves caller.exec) start (done.map fun e => e.2.1))
        request).1 := by
  have hlog := log_eq_trace caller start events
  rw [h] at hlog
  simp only [List.map_append, List.map_cons] at hlog
  rw [trace_append] at hlog
  obtain ⟨hdone, hrest⟩ := List.append_inj hlog (by rw [length_trace]; simp)
  refine ⟨hdone, ?_⟩
  rw [trace] at hrest
  have hhead := (List.cons.inj hrest).1
  exact (Prod.ext_iff.mp hhead).2

/-- **A request answered before another arrives comes before it in the log.** -/
theorem answered_before (start : σ) (events more : List (PoolEvent ι)) {first second : Nat × ι × β}
    (hfirst : first ∈ (caller.run start events).answers)
    (hsecond : second ∈ (caller.run start (events ++ more)).log)
    (hlate : (caller.run start events).phases.length ≤ second.1) :
    ∃ done between rest, (caller.run start (events ++ more)).log =
      done ++ first :: between ++ second :: rest := by
  obtain ⟨later, hlog⟩ := log_prefix caller start events more
  rw [← hlog] at hsecond ⊢
  obtain ⟨done, between, hdone⟩ := List.append_of_mem (answered_mem caller start events first hfirst)
  rcases List.mem_append.mp hsecond with hsecond | hsecond
  · have hlt := idsOf_lt caller start events second hsecond
    omega
  · obtain ⟨front, rest, hrest⟩ := List.append_of_mem hsecond
    refine ⟨done, between ++ front, rest, ?_⟩
    rw [hdone, hrest]
    simp

end Caller
end Lib
