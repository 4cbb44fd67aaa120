import RedfishProxy.Shipped.Requests

/-!
# The audit trail

What the log shows of the requests in service. A request that is given to a
script is recorded before it does anything, and its response after everything,
under the status the caller gets. Where a script fails there is no second record,
and the caller gets a 502.

Main results:
* `audit_trail`: in any run, the trail of a request, and its response.
* `Trail.hides`: no header of a trail shows a credential.
-/

namespace RedfishProxy.Shipped

open Lib Http Config Script RuneHost ScriptUtil

/-- What goes to the log. -/
def Ask.record {ν : Type} : Ask ν → Option Record
  | .log record => some record
  | .send _ => none
  | .call _ => none

/-- No header shows a credential. -/
def ShowsNoCredential : Record → Prop
  | .request _ _ _ _ headers _ | .response _ _ _ headers _ =>
    ∀ header ∈ headers, isRedacted header.1 = true → header.2 = REDACTION

theorem hides_redactHeaders (headers : HeaderMap) :
    ∀ header ∈ redactHeaders headers, isRedacted header.1 = true → header.2 = REDACTION := by
  intro header hheader
  obtain ⟨entry, _, rfl⟩ := List.mem_map.mp hheader
  unfold redactHeader
  dsimp only
  split
  · exact fun _ => rfl
  · rename_i hnot
    exact fun hredacted => absurd hredacted hnot

section Trail

variable {ν σ : Type} (host : Rune ν σ) (app : Proxy.AppState)

/-- What a request has asked for when it is so far: everything it does lies
between its records. -/
inductive Trail (admitted : Admitted) : Phase → List (Ask ν) → Prop where
  | fresh : Trail admitted .fresh []
  | serving {work : List (Ask ν)} (hwork : ∀ question ∈ work, question.record = none) :
      Trail admitted .serving
        (.log (openingRecord (admitted.ctx app) (admitted.licence host app).shows) :: work)
  | answered {work : List (Ask ν)} (hwork : ∀ question ∈ work, question.record = none)
      (status : Nat) (headers : HeaderMap) (body : Option Text) :
      Trail admitted (.answered status)
        (.log (openingRecord (admitted.ctx app) (admitted.licence host app).shows) :: work ++
          [.log (.response "info".toList status app.target.display (redactHeaders headers) body)])

variable {host app}

/-- One more step of the request. -/
theorem Trail.step {admitted : Admitted} {stage stage' : Stage} {questions : List (Ask ν)}
    {question : Ask ν} (h : Trail host app admitted stage.phase questions)
    (hstep : (admitted.licence host app).Allows (admitted.ctx app) stage question stage') :
    Trail host app admitted stage'.phase (questions ++ [question]) := by
  cases hstep with
  | opens left =>
      cases h
      exact .serving (by simp)
  | fetches hsends hget left =>
      cases h with
      | serving hwork => exact .serving (by simpa [or_imp, forall_and, Ask.record] using hwork)
  | acts hsends calls acts =>
      cases h with
      | serving hwork => exact .serving (by simpa [or_imp, forall_and, Ask.record] using hwork)
  | calls hcalls calls acts =>
      cases h with
      | serving hwork => exact .serving (by simpa [or_imp, forall_and, Ask.record] using hwork)
  | answers left status headers body =>
      cases h with
      | serving hwork => exact .answered hwork status headers body

theorem trail_of_walk {incoming : Incoming} {admitted : Admitted}
    (hreceive : receive app incoming = .ok admitted) {first stage : Stage}
    {questions : List (Ask ν)} (h : Threads.Walks (Steps host app incoming) first questions stage)
    (hfirst : first.phase = .fresh) : Trail host app admitted stage.phase questions := by
  induction h with
  | nil =>
      rw [hfirst]
      exact .fresh
  | snoc _ hlast ih =>
      obtain ⟨admitted', hreceive', hallows⟩ := hlast
      obtain rfl : admitted = admitted' := by simpa [hreceive] using hreceive'
      exact ih.step hallows

/-- What is refused asks for nothing. -/
theorem nil_of_walk {incoming : Incoming} {error : Proxy.ProxyError}
    (hreceive : receive app incoming = .error error) {first stage : Stage}
    {questions : List (Ask ν)} (h : Threads.Walks (Steps host app incoming) first questions stage) :
    questions = [] := by
  cases h with
  | nil => rfl
  | snoc _ hlast =>
      obtain ⟨admitted, hok, _⟩ := hlast
      rw [hreceive] at hok
      cases hok

theorem firstStage_phase (incoming : Incoming) : (firstStage host app incoming).phase = .fresh := by
  unfold firstStage
  split <;> rfl

/-- No record of a trail shows a credential. -/
theorem Trail.hides {admitted : Admitted} {phase : Phase} {questions : List (Ask ν)}
    (h : Trail host app admitted phase questions) :
    ∀ question ∈ questions, ∀ record, question.record = some record → ShowsNoCredential record := by
  have hopening : ShowsNoCredential
      (openingRecord (admitted.ctx app) (admitted.licence host app).shows) :=
    hides_redactHeaders _
  cases h with
  | fresh => simp
  | serving hwork =>
      intro question hquestion record hrecord
      rcases List.mem_cons.mp hquestion with rfl | hquestion
      · rw [← Option.some.inj hrecord]
        exact hopening
      · rw [hwork question hquestion] at hrecord
        cases hrecord
  | answered hwork status headers body =>
      intro question hquestion record hrecord
      rcases List.mem_append.mp hquestion with hquestion | hquestion
      · rcases List.mem_cons.mp hquestion with rfl | hquestion
        · rw [← Option.some.inj hrecord]
          exact hopening
        · rw [hwork question hquestion] at hrecord
          cases hrecord
      · rw [List.mem_singleton.mp hquestion] at hrecord
        rw [← Option.some.inj hrecord]
        exact hides_redactHeaders _

/-- A request that is in service or has been. -/
inductive Audited (host : Rune ν σ) (app : Proxy.AppState) (incoming : Incoming)
    (questions : List (Ask ν)) (rest : Dialogue (Ask ν) Ask.Answer Response) : Prop where
  | refused {error : Proxy.ProxyError} (hreceive : receive app incoming = .error error)
      (hasked : questions = []) (hrest : rest = .done (errorResponse error))
  | given {admitted : Admitted} {phase : Phase} (hreceive : receive app incoming = .ok admitted)
      (htrail : Trail host app admitted phase questions)
      (hhides : ∀ question ∈ questions, ∀ record, question.record = some record →
        ShowsNoCredential record)
      (hrest : ∀ response, rest = .done response →
        phase = .answered response.status ∨ phase = .serving ∧ response.status = 502)

variable {scriptDir : Text} {store : ScriptStore.Store (Json ν)} {pool : InService ν}

/-- What is refused is answered at once. -/
theorem refused_done (h : Reached host app scriptDir store pool) {id : Nat}
    {thread : Thread (@Ask.Answer ν) Incoming Response} (hthread : pool.threads[id]? = some thread)
    {error : Proxy.ProxyError} (hreceive : receive app thread.request = .error error) :
    thread.rest = .done (errorResponse error) := by
  obtain ⟨stage, hwalks, hkeeps⟩ := follows h id thread hthread
  cases hrest : thread.rest with
  | done response =>
      rw [hrest] at hkeeps
      cases (hkeeps : Settles app thread.request stage response) with
      | refused hreceive' => rw [Except.error.inj (hreceive.symm.trans hreceive')]
      | failed hreceive' => cases hreceive.symm.trans hreceive'
      | answered hreceive' => cases hreceive.symm.trans hreceive'
  | ask question next =>
      rw [hrest] at hkeeps
      obtain ⟨_, ⟨admitted, hok, _⟩, _⟩ := hkeeps
      cases hreceive.symm.trans hok

/-- **The audit trail.** In any run, whatever the others do: a request that is
refused leaves nothing, and one that is given to a script leaves its own record
first, and last that of its response, unless the script fails. -/
theorem audit_trail (h : Reached host app scriptDir store pool) {id : Nat}
    {thread : Thread (@Ask.Answer ν) Incoming Response}
    (hthread : pool.threads[id]? = some thread) :
    Audited host app thread.request (pool.askedBy id) thread.rest := by
  obtain ⟨stage, hwalks, hkeeps⟩ := follows h id thread hthread
  cases hreceive : receive app thread.request with
  | error error =>
      exact .refused hreceive (nil_of_walk hreceive hwalks) (refused_done h hthread hreceive)
  | ok admitted =>
      have htrail := trail_of_walk hreceive hwalks (firstStage_phase _)
      refine .given hreceive htrail htrail.hides fun response hrest => ?_
      rw [hrest] at hkeeps
      cases (hkeeps : Settles app thread.request stage response) with
      | refused hreceive' => cases hreceive.symm.trans hreceive'
      | failed _ _ hstatus => exact .inr ⟨rfl, hstatus⟩
      | answered _ _ => exact .inl rfl

end Trail

/-- A reset of a manager, from its arrival to its answer. -/
def resetEvents : List (ServiceEvent Nat) :=
  [.arrive (incomingTo .managerReset .POST "/redfish/v1/Managers/1/Actions/Manager.Reset".toList),
    .go 0 nobody, .go 0 nobody]

theorem audit_trail_reset :
    ∃ (pool : InService Nat) (thread : Thread (@Ask.Answer Nat) Incoming Response)
        (response : Response),
      Reached quietHost (appWith .managerReset) [] ScriptStore.new pool ∧
        pool.threads[0]? = some thread ∧ thread.rest = .done response ∧ response.status = 204 ∧
        Audited quietHost (appWith .managerReset) thread.request (pool.askedBy 0) thread.rest := by
  have hreached : Reached quietHost (appWith .managerReset) [] ScriptStore.new
      (after (serviceStep quietHost (appWith .managerReset) []) (Threads.empty ScriptStore.new)
        resetEvents) :=
    ⟨resetEvents, Visits.last _⟩
  exact ⟨_, _, _, hreached, rfl, rfl, rfl, audit_trail hreached rfl⟩

end RedfishProxy.Shipped
