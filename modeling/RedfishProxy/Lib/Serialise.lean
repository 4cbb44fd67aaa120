import RedfishProxy.Lib.Threads

/-!
# One after the other

Requests in service that put one question to the shared object at most come to
what they come to one after the other, in the order of these questions. What a
request asks of the outside is its own, so that it may be moved to where its one
question is.

Main results:
* `serialised`: every state of every run is that of a run without interleaving.
* `finished_before`: a request that ended before another arrived comes first.
-/

namespace Lib

variable {Q : Type} {A : Q → Type} {ι α S : Type}

/-- A request with nothing in between, from this state of the shared object. -/
def Thread.alone (sharing : Sharing A S) (opening : ι → Dialogue Q A α) (thread : Thread A ι α)
    (shared : S) : Dialogue Q A α × S :=
  (opening thread.request).alone sharing thread.heard shared

namespace Threads

variable (sharing : Sharing A S) (opening : ι → Dialogue Q A α) (start : S)

/-- What a request leaves of the shared object. -/
def serve (pool : Threads A ι α S) (shared : S) (id : Nat) : S :=
  match pool.threads[id]? with
  | some thread => (thread.alone sharing opening shared).2
  | none => shared

/-- The shared object, once these requests are served one after the other. -/
def served (pool : Threads A ι α S) (ids : List Nat) : S :=
  after (serve sharing opening pool) start ids

/-- The state is that of the requests served one after the other. -/
structure Serial (pool : Threads A ι α S) : Prop where
  /-- Each has one place. -/
  nodup : (pool.callers sharing).Nodup
  shared : pool.shared = served sharing opening start pool (pool.callers sharing)
  /-- A request is where it is from the object those before it leave. -/
  called : ∀ before id later, pool.callers sharing = before ++ id :: later →
    ∀ thread : Thread A ι α, pool.threads[id]? = some thread →
      thread.rest = (thread.alone sharing opening (served sharing opening start pool before)).1
  /-- And if it has no place, from any. -/
  silent : ∀ id (thread : Thread A ι α), pool.threads[id]? = some thread →
    id ∉ pool.callers sharing →
      ∀ shared, thread.alone sharing opening shared = (thread.rest, shared)

/-- With what each may still ask of the shared object. -/
structure Serialised (pool : Threads A ι α S) : Prop extends Serial sharing opening start pool where
  left : ∀ id (thread : Thread A ι α), pool.threads[id]? = some thread →
    thread.rest.AtMost sharing (if id ∈ pool.callers sharing then 0 else 1)
  within : ∀ id ∈ pool.callers sharing, id < pool.threads.length

variable {sharing opening start} {pool pool' : Threads A ι α S}

theorem serve_eq {id : Nat} {thread : Thread A ι α} (h : pool.threads[id]? = some thread)
    (shared : S) : serve sharing opening pool shared id =
      (thread.alone sharing opening shared).2 := by
  rw [serve, h]

/-- Served in the same way, they leave the same. -/
theorem served_congr {ids : List Nat}
    (h : ∀ before id later, ids = before ++ id :: later →
      serve sharing opening pool' (served sharing opening start pool before) id =
        serve sharing opening pool (served sharing opening start pool before) id) :
    served sharing opening start pool' ids = served sharing opening start pool ids := by
  induction ids using List.reverseRecOn with
  | nil => rfl
  | append_singleton ids id ih =>
      unfold served at ih h ⊢
      rw [after_concat, after_concat, ih, h ids id [] rfl]
      intro before id' later heq
      exact h before id' (later ++ [id]) (by rw [heq]; simp)

theorem mem_before {before later ids : List Nat} {id : Nat} (h : ids = before ++ id :: later)
    {other : Nat} (hother : other ∈ before) : other ∈ ids := by
  rw [h]
  exact List.mem_append_left _ hother

/-- Those with a place are served alike where their threads are the same. -/
theorem served_congr_threads {ids : List Nat}
    (h : ∀ id ∈ ids, pool'.threads[id]? = pool.threads[id]?) :
    served sharing opening start pool' ids = served sharing opening start pool ids := by
  refine served_congr fun before id later heq => ?_
  unfold serve
  rw [h id (by rw [heq]; simp)]

theorem alone_snoc (thread : Thread A ι α) (outside : Outside A) (rest : Dialogue Q A α)
    (shared : S) :
    Thread.alone sharing opening ⟨thread.request, thread.heard ++ [outside], rest⟩ shared =
      Dialogue.advance sharing (thread.alone sharing opening shared) outside :=
  after_concat ..

theorem callers_snoc (id : Nat) (question : Q) :
    ((pool.asked ++ [(id, question)]).filter fun entry => (sharing entry.2).isSome).map Prod.fst =
      pool.callers sharing ++ if (sharing question).isSome then [id] else [] := by
  unfold callers
  rw [List.filter_append, List.map_append]
  cases h : (sharing question).isSome <;> simp [h]

/-- A place in a list that got one more. -/
theorem eq_or_split_of_concat {ids before later : List Nat} {last id : Nat}
    (h : ids ++ [last] = before ++ id :: later) :
    (id = last ∧ before = ids) ∨ ∃ back, ids = before ++ id :: back := by
  rcases List.eq_nil_or_concat later with rfl | ⟨back, last', rfl⟩
  · obtain ⟨hids, hlast⟩ := List.append_inj' h rfl
    exact .inl ⟨(List.singleton_inj.mp hlast).symm, hids.symm⟩
  · rw [List.concat_eq_append, ← List.cons_append, ← List.append_assoc] at h
    exact .inr ⟨back, (List.append_inj' h rfl).1⟩

theorem serialised_arrive (hopening : ∀ request, (opening request).AtMost sharing 1)
    (h : Serialised sharing opening start pool) (request : ι) :
    Serialised sharing opening start (arrive opening pool request) := by
  have hold : ∀ id ∈ pool.callers sharing,
      (arrive opening pool request).threads[id]? = pool.threads[id]? := by
    intro id hid
    rw [getElem?_arrive, if_neg (Nat.ne_of_lt (h.within id hid))]
  -- the new one has no place
  have hnew : pool.threads.length ∉ pool.callers sharing :=
    fun hmem => Nat.lt_irrefl _ (h.within _ hmem)
  refine ⟨⟨h.nodup, ?_, ?_, ?_⟩, ?_, ?_⟩
  · show pool.shared = served _ _ _ _ (pool.callers sharing)
    rw [served_congr_threads hold]
    exact h.shared
  · intro before id later hplace thread hthread
    rw [hold id (by rw [show pool.callers sharing = _ from hplace]; simp)] at hthread
    rw [served_congr_threads fun other hother => hold other (mem_before hplace hother)]
    exact h.called before id later hplace thread hthread
  · intro id thread hthread hid shared
    rw [getElem?_arrive] at hthread
    split at hthread
    · obtain rfl := Option.some.inj hthread
      rfl
    · exact h.silent id thread hthread hid shared
  · intro id thread hthread
    rw [getElem?_arrive] at hthread
    show thread.rest.AtMost sharing (if id ∈ pool.callers sharing then 0 else 1)
    split at hthread
    · rename_i hid
      obtain rfl := Option.some.inj hthread
      rw [hid, if_neg hnew]
      exact hopening request
    · exact h.left id thread hthread
  · intro id hid
    show id < (pool.threads ++ [_]).length
    have hlt := h.within id hid
    rw [List.length_append]
    omega

section Go

variable {id : Nat} {request : ι} {heard : List (Outside A)} {question : Q}
  {next : A question → Dialogue Q A α} {outside : Outside A}

/-- What the thread came to, and what comes of one more question. -/
theorem alone_next (hthread : pool.threads[id]? = some ⟨request, heard, .ask question next⟩)
    (rest : Dialogue Q A α) {shared : S}
    (hrest : (Thread.alone sharing opening ⟨request, heard, .ask question next⟩ shared).1 =
      .ask question next) :
    Thread.alone sharing opening ⟨request, heard ++ [outside], rest⟩ shared =
      Dialogue.advance sharing
        (.ask question next, serve sharing opening pool shared id) outside := by
  rw [serve_eq hthread, ← hrest]
  exact alone_snoc ⟨request, heard, .ask question next⟩ outside rest shared

/-- **A question to the outside leaves every request at its place.** -/
theorem serialised_outside (h : Serialised sharing opening start pool)
    (hthread : pool.threads[id]? = some ⟨request, heard, .ask question next⟩)
    (hquestion : sharing question = none)
    (hthreads : ∀ other, pool'.threads[other]? = if other = id
      then some ⟨request, heard ++ [outside], next (outside question)⟩
      else pool.threads[other]?)
    (hlength : pool'.threads.length = pool.threads.length)
    (hcallers : pool'.callers sharing = pool.callers sharing)
    (hshared : pool'.shared = pool.shared) : Serialised sharing opening start pool' := by
  have hnow : pool'.threads[id]? =
      some ⟨request, heard ++ [outside], next (outside question)⟩ := by rw [hthreads, if_pos rfl]
  have hadvance : ∀ shared : S, Dialogue.advance sharing (.ask question next, shared) outside =
      (next (outside question), shared) := fun shared => Dialogue.advance_outside hquestion
  -- from its place the request leaves what it left before
  have hplace : ∀ before other later, pool.callers sharing = before ++ other :: later →
      serve sharing opening pool' (served sharing opening start pool before) other =
        serve sharing opening pool (served sharing opening start pool before) other := by
    intro before other later heq
    by_cases hother : other = id
    · subst hother
      rw [serve_eq hnow, alone_next hthread _ (h.called before other later heq _ hthread).symm,
        hadvance]
    · unfold serve
      rw [hthreads, if_neg hother]
  have hserved : ∀ before later, pool.callers sharing = before ++ later →
      served sharing opening start pool' before = served sharing opening start pool before := by
    intro before later heq
    refine served_congr fun front other back hids => ?_
    exact hplace front other (back ++ later) (by rw [heq, hids]; simp)
  refine ⟨⟨?_, ?_, ?_, ?_⟩, ?_, ?_⟩
  · rw [hcallers]
    exact h.nodup
  · rw [hcallers, hshared, hserved _ [] (by simp)]
    exact h.shared
  · intro before other later heq thread hother
    rw [hcallers] at heq
    rw [hserved before _ heq]
    rw [hthreads] at hother
    split at hother
    · rename_i hid
      subst hid
      obtain rfl := Option.some.inj hother
      rw [alone_next hthread _ (h.called before other later heq _ hthread).symm, hadvance]
    · exact h.called before other later heq thread hother
  · intro other thread hother hsilent shared
    rw [hcallers] at hsilent
    rw [hthreads] at hother
    split at hother
    · rename_i hid
      subst hid
      obtain rfl := Option.some.inj hother
      have hbefore := h.silent other _ hthread hsilent shared
      rw [alone_next hthread _ (congrArg Prod.fst hbefore), hadvance, serve_eq hthread, hbefore]
    · exact h.silent other thread hother hsilent shared
  · intro other thread hother
    rw [hcallers]
    rw [hthreads] at hother
    split at hother
    · rename_i hid
      subst hid
      obtain rfl := Option.some.inj hother
      obtain ⟨left, hspends, hnext⟩ := h.left other _ hthread
      unfold Dialogue.spends at hspends
      rw [hquestion, if_neg (by simp)] at hspends
      rw [← hspends]
      exact hnext _
    · exact h.left other thread hother
  · rw [hcallers, hlength]
    exact h.within

/-- **A question to the shared object puts its request at the end.** -/
theorem serialised_shared (h : Serialised sharing opening start pool)
    (hthread : pool.threads[id]? = some ⟨request, heard, .ask question next⟩)
    {answer : S → A question × S} (hquestion : sharing question = some answer)
    (hthreads : ∀ other, pool'.threads[other]? = if other = id
      then some ⟨request, heard ++ [outside], next (answer pool.shared).1⟩
      else pool.threads[other]?)
    (hlength : pool'.threads.length = pool.threads.length)
    (hcallers : pool'.callers sharing = pool.callers sharing ++ [id])
    (hshared : pool'.shared = (answer pool.shared).2) : Serialised sharing opening start pool' := by
  obtain ⟨left, hspends, hnext⟩ := h.left id _ hthread
  unfold Dialogue.spends at hspends
  rw [hquestion, if_pos Option.isSome_some] at hspends
  -- it had its one question left
  have hnot : id ∉ pool.callers sharing := by
    intro hmem
    rw [if_pos hmem] at hspends
    omega
  obtain rfl : left = 0 := by
    rw [if_neg hnot] at hspends
    omega
  have hnow : pool'.threads[id]? =
      some ⟨request, heard ++ [outside], next (answer pool.shared).1⟩ := by
    rw [hthreads, if_pos rfl]
  have hbefore := h.silent id _ hthread hnot
  have halone : Thread.alone sharing opening
      ⟨request, heard ++ [outside], next (answer pool.shared).1⟩ pool.shared =
        (next (answer pool.shared).1, (answer pool.shared).2) := by
    rw [alone_next hthread _ (congrArg Prod.fst (hbefore pool.shared)), serve_eq hthread,
      hbefore, Dialogue.advance_shared hquestion]
  have hserved : ∀ before later, pool.callers sharing = before ++ later →
      served sharing opening start pool' before = served sharing opening start pool before := by
    intro before later heq
    refine served_congr_threads fun other hother => ?_
    have hne : other ≠ id := by
      intro heq'
      subst heq'
      exact hnot (by rw [heq]; exact List.mem_append_left _ hother)
    rw [hthreads, if_neg hne]
  have hall : served sharing opening start pool' (pool.callers sharing) = pool.shared := by
    rw [hserved _ [] (by simp)]
    exact h.shared.symm
  refine ⟨⟨?_, ?_, ?_, ?_⟩, ?_, ?_⟩
  · rw [hcallers]
    exact List.nodup_append.mpr ⟨h.nodup, List.pairwise_singleton _ id, by
      intro a ha b hb heq
      rw [List.mem_singleton.mp hb] at heq
      subst heq
      exact hnot ha⟩
  · rw [hcallers, hshared]
    show _ = after _ start _
    rw [after_concat]
    show _ = serve sharing opening pool' (served sharing opening start pool' _) id
    rw [hall, serve_eq hnow, halone]
  · intro before other later heq thread hother
    rw [hcallers] at heq
    rw [hthreads] at hother
    split at hother
    · rename_i hid
      subst hid
      obtain rfl := Option.some.inj hother
      rcases eq_or_split_of_concat heq with ⟨_, hbefore⟩ | ⟨back, hback⟩
      · rw [hbefore, hall, halone]
      · exact absurd (by rw [hback]; simp) hnot
    · rename_i hid
      rcases eq_or_split_of_concat heq with ⟨heq', _⟩ | ⟨back, hback⟩
      · exact absurd heq' hid
      · rw [hserved before _ hback]
        exact h.called before other back hback thread hother
  · intro other thread hother hsilent shared
    rw [hcallers] at hsilent
    have hne : other ≠ id := fun heq => hsilent (by rw [heq]; simp)
    rw [hthreads, if_neg hne] at hother
    exact h.silent other thread hother (fun hmem => hsilent (List.mem_append_left _ hmem)) shared
  · intro other thread hother
    rw [hthreads] at hother
    rw [hcallers]
    split at hother
    · rename_i hid
      subst hid
      obtain rfl := Option.some.inj hother
      rw [if_pos (by simp)]
      exact hnext _
    · rename_i hid
      have hsame : other ∈ pool.callers sharing ++ [id] ↔ other ∈ pool.callers sharing := by
        simp [hid]
      simp only [hsame]
      exact h.left other thread hother
  · intro other hother
    rw [hcallers] at hother
    rw [hlength]
    rcases List.mem_append.mp hother with hother | hother
    · exact h.within other hother
    · rw [List.mem_singleton.mp hother]
      exact (List.getElem?_eq_some_iff.mp hthread).1

end Go

theorem serialised_step (hopening : ∀ request, (opening request).AtMost sharing 1)
    (event : ThreadEvent A ι) (h : Serialised sharing opening start pool) :
    Serialised sharing opening start (step sharing opening pool event) := by
  cases event with
  | arrive request => exact serialised_arrive hopening h request
  | go id outside =>
      show Serialised sharing opening start (go sharing pool id outside)
      rcases go_cases sharing pool id outside with
        ⟨request, heard, question, next, hthread, hgo⟩ | hgo
      · have hcallers := @callers_snoc _ _ _ _ _ sharing pool id question
        rw [hgo]
        cases hquestion : sharing question with
        | none =>
            rw [Dialogue.advance_outside hquestion]
            refine serialised_outside h hthread hquestion
              (getElem?_set_thread hthread _) List.length_set ?_ rfl
            exact hcallers.trans (by simp [hquestion])
        | some answer =>
            rw [Dialogue.advance_shared hquestion]
            refine serialised_shared h hthread hquestion
              (getElem?_set_thread hthread _) List.length_set ?_ rfl
            exact hcallers.trans (by simp [hquestion])
      · rw [hgo]
        exact h

/-- **Every state is that of a run without interleaving.** -/
theorem serialised (hopening : ∀ request, (opening request).AtMost sharing 1)
    {events : List (ThreadEvent A ι)}
    (h : Visits (step sharing opening) (empty start) events pool) :
    Serial sharing opening start pool := by
  have hempty : Serialised sharing opening start (empty start) := by
    refine ⟨⟨List.nodup_nil, rfl, ?_, ?_⟩, ?_, ?_⟩
    · intro before id later heq
      exact absurd heq (by simp [callers, empty])
    · intro id thread hthread
      cases hthread
    · intro id thread hthread
      cases hthread
    · intro id hid
      exact absurd hid (by simp [callers, empty])
  exact (h.invariant hempty fun _ event => serialised_step hopening event).toSerial

/-! ## The order of the run -/

/-- A request that has ended. -/
def Ended (pool : Threads A ι α S) (id : Nat) (result : α) : Prop :=
  ∃ thread, pool.threads[id]? = some thread ∧ thread.rest = .done result

/-- Questions that others asked came after those of the pool. -/
def AskedMore (id : Nat) (pool pool' : Threads A ι α S) : Prop :=
  ∃ more, pool'.asked = pool.asked ++ more ∧ ∀ entry ∈ more, entry.1 ≠ id

/-- A request that has ended asks nothing more. -/
theorem ended_step {id : Nat} {result : α} (h : pool.Ended id result) (event : ThreadEvent A ι) :
    (step sharing opening pool event).Ended id result ∧
      AskedMore id pool (step sharing opening pool event) := by
  obtain ⟨thread, hthread, hdone⟩ := h
  cases event with
  | arrive request =>
      refine ⟨⟨thread, ?_, hdone⟩, [], by rw [List.append_nil]; rfl, by simp⟩
      have hlt : id < pool.threads.length := (List.getElem?_eq_some_iff.mp hthread).1
      show (arrive opening pool request).threads[id]? = _
      rw [getElem?_arrive, if_neg (Nat.ne_of_lt hlt)]
      exact hthread
  | go other outside =>
      show (go sharing pool other outside).Ended id result ∧
        AskedMore id pool (go sharing pool other outside)
      rcases go_cases sharing pool other outside with
        ⟨request, heard, question, next, hasking, hgo⟩ | hgo
      · have hne : other ≠ id := by
          intro heq
          subst heq
          rw [hthread] at hasking
          rw [Option.some.inj hasking] at hdone
          cases hdone
        rw [hgo]
        refine ⟨⟨thread, ?_, hdone⟩, [(other, question)], rfl, by simpa using hne⟩
        show (pool.threads.set other _)[id]? = _
        rw [getElem?_set_thread hasking, if_neg (Ne.symm hne)]
        exact hthread
      · rw [hgo]
        exact ⟨⟨thread, hthread, hdone⟩, [], by simp, by simp⟩

/-- It has ended, and so it had. -/
def EndedSince (id : Nat) (result : α) (pool pool' : Threads A ι α S) : Prop :=
  pool'.Ended id result ∧ AskedMore id pool pool'

theorem endedSince_step {id : Nat} {result : α} (h : EndedSince id result pool pool')
    (event : ThreadEvent A ι) :
    EndedSince id result pool (step sharing opening pool' event) := by
  obtain ⟨hended, more, hasked, hmore⟩ := h
  obtain ⟨hended', extra, hextra, hnot⟩ := ended_step hended event
  refine ⟨hended', more ++ extra, by rw [hextra, hasked, List.append_assoc], ?_⟩
  intro entry hentry
  rcases List.mem_append.mp hentry with hentry | hentry
  · exact hmore entry hentry
  · exact hnot entry hentry

theorem endedSince_after {id : Nat} {result : α} (h : pool.Ended id result)
    (more : List (ThreadEvent A ι)) :
    EndedSince id result pool (after (step sharing opening) pool more) :=
  (Visits.last more).invariant (⟨h, [], by simp, by simp⟩ : EndedSince id result pool pool)
    fun _ event h => endedSince_step h event

/-- **A request that ended before another arrived comes before it**, where both
have a place. -/
theorem finished_before {events : List (ThreadEvent A ι)}
    (hvisits : Visits (step sharing opening) (empty start) events pool)
    (more : List (ThreadEvent A ι)) {first second : Nat} {result : α}
    (hended : pool.Ended first result) (hlate : pool.threads.length ≤ second)
    (hfirst : first ∈ (after (step sharing opening) pool more).callers sharing)
    (hsecond : second ∈ (after (step sharing opening) pool more).callers sharing) :
    ∃ before between later, (after (step sharing opening) pool more).callers sharing =
      before ++ first :: between ++ second :: later := by
  obtain ⟨_, extra, hasked, hnot⟩ : EndedSince first result pool
    (after (step sharing opening) pool more) := endedSince_after hended more
  have harrived : pool.Arrived := arrived hvisits
  have hcallers : (after (step sharing opening) pool more).callers sharing =
      pool.callers sharing ++
        (extra.filter fun entry => (sharing entry.2).isSome).map Prod.fst := by
    unfold callers
    rw [hasked, List.filter_append, List.map_append]
  rw [hcallers] at hfirst hsecond ⊢
  have hfirst : first ∈ pool.callers sharing := by
    rcases List.mem_append.mp hfirst with h | h
    · exact h
    · obtain ⟨entry, hentry, heq⟩ := List.mem_map.mp h
      exact absurd heq (hnot entry (List.mem_of_mem_filter hentry))
  have hsecond : second ∈ (extra.filter fun entry => (sharing entry.2).isSome).map Prod.fst := by
    rcases List.mem_append.mp hsecond with h | h
    · obtain ⟨entry, hentry, heq⟩ := List.mem_map.mp h
      have hlt := harrived entry (List.mem_of_mem_filter hentry)
      omega
    · exact h
  obtain ⟨before, between, hbefore⟩ := List.append_of_mem hfirst
  obtain ⟨front, later, hlater⟩ := List.append_of_mem hsecond
  refine ⟨before, between ++ front, later, ?_⟩
  rw [hbefore, hlater]
  simp

end Threads
end Lib
