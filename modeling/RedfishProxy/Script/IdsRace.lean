import RedfishProxy.Lib.FirstUse
import RedfishProxy.Script.Resolution

/-!
# Calls for the ids that overlap

The calls of `system_id` and `manager_id` of one handler run, interleaved at
their awaits: each of the two of a fetch, with any answer of the BMC. A call
that finds no ids resolves them and writes them without looking again, so two
calls that overlap can each go by a resolution of their own.

Main results:
* `ids_belong_together`: the ids of a request are of one resolution, unless a call
  probes on when another has kept its ids.
* `belong_together_iff`: the runs in which they are.
-/

namespace RedfishProxy.Script

open Lib Http FirstUse

section Race

variable {ν V σ : Type} (host : Host ν V σ) (ctx : RequestCtx)

/-- What a call awaits: the answer to a request, or the rest of its body. -/
inductive Awaiting (ν : Type) where
  | sending (path : Text) (next : Except Fault (Json ν) → Probe ν Ids)
  | reading (path : Text) (reply : Reply) (next : Except Fault (Json ν) → Probe ν Ids)

inductive Wake where
  | replied (answer : Except TransportError Reply)
  | read

/-- Runs to the next await. A path that is none is refused on the spot. -/
def untilAwait : Probe ν Ids → Awaiting ν ⊕ Except Fault Ids
  | .done outcome => .inr outcome
  | .get path next =>
    match requireAbsolute path with
    | .error fault => untilAwait (next (.error fault))
    | .ok _ => .inl (.sending path next)

/-- `resolve_ids` behind its look at the kept ids, up to the write. -/
def resolving : Suspending (Awaiting ν) Wake Fault Ids where
  start := untilAwait resolveProbe
  resume
    | .sending path next, .replied (.error error) =>
      some (untilAwait (next (fetchedFrom host ctx path (.error error))))
    | .sending path next, .replied (.ok reply) => some (.inl (.reading path reply next))
    | .reading path reply next, .read =>
      some (untilAwait (next (fetchedFrom host ctx path (.ok reply))))
    | _, _ => none

/-- The ids kept for the request, and its calls for them. -/
abbrev IdCalls (ν : Type) := FirstUse (Awaiting ν) Fault Ids

abbrev idStep : IdCalls ν → UseEvent Wake → IdCalls ν := step (resolving host ctx)

variable {host ctx}

/-! ## A call alone -/

variable {state : IdCalls ν} {call : Nat}

theorem advance_advance (task : Awaiting ν) (next : Awaiting ν ⊕ Except Fault Ids) :
    (state.advance call (.inl task)).advance call next = state.advance call next := by
  match next with
  | .inl other => simp [advance]
  | .inr (.error fault) => simp [advance]
  | .inr (.ok ids) => simp [advance]

theorem idStep_advance (hcall : call < state.calls.length) {task : Awaiting ν} {answer : Wake}
    {next : Awaiting ν ⊕ Except Fault Ids}
    (h : (resolving host ctx).resume task answer = some next) :
    idStep host ctx (state.advance call (.inl task)) (.wake call answer) =
      state.advance call next := by
  have htask : (state.advance call (.inl task)).calls[call]? = some (.pending task) :=
    List.getElem?_set_self hcall
  unfold idStep step
  simp only [htask, h]
  exact advance_advance task next

/-- What comes of a call that nothing comes between is what `resolve_ids` makes
of the same answers. -/
theorem exists_wakes (hcall : call < state.calls.length) (probe : Probe ν Ids)
    (world : World σ) : ∃ wakes : List Wake,
      after (idStep host ctx) (state.advance call (untilAwait probe)) (wakes.map (.wake call)) =
        state.advance call (.inr (exec (probe.run host ctx) world).1) := by
  induction probe generalizing world with
  | done outcome => exact ⟨[], rfl⟩
  | get path next ih =>
      rw [exec_run_get, untilAwait]
      cases hpath : requireAbsolute path with
      | error fault =>
          rw [exec_getJson_refused host hpath]
          exact ih (.error fault) world
      | ok _ =>
          rw [exec_getJson host hpath]
          dsimp only
          cases hanswer : (host.client (getOutbound ctx path) world.net).1 with
          | error error =>
              obtain ⟨wakes, hwakes⟩ := ih (fetchedFrom host ctx path (.error error))
                (world.after host (getOutbound ctx path))
              refine ⟨.replied (.error error) :: wakes, ?_⟩
              rw [← hwakes, List.map_cons, after, List.foldl_cons, idStep_advance hcall rfl]
              rfl
          | ok reply =>
              obtain ⟨wakes, hwakes⟩ := ih (fetchedFrom host ctx path (.ok reply))
                (world.after host (getOutbound ctx path))
              refine ⟨.replied (.ok reply) :: .read :: wakes, ?_⟩
              rw [← hwakes, List.map_cons, List.map_cons, after, List.foldl_cons,
                List.foldl_cons, idStep_advance hcall rfl, idStep_advance hcall rfl]
              rfl

/-- **A call alone** comes to what `resolve_ids` comes to. -/
theorem exists_wakes_resolveIds {world : World σ} (hfresh : world.ids = none) :
    ∃ wakes : List Wake, after (idStep host ctx) empty (.look :: wakes.map (.wake 0)) =
      (⟨none, [.dropped]⟩ : IdCalls ν).advance 0
        (.inr (exec (resolveIds host ctx) world).1) := by
  have hplaced : 0 < (⟨none, [.dropped]⟩ : IdCalls ν).calls.length := Nat.one_pos
  obtain ⟨wakes, hwakes⟩ := exists_wakes hplaced (resolveProbe (ν := ν)) world
  refine ⟨wakes, ?_⟩
  have hkeep : (exec (resolveIds host ctx) world).1 =
      (exec ((resolveProbe (ν := ν)).run host ctx) world).1 := by
    rw [exec_resolveIds, hfresh]
    dsimp only
    cases exec ((resolveProbe (ν := ν)).run host ctx) world with
    | mk result last => cases result <;> rfl
  rw [hkeep, ← hwakes]
  rfl

/-! ## What the calls return -/

inductive Asked where
  | system
  | manager

def Asked.of : Asked → Ids → Text
  | system, ids => ids.system
  | manager, ids => ids.manager

/-- What a call returned, if it succeeded. -/
def returned (asked : Nat → Asked) (state : IdCalls ν) (call : Nat) : Option Text :=
  match state.calls[call]? with
  | some (.ended (.ok (_, ids))) => some ((asked call).of ids)
  | _ => none

/-- Once a call succeeded, there is a resolution of one of them whose system or
manager every call that succeeded returned. -/
def BelongTogether (asked : Nat → Asked) (state : IdCalls ν) : Prop :=
  ∀ call value, state.Succeeded call value → ∃ resolver ids,
    state.Succeeded resolver (resolver, ids) ∧
      ∀ call' text, returned asked state call' = some text → text = (asked call').of ids

theorem returned_of_succeeded (asked : Nat → Asked) {value : Nat × Ids}
    (h : state.Succeeded call value) :
    returned asked state call = some ((asked call).of value.2) := by
  rw [returned, h]

theorem exists_succeeded (asked : Nat → Asked) {text : Text}
    (h : returned asked state call = some text) :
    ∃ value, state.Succeeded call value ∧ text = (asked call).of value.2 := by
  unfold returned at h
  split at h
  · rename_i origin ids hcall
    exact ⟨(origin, ids), hcall, (Option.some.inj h).symm⟩
  · cases h

theorem belongTogether_of_oneValue (asked : Nat → Asked) (hone : state.OneValue)
    (horigin : ∀ call value, state.Succeeded call value → state.Succeeded value.1 value) :
    BelongTogether asked state := by
  intro call value hvalue
  refine ⟨value.1, value.2, horigin call value hvalue, fun call' text htext => ?_⟩
  obtain ⟨value', hvalue', rfl⟩ := exists_succeeded asked htext
  rw [hone call' call value' value hvalue' hvalue]

/-- Ids that differ are told apart by their systems or by their managers. -/
theorem exists_of_ne {ids ids' : Ids} (h : ids ≠ ids') :
    ∃ part : Asked, part.of ids ≠ part.of ids' := by
  by_contra hsame
  push Not at hsame
  apply h
  cases ids with
  | mk system manager =>
      cases ids' with
      | mk system' manager' =>
          have hsystem : system = system' := hsame .system
          have hmanager : manager = manager' := hsame .manager
          rw [hsystem, hmanager]

theorem oneValue_of_belongTogether (h : ∀ asked, BelongTogether asked state) :
    state.OneValue := by
  intro call call' value value' hvalue hvalue'
  by_contra hne
  obtain ⟨part, hpart⟩ := exists_of_ne hne
  obtain ⟨_, ids, _, hids⟩ := h (fun _ => part) call value hvalue
  have hfirst := hids call _ (returned_of_succeeded _ hvalue)
  have hsecond := hids call' _ (returned_of_succeeded _ hvalue')
  exact hpart (hfirst.trans hsecond.symm)

/-- Ids come apart, for some calls of a run, exactly where a call ends its probing
with ids that differ from those that another has kept. -/
theorem belong_together_iff (events : List (UseEvent Wake)) :
    (∀ asked state, Visits (idStep host ctx) empty events state → BelongTogether asked state) ↔
      ∀ done event rest, events = done ++ event :: rest →
        ¬ Overwrites (resolving host ctx) (after (idStep host ctx) empty done) event := by
  rw [← one_value_iff]
  constructor
  · intro h state hvisits
    exact oneValue_of_belongTogether fun asked => h asked state hvisits
  · intro h asked state hvisits
    have hone := h state hvisits
    obtain ⟨done, _, _, rfl⟩ := hvisits
    exact belongTogether_of_oneValue asked hone fun call value => succeeded_origin done

/-- **The ids of one request belong together** in every state of a run,
whichever the calls ask for, if no call goes on probing when another has kept
its ids. -/
theorem ids_belong_together {events : List (UseEvent Wake)}
    (h : ∀ done event rest, events = done ++ event :: rest →
      ¬ Late (after (idStep host ctx) empty done) event) (asked : Nat → Asked)
    {state : IdCalls ν} (hvisits : Visits (idStep host ctx) empty events state) :
    BelongTogether asked state :=
  (belong_together_iff events).mpr (fun done event rest hevents hoverwrites =>
    h done event rest hevents hoverwrites.late) asked state hvisits

/-- And no call does, if none finds the ids missing while another is probing. -/
theorem ids_belong_together_of_in_turn {events : List (UseEvent Wake)}
    (h : ∀ done event rest, events = done ++ event :: rest →
      ¬ Overlaps (after (idStep host ctx) empty done) event) (asked : Nat → Asked)
    {state : IdCalls ν} (hvisits : Visits (idStep host ctx) empty events state) :
    BelongTogether asked state :=
  (belong_together_iff events).mpr (fun _ _ _ hevents hoverwrites =>
    not_late_of_in_turn h hevents hoverwrites.late) asked state hvisits

/-! ## Two calls that overlap -/

/-- The wakes of a call whose BMC lists one system. -/
def boardWakes (call : Nat) (listing system : Reply) : List (UseEvent Wake) :=
  [.wake call (.replied (.ok listing)), .wake call .read, .wake call (.replied (.ok system)),
    .wake call .read]

theorem untilAwait_resolveProbe : untilAwait (resolveProbe (ν := ν)) =
    .inl (.sending "/redfish/v1/Systems".toList fun outcome => match outcome with
      | .error fault => .done (.error fault)
      | .ok listing =>
        match ((memberIds listing).find? (· == "System_0".toList)).or
            (memberIds listing).head? with
        | none => .done (.error [.lit "no systems found under /redfish/v1/Systems".toList])
        | some preferred =>
          probeBios (fun found => probeManager ((found.map Prod.fst).getD preferred)
            (found.bind fun pair => managedBy pair.2))
            (preferred :: (memberIds listing).filter (· != preferred))) := rfl

/-- They make it resolve that system and the manager it names. -/
theorem after_boardWakes (hcall : call < state.calls.length) {listing system : Reply}
    {collection document : Json ν} {id manager : Text}
    (hlisting : fetchedFrom host ctx "/redfish/v1/Systems".toList (.ok listing) = .ok collection)
    (hids : memberIds collection = [id]) (hpath : requireAbsolute (systemPath id) = .ok ())
    (hsystem : fetchedFrom host ctx (systemPath id) (.ok system) = .ok document)
    (hbios : (document.get "Bios".toList).isSome = true)
    (hmanager : managedBy document = some manager) :
    after (idStep host ctx) (state.advance call (resolving host ctx).start)
        (boardWakes call listing system) = state.advance call (.inr (.ok ⟨id, manager⟩)) := by
  have hpreferred : ([id].find? (· == "System_0".toList)).or [id].head? = some id := by
    rw [List.find?_singleton]
    split <;> rfl
  show after (idStep host ctx) (state.advance call (untilAwait resolveProbe)) _ = _
  rw [untilAwait_resolveProbe, boardWakes, after, List.foldl_cons, idStep_advance hcall rfl,
    List.foldl_cons, idStep_advance hcall rfl, hlisting]
  simp only [hids, hpreferred]
  rw [probeBios, untilAwait, show "/redfish/v1/Systems/".toList ++ id = systemPath id from rfl,
    hpath]
  dsimp only
  rw [List.foldl_cons, idStep_advance hcall rfl, List.foldl_cons, idStep_advance hcall rfl,
    hsystem]
  simp only [hbios, if_true, Option.map_some, Option.getD_some, Option.bind_some, hmanager]
  rfl

end Race

/-- A BMC that lists one board. -/
def boardListing (id : Text) : Json Nat :=
  .object [("Members".toList, .array [
    .object [("@odata.id".toList, .string (systemPath id))]])]

theorem fits_boardListing (id : Text) : Json.Fits Shipped.serdeLimit (boardListing id) := by
  have hfits : Json.Fits 3 (boardListing id) := (fits_idLink _).one_item.one_field _
  exact hfits.mono (by decide)

/-- One whose board changes between two calls that overlap: `system_id` answers
the first board, and `manager_id` the manager of the second. -/
def overlapEvents : List (UseEvent Wake) :=
  [.look, .look] ++
    boardWakes 0 (shelfReply (some ([], boardListing ['A'])))
      (shelfReply (some ([], boardSystem ['M']))) ++
    boardWakes 1 (shelfReply (some ([], boardListing ['B'])))
      (shelfReply (some ([], boardSystem ['N'])))

def askBoth (call : Nat) : Asked := if call = 0 then .system else .manager

theorem fetchedFrom_shelfReply (path : Text) {document : Json Nat}
    (hfits : Json.Fits Shipped.serdeLimit document) :
    fetchedFrom Shipped.quietHost.toHost RuneHost.getCtx path
      (.ok (shelfReply (some ([], document)))) = .ok document :=
  fetchedFrom_reply rfl rfl (Shipped.parseBody_writeBody hfits)

theorem after_board (state : IdCalls Nat) {call : Nat} (hcall : call < state.calls.length)
    (id manager : Text) (hids : memberIds (boardListing id) = [id])
    (hpath : requireAbsolute (systemPath id) = .ok ())
    (hmanager : managedBy (boardSystem manager) = some manager) :
    after (idStep Shipped.quietHost.toHost RuneHost.getCtx)
        (state.advance call (resolving Shipped.quietHost.toHost RuneHost.getCtx).start)
        (boardWakes call (shelfReply (some ([], boardListing id)))
          (shelfReply (some ([], boardSystem manager)))) =
      state.advance call (.inr (.ok ⟨id, manager⟩)) := by
  have hlisting := fetchedFrom_shelfReply "/redfish/v1/Systems".toList (fits_boardListing id)
  have hsystem := fetchedFrom_shelfReply (systemPath id) (fits_boardSystem manager)
  exact after_boardWakes hcall hlisting hids hpath hsystem rfl hmanager

/-- Each of the two resolves the board it was shown. -/
theorem after_overlapEvents :
    after (idStep Shipped.quietHost.toHost RuneHost.getCtx) empty overlapEvents =
      ⟨some (1, ⟨['B'], ['N']⟩), [.ended (.ok (0, ⟨['A'], ['M']⟩)),
        .ended (.ok (1, ⟨['B'], ['N']⟩))]⟩ := by
  let start := (resolving Shipped.quietHost.toHost RuneHost.getCtx).start
  let idle : IdCalls Nat := ⟨none, [.dropped, .dropped]⟩
  let kept : IdCalls Nat :=
    ⟨some (0, ⟨['A'], ['M']⟩), [.ended (.ok (0, ⟨['A'], ['M']⟩)), .dropped]⟩
  have hlooks : after (idStep Shipped.quietHost.toHost RuneHost.getCtx) empty [.look, .look] =
      (idle.advance 1 start).advance 0 start := rfl
  have hfirst := after_board (idle.advance 1 start) Nat.zero_lt_two ['A'] ['M'] (by decide) rfl
    (by decide)
  have hkept : (idle.advance 1 start).advance 0 (.inr (.ok ⟨['A'], ['M']⟩)) =
      kept.advance 1 start := rfl
  have hsecond := after_board kept Nat.one_lt_two ['B'] ['N'] (by decide) rfl (by decide)
  rw [overlapEvents, after_append, after_append, hlooks, hfirst, hkept, hsecond]
  rfl

theorem ids_belong_together_overlap :
    let state := after (idStep Shipped.quietHost.toHost RuneHost.getCtx) empty overlapEvents
    returned askBoth state 0 = some ['A'] ∧ returned askBoth state 1 = some ['N'] ∧
      ¬ BelongTogether askBoth state := by
  dsimp only
  rw [after_overlapEvents]
  refine ⟨rfl, rfl, fun h => ?_⟩
  obtain ⟨resolver, ids, hids, hall⟩ := h 0 _ rfl
  have hsystem : ['A'] = ids.system := hall 0 _ rfl
  have hmanager : ['N'] = ids.manager := hall 1 _ rfl
  match resolver, hids with
  | 0, hids => cases hids; cases hmanager
  | 1, hids => cases hids; cases hsystem

/-- One call from its look to its end. -/
def oneCall : List (UseEvent Wake) :=
  .look :: boardWakes 0 (shelfReply (some ([], boardListing ['A'])))
    (shelfReply (some ([], boardSystem ['M'])))

theorem after_oneCall : after (idStep Shipped.quietHost.toHost RuneHost.getCtx) empty oneCall =
    ⟨some (0, ⟨['A'], ['M']⟩), [.ended (.ok (0, ⟨['A'], ['M']⟩))]⟩ := by
  have hlook : after (idStep Shipped.quietHost.toHost RuneHost.getCtx) empty [.look] =
      (⟨none, [.dropped]⟩ : IdCalls Nat).advance 0
        (resolving Shipped.quietHost.toHost RuneHost.getCtx).start := rfl
  have hwakes := after_board ⟨none, [.dropped]⟩ Nat.one_pos ['A'] ['M'] (by decide) rfl
    (by decide)
  rw [oneCall, ← List.singleton_append, after_append, hlook, hwakes]
  rfl

/-- A handler that asks for the one id, and then for the other. -/
def turnEvents : List (UseEvent Wake) := oneCall ++ [.look]

/-- The second look finds the ids. -/
theorem not_overlaps_turnEvents : ∀ done event rest, turnEvents = done ++ event :: rest →
    ¬ Overlaps (after (idStep Shipped.quietHost.toHost RuneHost.getCtx) empty done) event := by
  have hwake : ∀ (state : IdCalls Nat) (answer : Wake), ¬ Overlaps state (.wake 0 answer) :=
    fun _ _ hoverlaps => nomatch hoverlaps.1
  have hfilled : ¬ Overlaps (after (idStep Shipped.quietHost.toHost RuneHost.getCtx) empty oneCall)
      (.look : UseEvent Wake) := by
    rintro ⟨_, hkept, _⟩
    rw [after_oneCall] at hkept
    cases hkept
  refine forall_splits_cons ?_ <| forall_splits_cons (hwake _ _) <|
    forall_splits_cons (hwake _ _) <| forall_splits_cons (hwake _ _) <|
    forall_splits_cons (hwake _ _) <| forall_splits_cons hfilled ?_
  · rintro ⟨_, _, call, task, htask⟩
    cases htask
  · intro done event rest hevents
    simp at hevents

theorem ids_belong_together_turn :
    let state := after (idStep Shipped.quietHost.toHost RuneHost.getCtx) empty turnEvents
    returned askBoth state 0 = some ['A'] ∧ returned askBoth state 1 = some ['M'] ∧
      BelongTogether askBoth state := by
  have hstate : after (idStep Shipped.quietHost.toHost RuneHost.getCtx) empty turnEvents =
      ⟨some (0, ⟨['A'], ['M']⟩), [.ended (.ok (0, ⟨['A'], ['M']⟩)),
        .ended (.ok (0, ⟨['A'], ['M']⟩))]⟩ := by
    rw [turnEvents, after_concat, after_oneCall]
    rfl
  refine ⟨?_, ?_, ids_belong_together (fun _ _ _ hevents =>
    not_late_of_in_turn not_overlaps_turnEvents hevents) askBoth (Visits.last turnEvents)⟩
  all_goals rw [hstate]; rfl

end RedfishProxy.Script
