import RedfishProxy.Shipped.Requests

/-!
# Requests in turn

A shipped script calls the store once at most, but for the `PATCH` of a system
whose `Boot` is an array: that one keeps an order for each entry that names one.
Requests of the first kind come to what they come to when they are served whole,
one after the other.

Main result:
* `in_turn`: every state of every run is that of the requests served in turn,
  and no request is put before one that was answered when it came.
-/

namespace RedfishProxy.Shipped

open Lib Http Config Script RuneHost ScriptUtil

section Orders

variable {ν σ : Type} {host : Rune ν σ}

/-- A member that is an order. -/
theorem orders_cons (member : Text × Json ν) (entries : List (Json ν)) :
    ({ readEntries entries with members := member :: (readEntries entries).members } :
      BootWrite ν).orders =
      if isOrder member.1 then member.2 :: (readEntries entries).orders
      else (readEntries entries).orders := by
  unfold BootWrite.orders
  rw [List.filterMap_cons]
  split <;> rename_i h <;> split at h <;> simp_all

/-- The fields of an object hold an order as often as they hold its name. -/
theorem length_orders_fields (fields : Json.Fields ν) :
    (readEntries (fields.map fun field => .array [.string field.1, field.2])).orders.length ≤
      (fields.map Prod.fst).count "BootOrder".toList := by
  induction fields with
  | nil => exact Nat.le_refl 0
  | cons field fields ih =>
      obtain ⟨name, value⟩ := field
      rw [List.map_cons, List.map_cons, List.count_cons]
      unfold readEntries
      split
      · exact Nat.zero_le _
      · exact ih.trans (Nat.le_add_right ..)
      · rename_i member hread
        have hname : member.1 = name := by
          cases value <;> simp [readEntry, entryAt, Json.asStr] at hread <;> simp [← hread]
        rw [orders_cons, hname]
        show _ ≤ _ + if isOrder name = true then 1 else 0
        by_cases horder : isOrder name = true
        · rw [if_pos horder, List.length_cons, if_pos horder]
          exact Nat.add_le_add_right ih 1
        · rw [if_neg horder]
          exact ih.trans (Nat.le_add_right ..)

/-- Only an array can hold two. -/
theorem length_orders_le {req : ScriptRequest}
    (harray : ∀ document items, bodyJson host.toHost req.body "request".toList = .ok document →
      valueAt document "Boot".toList ≠ some (.array items)) :
    (bootWrite host req).orders.length ≤ 1 := by
  unfold bootWrite
  split
  · split
    · exact Nat.zero_le 1
    · rename_i body hbody
      split
      · exact Nat.zero_le 1
      · rename_i boot hboot
        cases boot with
        | array items => exact absurd hboot (harray body items hbody)
        | object fields =>
            have hfits := (walk_fits (fits_of_bodyJson hbody) hboot).2
            -- the names of an object differ, so one of them is that of an order
            have hnodup : ((host.order fields).map Prod.fst).Nodup := by
              refine ((host.order_perm fields).map Prod.fst).nodup_iff.mpr ?_
              exact (List.pairwise_map.mpr hfits.sorted).imp fun hlt heq => by
                rw [heq] at hlt
                exact List.lt_irrefl _ hlt
            exact (length_orders_fields _).trans (List.nodup_iff_count_le_one.mp hnodup _)
        | null =>
            have hentries : entriesOf host .null = none ∨ entriesOf host .null = some [] := by
              unfold entriesOf
              cases host.unitLoops <;> simp
            rcases hentries with hentries | hentries <;> rw [hentries] <;> exact Nat.zero_le 1
        | bool _ => exact Nat.zero_le 1
        | number _ => exact Nat.zero_le 1
        | string _ => exact Nat.zero_le 1
  · exact Nat.zero_le 1

end Orders

/-- A request whose body, if it is the `PATCH` of a system, does not have an
array at `Boot`. -/
structure OneOrder {ν σ : Type} (host : Rune ν σ) (app : Proxy.AppState) extends Incoming where
  noArray : ∀ admitted, receive app toIncoming = .ok admitted → admitted.script = .systems →
    admitted.parts.method = .PATCH → ∀ document items,
      bodyJson host.toHost admitted.body "request".toList = .ok document →
        valueAt document "Boot".toList ≠ some (.array items)

section InTurn

variable {ν σ : Type} {host : Rune ν σ} {app : Proxy.AppState} {scriptDir : Text}

theorem storeCalls_le_one (incoming : OneOrder host app) {admitted : Admitted}
    (h : receive app incoming.toIncoming = .ok admitted) : (admitted.left host).calls ≤ 1 := by
  show admitted.script.storeCalls host admitted.req ≤ 1
  unfold ShippedScript.storeCalls
  split
  · rename_i hscript
    split
    -- the PATCH of a system is the only one that can have several
    · rename_i hpatch
      refine length_orders_le fun document items hdocument =>
        incoming.noArray admitted h hscript ?_ document items hdocument
      have hname : admitted.parts.method.name = "PATCH".toList := hpatch
      have hparse := Method.parse_name admitted.parts.method
      rw [hname] at hparse
      exact (Option.some.inj hparse).symm
    · exact Nat.le_refl 1
  all_goals first | exact Nat.le_refl 1 | exact Nat.zero_le 1

/-- A step of a request spends what it puts to the store. -/
theorem spends_of_allows {licence : Licence ν} {ctx : RequestCtx} {stage stage' : Stage}
    {question : Ask ν} (h : licence.Allows ctx stage question stage') :
    Dialogue.spends (storeShared host) stage.left.calls question stage'.left.calls := by
  cases h <;> rfl

variable (scriptDir) in
/-- A request of this kind, question by question. -/
def OneOrder.opening (incoming : OneOrder host app) : Dialogue (Ask ν) Ask.Answer Response :=
  Shipped.opening host app scriptDir incoming.toIncoming

/-- It puts one question to the store at most. -/
theorem atMost_opening (incoming : OneOrder host app) :
    (incoming.opening scriptDir).AtMost (storeShared host) 1 := by
  unfold OneOrder.opening Shipped.opening
  cases hreceive : receive app incoming.toIncoming with
  | error error => exact True.intro
  | ok admitted =>
      -- it has what its script may do, which is one call or none
      have hstage : (⟨admitted.left host, .fresh⟩ : Stage) ≤
          ⟨⟨1, (admitted.left host).acts⟩, .fresh⟩ :=
        ⟨rfl, storeCalls_le_one incoming hreceive, Nat.le_refl _⟩
      have hkeeps := (admitted.script.performs : admitted.script.Keeps host admitted.disk scriptDir
        (admitted.ctx app) admitted.req).keeps none _ hstage
      have hcalls := Dialogue.atMost_of_keeps (storeShared host) hkeeps
        (fun stage => stage.left.calls) fun _ _ _ => spends_of_allows
      exact Dialogue.Keeps.bind hcalls fun _ _ _ => True.intro

variable (app scriptDir) in
abbrev turnStep (host : Rune ν σ) :=
  Threads.step (storeShared host) fun incoming : OneOrder host app => incoming.opening scriptDir

/-- **Requests come to what they come to in turn.** At any point of any run the
store is what the requests that called it make of it, served whole and in the
order of their calls; every response is the one its request gets from the store
those before it leave; and a request that came after another was answered is
after it. -/
theorem in_turn {store : ScriptStore.Store (Json ν)}
    {events more : List (ThreadEvent (@Ask.Answer ν) (OneOrder host app))}
    {earlier pool : Threads (@Ask.Answer ν) (OneOrder host app) Response
      (ScriptStore.Store (Json ν))}
    (hearlier : Visits (turnStep app scriptDir host) (Threads.empty store) events earlier)
    (hpool : pool = after (turnStep app scriptDir host) earlier more) :
    Threads.Serial (storeShared host) (OneOrder.opening scriptDir) store pool ∧
      ∀ (first second : Nat) (response : Response), earlier.Ended first response →
        earlier.threads.length ≤ second → first ∈ pool.callers (storeShared host) →
        second ∈ pool.callers (storeShared host) →
        ∃ before between later, pool.callers (storeShared host) =
          before ++ first :: between ++ second :: later := by
  subst hpool
  refine ⟨?_, fun first second response hended hlate hfirst hsecond =>
    Threads.finished_before hearlier more hended hlate hfirst hsecond⟩
  obtain ⟨done, rest, hevents, rfl⟩ := hearlier
  have hvisits : Visits (turnStep app scriptDir host) (Threads.empty store) (done ++ more)
      (after (turnStep app scriptDir host) (Threads.empty store) (done ++ more)) :=
    Visits.last _
  rw [after_append] at hvisits
  exact Threads.serialised atMost_opening hvisits

end InTurn

/-- A change of the password, which is no `PATCH` of a system. -/
def changeInTurn : OneOrder quietHost passwordApp where
  toIncoming := passwordChange
  noArray := by
    intro admitted hreceive hscript
    rw [receive_passwordChange] at hreceive
    obtain rfl := Except.ok.inj hreceive
    cases hscript

def resetInTurn : OneOrder quietHost passwordApp where
  toIncoming := factoryReset
  noArray := by
    intro admitted hreceive hscript
    obtain rfl := Except.ok.inj hreceive
    cases hscript

abbrev TurnEvent : Type := ThreadEvent (@Ask.Answer Nat) (OneOrder quietHost passwordApp)

def turnArrivals : List TurnEvent := [.arrive changeInTurn, .arrive resetInTurn]

/-- The change comes first, and the reset is first at the store. -/
def turnsTaken : List TurnEvent :=
  [.go 0 nobody, .go 1 nobody, .go 1 nobody, .go 0 nobody]

theorem after_turnArrivals : ∃ record rest,
    after (turnStep passwordApp [] quietHost) (Threads.empty ScriptStore.new) turnArrivals =
      ⟨ScriptStore.new,
        [⟨changeInTurn, [], .ask (.log record) fun _ =>
          .ask (.call (.set uefiKey (.bool true))) rest⟩,
        ⟨resetInTurn, [], opening quietHost passwordApp [] factoryReset⟩], []⟩ := by
  obtain ⟨record, rest, hopening⟩ := opening_passwordChange
  refine ⟨record, rest, ?_⟩
  rw [← hopening]
  rfl

/-- The password is changed after the reset, in the order of their calls. -/
theorem in_turn_change :
    ∃ pool : Threads (@Ask.Answer Nat) (OneOrder quietHost passwordApp) Response
        (ScriptStore.Store (Json Nat)),
      Threads.Serial (storeShared quietHost) (OneOrder.opening []) ScriptStore.new pool ∧
        pool.callers (storeShared quietHost) = [1, 0] ∧
        pool.shared.entries.lookup uefiKey = some (.bool true) := by
  obtain ⟨record, rest, harrived⟩ := after_turnArrivals
  have hserial := (in_turn (Visits.last turnArrivals) (rfl : _ =
    after _ (after (turnStep passwordApp [] quietHost) (Threads.empty ScriptStore.new) turnArrivals)
      turnsTaken)).1
  rw [harrived] at hserial
  exact ⟨_, hserial, rfl, rfl⟩

end RedfishProxy.Shipped
