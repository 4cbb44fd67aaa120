import RedfishProxy.Lib.Moves
import RedfishProxy.Lib.Run
import RedfishProxy.Script.Probe
import RedfishProxy.Script.Shelf

/-!
# Which system and which manager

`resolve_ids` probes the listed systems for a `Bios`, the preferred one first.
`Resolution` says what came to pass when it succeeded: which system was taken,
what was fetched before it, and where the manager is from.
-/

namespace RedfishProxy.Script

open Lib Http

section Resolution

variable {ν V σ : Type} (host : Host ν V σ) (ctx : RequestCtx)

def systemPath (id : Text) : Text := "/redfish/v1/Systems/".toList ++ id

/-- `System_0` if it is listed, and otherwise the first. -/
structure IsPreferred (listed : List Text) (preferred : Text) : Prop where
  system0 : "System_0".toList ∈ listed → preferred = "System_0".toList
  first : "System_0".toList ∉ listed → listed.head? = some preferred

/-- The preferred system, then the others as they are listed. -/
def probeOrder (listed : List Text) (preferred : Text) : List Text :=
  preferred :: listed.filter (· != preferred)

/-- The systems were fetched one after the other, and none came with a `Bios`. -/
inductive Passed : List Text → World σ → World σ → Prop where
  | nil (world : World σ) : Passed [] world world
  | cons {id : Text} {ids : List Text} {world next last : World σ}
      (hfetch : (exec (getJson host ctx (systemPath id)) world).2 = next)
      (hnone : ∀ system, (exec (getJson host ctx (systemPath id)) world).1 = .ok system →
        system.get "Bios".toList = none)
      (hrest : Passed ids next last) : Passed (id :: ids) world last

/-- The system's first `ManagedBy` link names the manager. -/
def NamesManager (system : Json ν) (manager : Text) : Prop :=
  ∃ first rest link,
    (system.index "Links".toList).index "ManagedBy".toList = .array (first :: rest) ∧
      first.index "@odata.id".toList = .string link ∧ lastSegment link = some manager

/-- The manager was listed first. -/
def FirstListed (world : World σ) (manager : Text) (last : World σ) : Prop :=
  ∃ listing, exec (getJson host ctx "/redfish/v1/Managers".toList) world = (.ok listing, last) ∧
    (memberIds listing).head? = some manager

/-- The manager the system names, or else the first one listed. -/
def IsManager (system : Option (Json ν)) (world : World σ) (manager : Text) (last : World σ) :
    Prop :=
  (∃ document, system = some document ∧ NamesManager document manager ∧ last = world) ∨
    (∀ document, system = some document → ∀ other, ¬ NamesManager document other) ∧
      FirstListed host ctx world manager last

/-- What came to pass when the ids were resolved. -/
inductive Resolution (start : World σ) (ids : Ids) (last : World σ) : Prop where
  /-- A system with a `Bios`, after others without. -/
  | bios {listing document : Json ν} {preferred : Text} {before after : List Text}
      {listed passed fetched finished : World σ}
      (hlisting : exec (getJson host ctx "/redfish/v1/Systems".toList) start =
        (.ok listing, listed))
      (hpreferred : IsPreferred (memberIds listing) preferred)
      (horder : probeOrder (memberIds listing) preferred = before ++ ids.system :: after)
      (hpassed : Passed host ctx before listed passed)
      (hfetched : exec (getJson host ctx (systemPath ids.system)) passed =
        (.ok document, fetched))
      (hbios : (document.get "Bios".toList).isSome)
      (hmanager : IsManager host ctx (some document) fetched ids.manager finished)
      (hlast : last = { finished with ids := some ids })
  /-- The preferred one, where none has a `Bios`. -/
  | fallback {listing : Json ν} {listed passed finished : World σ}
      (hlisting : exec (getJson host ctx "/redfish/v1/Systems".toList) start =
        (.ok listing, listed))
      (hpreferred : IsPreferred (memberIds listing) ids.system)
      (hpassed : Passed host ctx (probeOrder (memberIds listing) ids.system) listed passed)
      (hmanager : IsManager host ctx none passed ids.manager finished)
      (hlast : last = { finished with ids := some ids })

variable {host ctx}

/-! ## The parts -/

theorem managedBy_eq_some_iff {system : Json ν} {manager : Text} :
    managedBy system = some manager ↔ NamesManager system manager := by
  unfold managedBy NamesManager
  generalize (system.index "Links".toList).index "ManagedBy".toList = managers
  constructor
  · intro h
    obtain ⟨items, hitems, hrest⟩ := Option.bind_eq_some_iff.mp h
    obtain ⟨first, hfirst, hrest⟩ := Option.bind_eq_some_iff.mp hrest
    obtain ⟨link, hlink, hlast⟩ := Option.bind_eq_some_iff.mp hrest
    cases managers with
    | array managers =>
        cases hitems
        obtain ⟨rest, rfl⟩ := List.head?_eq_some_iff.mp hfirst
        cases hid : first.index "@odata.id".toList with
        | string text =>
            rw [hid] at hlink
            cases hlink
            exact ⟨first, rest, link, rfl, hid, hlast⟩
        | _ =>
            rw [hid] at hlink
            cases hlink
    | _ => cases hitems
  · rintro ⟨first, rest, link, rfl, hid, hlast⟩
    show (first.index "@odata.id".toList).asStr.bind lastSegment = _
    rw [hid]
    exact hlast

theorem isPreferred_of_find {listed : List Text} {preferred : Text}
    (h : (listed.find? (· == "System_0".toList)).or listed.head? = some preferred) :
    IsPreferred listed preferred := by
  cases hfind : listed.find? (· == "System_0".toList) with
  | some found =>
      rw [hfind] at h
      cases h
      have hfound : preferred = "System_0".toList := by simpa using List.find?_some hfind
      exact ⟨fun _ => hfound, fun hnot => absurd (hfound ▸ List.mem_of_find?_eq_some hfind) hnot⟩
  | none =>
      rw [hfind, Option.none_or] at h
      have hnot : "System_0".toList ∉ listed := by
        intro hmem
        have := List.find?_eq_none.mp hfind _ hmem
        simp at this
      exact ⟨fun hmem => absurd hmem hnot, fun _ => h⟩

variable (host ctx) in
/-- How the probing of the systems ends: none has a `Bios`, or this one has. -/
inductive Probed (ids : List Text) (world : World σ) :
    Option (Text × Json ν) → World σ → Prop where
  | missed {last : World σ} (hpassed : Passed host ctx ids world last) : Probed ids world none last
  | bios {before after : List Text} {id : Text} {document : Json ν} {passed last : World σ}
      (hids : ids = before ++ id :: after) (hpassed : Passed host ctx before world passed)
      (hget : exec (getJson host ctx (systemPath id)) passed = (.ok document, last))
      (hbios : (document.get "Bios".toList).isSome) : Probed ids world (some (id, document)) last

theorem Probed.cons {id : Text} {ids : List Text} {world next last : World σ}
    {found : Option (Text × Json ν)}
    (hfetch : (exec (getJson host ctx (systemPath id)) world).2 = next)
    (hnone : ∀ system, (exec (getJson host ctx (systemPath id)) world).1 = .ok system →
      system.get "Bios".toList = none)
    (h : Probed host ctx ids next found last) : Probed host ctx (id :: ids) world found last := by
  cases h with
  | missed hpassed => exact .missed (.cons hfetch hnone hpassed)
  | bios hids hpassed hget hbios =>
      exact .bios (by rw [hids, List.cons_append]) (.cons hfetch hnone hpassed) hget hbios

/-- The probing always ends. -/
theorem exec_findBios (ids : List Text) (world : World σ) :
    ∃ found last, exec (findBios host ctx ids) world = (.ok found, last) ∧
      Probed host ctx ids world found last := by
  induction ids generalizing world with
  | nil => exact ⟨none, world, rfl, .missed (.nil world)⟩
  | cons id ids ih =>
      rw [findBios, exec_bind]
      show ∃ found last,
        thenExec _ (exec (attempt (getJson host ctx (systemPath id))) world) = _ ∧ _
      rw [exec_attempt, thenExec_ok]
      cases hget : exec (getJson host ctx (systemPath id)) world with
      | mk result next =>
          obtain ⟨found, last, hrun, hprobed⟩ := ih next
          cases result with
          | error fault =>
              refine ⟨found, last, hrun, hprobed.cons (by rw [hget]) ?_⟩
              intro system hsystem
              rw [hget] at hsystem
              cases hsystem
          | ok system =>
              dsimp only
              split_ifs with hbios
              · exact ⟨some (id, system), next, rfl, .bios rfl (.nil world) hget hbios⟩
              · refine ⟨found, last, hrun, hprobed.cons (by rw [hget]) ?_⟩
                rw [hget]
                rintro _ ⟨⟩
                simpa using hbios

/-- The manager that the tree comes to, from the system it was given. -/
theorem isManager_of_probe {found : Option (Text × Json ν)} {system : Text} {ids : Ids}
    {world last : World σ}
    (h : exec ((probeManager system (found.bind fun pair => managedBy pair.2)).run host ctx) world =
      (.ok ids, last)) :
    ids.system = system ∧ IsManager host ctx (found.map Prod.snd) world ids.manager last := by
  cases hnamed : found.bind fun pair => managedBy pair.2 with
  | some manager =>
      rw [hnamed] at h
      cases h
      obtain ⟨⟨id, document⟩, rfl, hnames⟩ := Option.bind_eq_some_iff.mp hnamed
      exact ⟨rfl, .inl ⟨document, rfl, managedBy_eq_some_iff.mp hnames, rfl⟩⟩
  | none =>
      rw [hnamed, probeManager, exec_run_get] at h
      cases hmanagers : exec (getJson host ctx "/redfish/v1/Managers".toList) world with
      | mk result next =>
          rw [hmanagers] at h
          cases result with
          | error fault => cases h
          | ok managers =>
              dsimp only at h
              split at h
              · rename_i manager hfirst
                cases h
                refine ⟨rfl, .inr ⟨?_, managers, hmanagers, hfirst⟩⟩
                intro document hdocument other hnames
                obtain ⟨⟨id, system⟩, rfl, rfl⟩ := Option.map_eq_some_iff.mp hdocument
                have hnone : managedBy system = none := hnamed
                rw [managedBy_eq_some_iff.mpr hnames] at hnone
                cases hnone
              · cases h

/-- A call keeps what its tree comes to. -/
theorem exists_resolved {start last : World σ} (hfresh : start.ids = none) {ids : Ids}
    (h : exec (resolveIds host ctx) start = (.ok ids, last)) :
    ∃ finished, exec ((resolveProbe (ν := ν)).run host ctx) start = (.ok ids, finished) ∧
      last = { finished with ids := some ids } := by
  rw [exec_resolveIds, hfresh] at h
  dsimp only at h
  cases hrun : exec ((resolveProbe (ν := ν)).run host ctx) start with
  | mk result finished =>
      rw [hrun] at h
      cases result with
      | error fault => cases h
      | ok found =>
          cases h
          exact ⟨finished, rfl, rfl⟩

/-- **A call that resolves the ids** resolves them so. -/
theorem resolution_of_resolveIds {start last : World σ} (hfresh : start.ids = none) {ids : Ids}
    (h : exec (resolveIds host ctx) start = (.ok ids, last)) :
    Resolution host ctx start ids last := by
  obtain ⟨finished, hrun, hlast⟩ := exists_resolved hfresh h
  rw [resolveProbe, exec_run_get] at hrun
  cases hlisting : exec (getJson host ctx "/redfish/v1/Systems".toList) start with
  | mk result listed =>
      rw [hlisting] at hrun
      cases result with
      | error fault => cases hrun
      | ok listing =>
          dsimp only at hrun
          split at hrun
          · cases hrun
          · rename_i preferred hfind
            have hpreferred := isPreferred_of_find hfind
            obtain ⟨found, probed, hfound, hprobed⟩ :=
              exec_findBios (probeOrder (memberIds listing) preferred) listed
            rw [probeOrder] at hfound
            rw [exec_probeBios, exec_bind, hfound, thenExec_ok] at hrun
            obtain ⟨hsystem, hmanager⟩ := isManager_of_probe hrun
            cases hprobed with
            | missed hpassed =>
                obtain rfl : ids.system = preferred := hsystem
                exact .fallback hlisting hpreferred hpassed hmanager hlast
            | bios hids hpassed hget hbios =>
                obtain rfl := hsystem
                exact .bios hlisting hpreferred hids hpassed hget hbios hmanager hlast

theorem Passed.without {ids : List Text} {world last : World σ}
    (h : Passed host ctx ids world last) {id : Text} (hid : id ∈ ids) :
    ∃ before after turn, ids = before ++ id :: after ∧ Passed host ctx before world turn ∧
      ∀ system, (exec (getJson host ctx (systemPath id)) turn).1 = .ok system →
        system.get "Bios".toList = none := by
  induction h with
  | nil => cases hid
  | cons hfetch hnone _ ih =>
      rcases List.mem_cons.mp hid with rfl | hid
      · exact ⟨[], _, _, rfl, .nil _, hnone⟩
      · obtain ⟨before, after, turn, rfl, hpassed, hwithout⟩ := ih hid
        exact ⟨_ :: before, after, turn, rfl, .cons hfetch hnone hpassed, hwithout⟩

theorem mem_probeOrder {listed : List Text} (preferred : Text) {id : Text} (h : id ∈ listed) :
    id ∈ probeOrder listed preferred := by
  by_cases heq : id = preferred
  · rw [heq]
    exact List.mem_cons_self
  · refine List.mem_cons_of_mem _ (List.mem_filter.mpr ⟨h, ?_⟩)
    simpa using heq

variable (host ctx) in
/-- A system without a `Bios` is taken only where every listed one, in its turn,
could not be fetched with one. -/
def NeverWithout (start : World σ) (ids : Ids) : Prop :=
  (∃ turn document fetched,
    exec (getJson host ctx (systemPath ids.system)) turn = (.ok document, fetched) ∧
      (document.get "Bios".toList).isSome) ∨
  ∃ listing listed,
    exec (getJson host ctx "/redfish/v1/Systems".toList) start = (.ok listing, listed) ∧
      ∀ id ∈ memberIds listing, ∃ before after turn,
        probeOrder (memberIds listing) ids.system = before ++ id :: after ∧
          Passed host ctx before listed turn ∧
          ∀ system, (exec (getJson host ctx (systemPath id)) turn).1 = .ok system →
            system.get "Bios".toList = none

theorem Resolution.neverWithout {start last : World σ} {ids : Ids}
    (h : Resolution host ctx start ids last) : NeverWithout host ctx start ids := by
  cases h with
  | bios _ _ _ _ hfetched hbios _ _ => exact .inl ⟨_, _, _, hfetched, hbios⟩
  | fallback hlisting _ hpassed _ _ =>
      refine .inr ⟨_, _, hlisting, fun id hid => ?_⟩
      exact hpassed.without (mem_probeOrder ids.system hid)

/-! ## The calls of a handler -/

/-- The ids that are kept stay as they are. -/
def KeepsIds (world world' : World σ) : Prop := world'.ids = world.ids

instance : Std.Refl (KeepsIds (σ := σ)) := ⟨fun _ => rfl⟩

instance : IsTrans (World σ) KeepsIds := ⟨fun _ _ _ h h' => h'.trans h⟩

section Calls

variable (host ctx)

theorem dispatched_keepsIds (request : BmcRequest) :
    Moves KeepsIds (dispatched host ctx request) := by
  intro world
  cases hsend : dispatch ctx request with
  | error fault =>
      rw [exec_dispatched_error _ world hsend]
      exact Std.Refl.refl world
  | ok outbound =>
      rw [exec_dispatched _ world hsend]
      exact rfl

theorem sendRequest_keepsIds (request : BmcRequest) :
    Moves KeepsIds (sendRequest host ctx request) :=
  (dispatched_keepsIds host ctx request).bind fun _ => (Moves.fromResult _).bind fun _ => .pure _

theorem sendForwarded_keepsIds (request : BmcRequest) :
    Moves KeepsIds (sendForwarded host ctx request) :=
  (dispatched_keepsIds host ctx request).bind fun _ => .fromResult _

theorem forwarded_keepsIds : Moves KeepsIds (forwarded host ctx) := by
  intro world
  rw [exec_forwarded]
  exact rfl

theorem subrequestWith_keepsIds (method path : Text) (body : V) :
    Moves KeepsIds (subrequestWith host ctx method path body) :=
  (Moves.fromResult _).bind fun _ => sendRequest_keepsIds host ctx _

theorem getJson_keepsIds (path : Text) : Moves KeepsIds (getJson host ctx path) :=
  fun world => ids_getJson host path world

theorem expandMember_keepsIds (path : Text) (member : Json ν) :
    Moves KeepsIds (expandMember host ctx path member) := by
  unfold expandMember
  split
  · exact .throw _
  · exact (Moves.fromResult _).bind fun link => getJson_keepsIds host ctx link

theorem expandCollection_keepsIds (path : Text) :
    Moves KeepsIds (expandCollection host ctx path) := by
  refine (Moves.fromResult _).bind fun _ => (getJson_keepsIds host ctx _).bind fun collection => ?_
  refine .ite (.fromResult _) (Moves.bind ?_ fun expanded => .fromResult _)
  exact .mapM _ fun member _ => expandMember_keepsIds host ctx path member

theorem expandOrEmpty_keepsIds (path name : Text) :
    Moves KeepsIds (expandOrEmpty host ctx path name) := by
  refine (expandCollection_keepsIds host ctx path).attempt.bind fun outcome => ?_
  cases outcome with
  | ok collection => exact .pure collection
  | error fault => exact .fromResult _

theorem run_keepsIds {α : Type} (probe : Probe ν α) : Moves KeepsIds (probe.run host ctx) := by
  induction probe with
  | done outcome => exact .fromResult outcome
  | get path next ih => exact (getJson_keepsIds host ctx path).attempt.bind fun outcome => ih outcome

/-- Only a call that resolves them writes the ids, and only where there are none. -/
theorem ids_resolveIds (world : World σ) :
    (exec (resolveIds host ctx) world).2.ids = world.ids ∨
      world.ids = none ∧ ∃ ids last, exec (resolveIds host ctx) world = (.ok ids, last) ∧
        last.ids = some ids := by
  rw [exec_resolveIds]
  cases hids : world.ids with
  | some ids => exact .inl hids
  | none =>
      dsimp only
      have hsame := run_keepsIds host ctx (resolveProbe (ν := ν)) world
      cases hrun : exec ((resolveProbe (ν := ν)).run host ctx) world with
      | mk result next =>
          rw [hrun] at hsame
          cases result with
          | error fault => exact .inl (hsame.trans hids)
          | ok ids => exact .inr ⟨rfl, ids, { next with ids := some ids }, rfl, rfl⟩

/-- One call of a handler, as what it does to the world. -/
def callStep (world : World σ) (call : Call V) : World σ := (exec (runCall host ctx call) world).2

/-- What a call may do to the ids. -/
def Kept (world world' : World σ) : Prop :=
  world'.ids = world.ids ∨
    world.ids = none ∧ ∃ ids, world'.ids = some ids ∧ Resolution host ctx world ids world'

theorem kept_resolveIds (f : Ids → Answer V) (world : World σ) :
    Kept host ctx world (exec (f <$> resolveIds host ctx) world).2 := by
  rw [exec_map]
  rcases ids_resolveIds host ctx world with hsame | ⟨hfresh, ids, last, hrun, hlast⟩
  · exact .inl hsame
  · rw [hrun]
    exact .inr ⟨hfresh, ids, hlast, resolution_of_resolveIds hfresh hrun⟩

theorem kept_callStep (world : World σ) (call : Call V) :
    Kept host ctx world (callStep host ctx world call) := by
  have hresult : ∀ {α : Type} (f : α → Answer V) (result : Except Fault α),
      Kept host ctx world (exec (f <$> (fromResult result : Action σ α)) world).2 :=
    fun f result => .inl ((Moves.fromResult (R := KeepsIds) result).map f world)
  cases call with
  | requestJson => exact hresult ..
  | requestText => exact hresult ..
  | request method path => exact hresult ..
  | json request value => exact hresult ..
  | base64 request body => exact hresult ..
  | path request value => exact hresult ..
  | header request name value => exact hresult ..
  | send request => exact .inl ((sendRequest_keepsIds host ctx request).map _ world)
  | forward => exact .inl ((forwarded_keepsIds host ctx).map _ world)
  | forwardWith request => exact .inl ((sendForwarded_keepsIds host ctx request).map _ world)
  | forwardedJson forwarded => exact hresult ..
  | forwardedText forwarded => exact hresult ..
  | buffer forwarded => exact hresult ..
  | rewrite forwarded => exact hresult ..
  | log forwarded level => exact hresult ..
  | responseJson response => exact hresult ..
  | responseText response => exact hresult ..
  | get path => exact .inl ((sendRequest_keepsIds host ctx _).map _ world)
  | delete path => exact .inl ((sendRequest_keepsIds host ctx _).map _ world)
  | post path body => exact .inl ((subrequestWith_keepsIds host ctx _ path body).map _ world)
  | patch path body => exact .inl ((subrequestWith_keepsIds host ctx _ path body).map _ world)
  | put path body => exact .inl ((subrequestWith_keepsIds host ctx _ path body).map _ world)
  | expandCollection path => exact .inl ((expandCollection_keepsIds host ctx path).map _ world)
  | expandOrEmpty path name => exact .inl ((expandOrEmpty_keepsIds host ctx path name).map _ world)
  | sleep millis => exact hresult ..
  | systemId => exact kept_resolveIds host ctx _ world
  | managerId => exact kept_resolveIds host ctx _ world
  | pathOf id => exact hresult ..

/-- The ids a run of calls has kept were resolved by one of them. -/
theorem resolved_of_run (net : σ) (calls : List (Call V)) {ids : Ids}
    (h : (after (callStep host ctx) ⟨none, net⟩ calls).ids = some ids) :
    ∃ done rest last, calls = done ++ rest ∧
      Resolution host ctx (after (callStep host ctx) ⟨none, net⟩ done) ids last := by
  induction calls using List.reverseRecOn with
  | nil => cases h
  | append_singleton calls call ih =>
      rw [after_concat] at h
      rcases kept_callStep host ctx (after (callStep host ctx) ⟨none, net⟩ calls) call with
        hsame | ⟨_, ids', hids, hresolution⟩
      · obtain ⟨done, rest, last, rfl, hresolution⟩ := ih (hsame.symm.trans h)
        exact ⟨done, rest ++ [call], last, by rw [List.append_assoc], hresolution⟩
      · obtain rfl : ids' = ids := Option.some.inj (hids.symm.trans h)
        exact ⟨calls, [call], _, rfl, hresolution⟩

/-- **The resolved system is the one that carries a `Bios`.** Whatever calls a
handler made before, the ids a call comes to are those of a resolution made by
it or by one of them. -/
theorem resolved_system (net : σ) (calls : List (Call V)) {ids : Ids} {last : World σ}
    (h : exec (resolveIds host ctx) (after (callStep host ctx) ⟨none, net⟩ calls) =
      (.ok ids, last)) :
    ∃ done rest start last', calls = done ++ rest ∧
      start = after (callStep host ctx) ⟨none, net⟩ done ∧
      Resolution host ctx start ids last' ∧ NeverWithout host ctx start ids := by
  have hresolution : ∃ done rest last', calls = done ++ rest ∧
      Resolution host ctx (after (callStep host ctx) ⟨none, net⟩ done) ids last' := by
    cases hids : (after (callStep host ctx) ⟨none, net⟩ calls).ids with
    | none =>
        exact ⟨calls, [], last, by rw [List.append_nil], resolution_of_resolveIds hids h⟩
    | some kept =>
        rw [exec_resolveIds, hids] at h
        cases h
        exact resolved_of_run host ctx net calls hids
  obtain ⟨done, rest, last', hcalls, hresolution⟩ := hresolution
  exact ⟨done, rest, _, last', hcalls, rfl, hresolution, hresolution.neverWithout⟩

end Calls

end Resolution

/-! ## An auxiliary board in front -/

def boardsListing : Json Nat :=
  .object [("Members".toList, .array [
    .object [("@odata.id".toList, .string "/redfish/v1/Systems/Aux".toList)],
    .object [("@odata.id".toList, .string "/redfish/v1/Systems/Main".toList)]])]

/-- A board with a `Bios`, managed by this one. -/
def boardSystem (manager : Text) : Json Nat :=
  .object [("Bios".toList, .null), ("Links".toList, .object [("ManagedBy".toList, .array [
    .object [("@odata.id".toList, .string ("/redfish/v1/Managers/".toList ++ manager))]])])]

/-- The board that is listed first answers nothing. -/
def boardsShelf : List (Text × Json Nat) :=
  [("/redfish/v1/Systems".toList, boardsListing),
    (systemPath "Main".toList, boardSystem "BMC/".toList)]

theorem fits_idLink (id : Text) :
    Json.Fits 1 (.object [("@odata.id".toList, .string id)] : Json Nat) :=
  (Json.Fits.string id).one_field _

theorem fits_boardsListing : Json.Fits Shipped.serdeLimit boardsListing := by
  have hfits : Json.Fits 3 boardsListing := by
    refine Json.Fits.one_field (.array ?_) _
    simp only [List.forall_mem_cons]
    exact ⟨fits_idLink _, fits_idLink _, nofun⟩
  exact hfits.mono (by decide)

theorem fits_boardSystem (manager : Text) :
    Json.Fits Shipped.serdeLimit (boardSystem manager) := by
  have hkeys : ["Bios".toList, "Links".toList].Pairwise (· < ·) := by decide
  have hmanagers : Json.Fits 2 (.array [.object [("@odata.id".toList,
      .string ("/redfish/v1/Managers/".toList ++ manager))]] : Json Nat) := (fits_idLink _).one_item
  have hfits : Json.Fits 4 (boardSystem manager) := by
    refine .object (List.pairwise_map.mp hkeys) ?_
    simp only [List.forall_mem_cons]
    exact ⟨.null, hmanagers.one_field _, nofun⟩
  exact hfits.mono (by decide)

def boardsHost : Host Nat (Json Nat) Unit := shelfHost RuneHost.getCtx.target boardsShelf

def boardsIds : Ids := ⟨"Main".toList, "BMC".toList⟩

theorem exec_resolveIds_boards : exec (resolveIds boardsHost RuneHost.getCtx) ⟨none, ()⟩ =
    (.ok boardsIds, ⟨some boardsIds, ()⟩) := by
  have hlisting : exec (getJson boardsHost RuneHost.getCtx "/redfish/v1/Systems".toList)
      ⟨none, ()⟩ = (.ok boardsListing, ⟨none, ()⟩) :=
    exec_getJson_shelfHost rfl rfl fits_boardsListing _
  obtain ⟨fault, haux⟩ : ∃ fault,
      exec (getJson boardsHost RuneHost.getCtx (systemPath "Aux".toList)) ⟨none, ()⟩ =
        (.error fault, ⟨none, ()⟩) := exec_getJson_missing rfl rfl _
  have hmain : exec (getJson boardsHost RuneHost.getCtx (systemPath "Main".toList)) ⟨none, ()⟩ =
      (.ok (boardSystem "BMC/".toList), ⟨none, ()⟩) :=
    exec_getJson_shelfHost rfl rfl (fits_boardSystem _) _
  have hlisted : memberIds boardsListing = ["Aux".toList, "Main".toList] := by decide
  have hpreferred : (["Aux".toList, "Main".toList].find? (· == "System_0".toList)).or
      ["Aux".toList, "Main".toList].head? = some "Aux".toList := by decide
  have horder : ["Aux".toList, "Main".toList].filter (· != "Aux".toList) = ["Main".toList] := by
    decide
  rw [exec_resolveIds]
  dsimp only
  rw [resolveProbe, exec_run_get, hlisting]
  simp only [hlisted, hpreferred, horder]
  have hnamed : managedBy (boardSystem "BMC/".toList) = some "BMC".toList := by decide
  have hbios : ((boardSystem "BMC/".toList).get "Bios".toList).isSome = true := by decide
  rw [probeBios, exec_run_get, show "/redfish/v1/Systems/".toList ++ "Aux".toList =
    systemPath "Aux".toList from rfl, haux]
  dsimp only
  rw [probeBios, exec_run_get, show "/redfish/v1/Systems/".toList ++ "Main".toList =
    systemPath "Main".toList from rfl, hmain]
  simp only [hbios, if_true, Option.map_some, Option.getD_some, Option.bind_some, hnamed]
  rfl

theorem resolved_system_main :
    ∃ done rest start last', ([] : List (Call (Json Nat))) = done ++ rest ∧
      start = after (callStep boardsHost RuneHost.getCtx) ⟨none, ()⟩ done ∧
      Resolution boardsHost RuneHost.getCtx start boardsIds last' ∧
      NeverWithout boardsHost RuneHost.getCtx start boardsIds :=
  resolved_system boardsHost RuneHost.getCtx () [] exec_resolveIds_boards

end RedfishProxy.Script
