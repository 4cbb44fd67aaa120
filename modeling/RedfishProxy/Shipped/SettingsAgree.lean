import RedfishProxy.Shipped.BootOrder
import RedfishProxy.Shipped.Recorded

/-!
# The settings and the system

Two scripts answer for one machine. Only `systems.rn` reads and writes the
order of the store, so the two agree where the order is the stub and where a
`PATCH` keeps nothing new.

Main results:
* `sameEffect_iff`: when a `PATCH` does the same to both.
* `settings_agree`: the two over whole runs.
-/

namespace RedfishProxy.Shipped

open Lib Http Script RuneHost ScriptUtil
open ScriptStore (Store)

section Agree

variable {ν σ : Type} (host : Rune ν σ) (target : SocketAddrV4) (base : Base)

/-- The same request, at another path. -/
def Arrival.moved (arrival : Arrival) (uri : Uri) : Arrival :=
  { arrival with parts := { arrival.parts with uri } }

/-- The same is stored, relayed and answered. -/
structure SameEffect (one other : Response × Machine ν (σ × List Exchanged)) : Prop where
  stored : ∀ key, one.2.store.entries.lookup key = other.2.store.entries.lookup key
  relayed : one.2.world.net = other.2.world.net
  answered : one.1.status = other.1.status

/-- No order is kept but the one that is held, and none is refused by the store
unless the body stops the loop in any case. -/
structure WritesAlike (system : Text) (arrival : Arrival) (store : Store (Json ν)) : Prop where
  nothingNew : KeepsNothingNew host system arrival store
  noneRefused : (arrival.bootWrite host).ended = .ok () →
    ∀ order ∈ (arrival.bootWrite host).orders, storable host store (orderKey system) order = true

variable {host target base}

theorem bootWrite_moved (arrival : Arrival) (uri : Uri) :
    (arrival.moved uri).bootWrite host = arrival.bootWrite host := rfl

theorem bootWrite_recorded (arrival : Arrival) :
    arrival.bootWrite host.recorded = arrival.bootWrite host := by
  unfold Arrival.bootWrite bootWrite
  rfl

theorem serde_recorded : host.recorded.serde = host.serde := rfl

theorem storable_recorded (store : Store (Json ν)) (key : Text) (value : Json ν) :
    storable host.recorded store key value = storable host store key value := by
  unfold storable
  rw [serde_recorded]

theorem keepsNothingNew_recorded (system : Text) (arrival : Arrival) (store : Store (Json ν)) :
    KeepsNothingNew host.recorded system arrival store ↔
      KeepsNothingNew host system arrival store := by
  unfold KeepsNothingNew keptValue
  rw [bootWrite_recorded, funext (storable_recorded store (orderKey system))]

/-- The path is no part of what a boot write comes to. -/
theorem bootStatus_moved (arrival : Arrival) (uri : Uri) (system : Text) (taken : Taken ν)
    (net : σ) : bootStatus host ((arrival.moved uri).ctx target base) system taken net =
      bootStatus host (arrival.ctx target base) system taken net := rfl

theorem bootNet_moved (arrival : Arrival) (uri : Uri) (system : Text) (taken : Taken ν)
    (net : σ) : bootNet host ((arrival.moved uri).ctx target base) system taken net =
      bootNet host (arrival.ctx target base) system taken net := rfl

variable (host) in
/-- What is relayed is remembered, and what is not is answered with a 204. -/
theorem bootStatus_ne_or (ctx : RequestCtx) (system : Text) (taken : Taken ν)
    (net : σ × List Exchanged) : bootStatus host.recorded ctx system taken net ≠ 502 ∨
      bootNet host.recorded ctx system taken net ≠ net := by
  unfold bootStatus bootNet
  split
  · exact .inl (by decide)
  · refine .inr ?_
    intro heq
    have hlength := congrArg (fun net => net.2.length) heq
    simp only [client_recorded, List.length_append, List.length_singleton] at hlength
    omega

variable (host target base) in
/-- What a `PATCH` comes to, at the settings. -/
theorem serveSettings_patch {system : Text} {arrival : Arrival}
    (hpath : segment arrival.parts.uri.path 4 = some system)
    (hmethod : arrival.parts.method = .PATCH) (store : Store (Json ν)) (net : σ) :
    (serveSettings host target base arrival store net).2.store = store ∧
      (((arrival.bootWrite host).ended = .ok () ∧
          (serveSettings host target base arrival store net).1.status =
            bootStatus host (arrival.ctx target base) system (arrival.bootWrite host).taken net ∧
          (serveSettings host target base arrival store net).2.world.net =
            bootNet host (arrival.ctx target base) system (arrival.bootWrite host).taken net) ∨
        ((arrival.bootWrite host).ended ≠ .ok () ∧
          (serveSettings host target base arrival store net).1.status = 502 ∧
          (serveSettings host target base arrival store net).2.world.net = net)) := by
  have hwrite : isWrite (scriptRequest arrival.parts arrival.body) = true := by
    unfold isWrite scriptRequest
    rw [hmethod]
    rfl
  rw [serveSettings_eq hpath]
  simp only [hwrite, if_true]
  exact exec_patchSettings (arrival.ctx target base) system
    (scriptRequest arrival.parts arrival.body) (opened (arrival.ctx target base) store net)

variable (host target base) in
/-- And at the system. -/
theorem serveSystem_patch_run {system : Text} {arrival : Arrival}
    (h : PatchesSystem system arrival) (store : Store (Json ν)) (net : σ) :
    (serveSystem host target base arrival store net).2.store =
        (keepAll host (orderKey system) (arrival.bootWrite host).orders store).2 ∧
      (((∀ order ∈ (arrival.bootWrite host).orders,
            storable host store (orderKey system) order = true) ∧
          (arrival.bootWrite host).ended = .ok () ∧
          (serveSystem host target base arrival store net).1.status =
            bootStatus host (arrival.ctx target base) system (arrival.bootWrite host).taken net ∧
          (serveSystem host target base arrival store net).2.world.net =
            bootNet host (arrival.ctx target base) system (arrival.bootWrite host).taken net) ∨
        (¬ ((∀ order ∈ (arrival.bootWrite host).orders,
              storable host store (orderKey system) order = true) ∧
            (arrival.bootWrite host).ended = .ok ()) ∧
          (serveSystem host target base arrival store net).1.status = 502 ∧
          (serveSystem host target base arrival store net).2.world.net = net)) := by
  rw [serveSystem_patch h, ← keepAll_ok_iff]
  exact exec_patchSystem (arrival.ctx target base) system
    (scriptRequest arrival.parts arrival.body) (opened (arrival.ctx target base) store net)

/-- **A `PATCH` has the same effect on both exactly when no new order is kept, and
none refused.** -/
theorem sameEffect_iff {system : Text} {arrival : Arrival} {uri : Uri}
    (h : PatchesSystem system arrival) (huri : segment uri.path 4 = some system)
    (store : Store (Json ν)) (net : σ × List Exchanged) :
    SameEffect (serveSystem host.recorded target base arrival store net)
        (serveSettings host.recorded target base (arrival.moved uri) store net) ↔
      WritesAlike host system arrival store := by
  obtain ⟨hstore, hrun⟩ := serveSystem_patch_run host.recorded target base h store net
  have hmoved : segment (arrival.moved uri).parts.uri.path 4 = some system := huri
  obtain ⟨hstore', hrun'⟩ :=
    serveSettings_patch host.recorded target base hmoved h.method store net
  have hlookup := lookup_kept_iff host.recorded system arrival store
  have hrelayed := bootStatus_ne_or host (arrival.ctx target base) system
    (arrival.bootWrite host).taken net
  simp only [bootStatus_moved, bootNet_moved, bootWrite_moved, bootWrite_recorded,
    storable_recorded, keepsNothingNew_recorded] at hrun hrun' hlookup hstore
  generalize serveSystem host.recorded target base arrival store net = one at *
  generalize serveSettings host.recorded target base (arrival.moved uri) store net = other at *
  constructor
  · intro hsame
    refine ⟨?_, ?_⟩
    · have hstored := hsame.stored (orderKey system)
      rw [hstore, hstore'] at hstored
      exact hlookup.mp hstored
    · intro hended
      rcases hrun with ⟨hkept, _⟩ | ⟨hnot, hstatus, hnet⟩
      · exact hkept
      · -- refused here, the same write would have gone through at the settings
        exfalso
        rcases hrun' with ⟨_, hstatus', hnet'⟩ | ⟨hnot', _⟩
        · rcases hrelayed with hne | hne
          · exact hne (by rw [← hstatus', ← hsame.answered, hstatus])
          · exact hne (by rw [← hnet', ← hsame.relayed, hnet])
        · exact hnot' hended
  · intro halike
    have hrest : one.2.world.net = other.2.world.net ∧ one.1.status = other.1.status := by
      rcases hrun with ⟨_, hended, hstatus, hnet⟩ | ⟨hnot, hstatus, hnet⟩ <;>
        rcases hrun' with ⟨hended', hstatus', hnet'⟩ | ⟨hnot', hstatus', hnet'⟩
      · exact ⟨hnet.trans hnet'.symm, hstatus.trans hstatus'.symm⟩
      · exact absurd hended hnot'
      · exact absurd ⟨halike.noneRefused hended', hended'⟩ hnot
      · exact ⟨hnet.trans hnet'.symm, hstatus.trans hstatus'.symm⟩
    refine ⟨?_, hrest.1, hrest.2⟩
    intro key
    rw [hstore, hstore']
    by_cases hkey : key = orderKey system
    · rw [hkey]
      exact hlookup.mpr halike.nothingNew
    · exact lookup_keepAll_of_ne hkey _ store

theorem scriptValue_stubOrder : host.scriptValue stubOrder = stubOrder := by
  unfold stubOrder
  rw [scriptValue_array]
  rfl

/-- **The two agree over a run**: on what is read, where every order that is kept
is the stub and the BMC's own is none or the stub, and on a `PATCH` exactly where
no new order is kept, and none refused. -/
theorem settings_agree {history : History ν} (hhistory : IsHistory host target base history)
    (system : Text) :
    (KeptOrdersMeet host (fun _ order => order = stubOrder) history →
      ∀ (arrival settings : Arrival) (net net' : σ) (document : Json ν),
        ReadsSystem system arrival → ReadsSettings system settings →
        Documents host (arrival.ctx target base) net document → ownOrder document = stubOrder →
        (serveSystem host target base arrival (storeOf host history) net).1.status ≠ 502 →
        (serveSettings host target base settings (storeOf host history) net').1.status ≠ 502 →
        ∃ order, ReportsOrder host
            (serveSystem host target base arrival (storeOf host history) net).1 order ∧
          ReportsOrder host
            (serveSettings host target base settings (storeOf host history) net').1 order) ∧
      ∀ (arrival : Arrival) (uri : Uri) (net : σ × List Exchanged),
        PatchesSystem system arrival → segment uri.path 4 = some system →
        (SameEffect (serveSystem host.recorded target base arrival (storeOf host history) net)
            (serveSettings host.recorded target base (arrival.moved uri) (storeOf host history)
              net) ↔
          WritesAlike host system arrival (storeOf host history)) := by
  refine ⟨?_, ?_⟩
  · intro hkept arrival settings net net' document h hsettings hdocument hown hanswered hanswered'
    have hreports := history_reports hhistory h hdocument hanswered
    have hstub : effectiveOrder host (storeOf host history) system document = stubOrder :=
      effectiveOrder_meets hkept (fun _ _ horder => by rw [horder, scriptValue_stubOrder]) hown
    rw [hstub, served_stubOrder] at hreports
    exact ⟨stubOrder, hreports, settings_reports hsettings _ net' hanswered'⟩
  · intro arrival uri net h huri
    exact sameEffect_iff h huri _ net

end Agree

/-- A request for the settings of the one system. -/
def settingsOne : Arrival where
  parts := {
    method := .GET
    uri := { path := "/redfish/v1/Systems/1/Settings".toList, query := none }
    headers := .new }
  body := []

theorem settingsOne_serves (store : Store (Json Nat)) :
    (serveSettings systemHost bmcTarget proxyBase settingsOne store ()).1.status = 200 ∧
      ReportsOrder systemHost
        (serveSettings systemHost bmcTarget proxyBase settingsOne store ()).1 stubOrder := by
  have hpath : segment settingsOne.parts.uri.path 4 = some systemOne := rfl
  have hcurrent : systemReply systemHost (settingsOne.ctx bmcTarget proxyBase) systemOne () = _ :=
    systemReply_ok rfl rfl
  refine settings_serves ⟨hpath, rfl⟩ store hcurrent ?_
  intro _ _
  exact ⟨systemBody, fromSlice_systemBody⟩

/-- **After an order is kept, the two report two orders.** -/
theorem settings_differ :
    PatchesSystem systemOne (orderPatch ["Boot0001".toList]) ∧
      ReportsOrder systemHost (serveSystem systemHost bmcTarget proxyBase readOne
        (patched ["Boot0001".toList]) ()).1 (.array [.string "Boot0001".toList]) ∧
      ReportsOrder systemHost (serveSettings systemHost bmcTarget proxyBase settingsOne
        (patched ["Boot0001".toList]) ()).1 stubOrder ∧
      (.array [.string "Boot0001".toList] : Json Nat) ≠ stubOrder := by
  have hstorable : storable systemHost ScriptStore.new (orderKey systemOne)
      (.array (["Boot0001".toList].map .string)) = true :=
    storable_iff.mpr ⟨⟨by decide, by decide⟩, ⟨rfl, _, rfl, by decide⟩, rfl, .inl (by decide)⟩
  have hreports := (patched_reports hstorable).2
  rw [served_array, List.map_map, List.map_cons, List.map_nil, Function.comp,
    served_plain _ _ (by decide)] at hreports
  refine ⟨patchesSystem_bootPatch _, hreports, (settingsOne_serves _).2, ?_⟩
  intro heq
  injection heq with heq
  injection heq with _ heq
  cases heq

/-- After the stub is sent. -/
theorem settings_agree_stub : ∃ order, ReportsOrder systemHost (serveSystem systemHost bmcTarget
      proxyBase readOne (storeOf systemHost [orderCall optionNames]) ()).1 order ∧
    ReportsOrder systemHost (serveSettings systemHost bmcTarget proxyBase settingsOne
      (storeOf systemHost [orderCall optionNames]) ()).1 order := by
  have hown : ownOrder systemBody = stubOrder := by
    rcases ownOrder_cases (ownItems_systemBody fun _ => False) with ⟨item, _, _, hnone⟩ | heq
    · exact (hnone item List.mem_cons_self).elim
    · exact heq
  have hagree := settings_agree (isHistory_orderCall optionNames) systemOne
  refine hagree.1 (keptOrdersMeet_orderCall rfl) readOne settingsOne () () systemBody readsSystem_readOne ⟨rfl, rfl⟩
    (documents_systemBody _) hown (served_orderCall _) ?_
  rw [(settingsOne_serves _).1]
  decide

end RedfishProxy.Shipped
