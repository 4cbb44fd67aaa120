import RedfishProxy.Shipped.BootHistory
import RedfishProxy.Shipped.Settings

/-!
# The reported boot order

What a read of a system reports: the order the store holds for it, or else the
BMC's own, or else the stub. What a client may count on over whole histories
depends on what clients and the BMC name as an order.

Main results:
* `system_reports`: the order in the document of a system.
* `order_never_empty`: when it is always a list of names.
* `order_resolves`: when every name is one of a boot option.
-/

namespace RedfishProxy.Shipped

open Lib Http Script RuneHost ScriptUtil
open ScriptStore (IsKey Bounded Store new_bounded next_bounded)

/-- Any other request for the member. -/
structure ReadsSystem (system : Text) (arrival : Arrival) : Prop
    extends ForSystem system arrival where
  method : arrival.parts.method ≠ .PATCH

section Reports

variable {ν σ : Type} (host : Rune ν σ) (target : SocketAddrV4) (base : Base)

/-- The order a system has: the stored one, or the BMC's own, or the stub. -/
def effectiveOrder (store : Store (Json ν)) (system : Text) (document : Json ν) : Json ν :=
  ((store.entries.lookup (orderKey system)).map host.scriptValue).getD (ownOrder document)

variable {host target base}

theorem serveSystem_read {system : Text} {arrival : Arrival} (h : ReadsSystem system arrival)
    (store : Store (Json ν)) (net : σ) :
    serveSystem host target base arrival store net =
      let ctx := arrival.ctx target base
      let run := exec (readSystem host ctx system) (opened ctx store net)
      (answer host ctx run.1, run.2) := by
  have hmethod : ¬ ((scriptRequest arrival.parts arrival.body).method == "PATCH".toList) = true :=
    fun heq => h.method (Method.ext (beq_iff_eq.mp heq))
  have hrun : exec (systems host (arrival.ctx target base)
      (scriptRequest arrival.parts arrival.body)) (start store net) =
        exec (readSystem host (arrival.ctx target base) system)
          (opened (arrival.ctx target base) store net) := by
    unfold systems
    rw [exec_opened]
    show exec (tryOption (segment arrival.parts.uri.path 4) >>= _) _ = _
    rw [h.path, exec_bind, exec_tryOption_some, thenExec_ok, if_neg (by simpa using h.named),
      if_neg hmethod]
  unfold serveSystem serve
  simp only
  rw [show requestCtx target base arrival.parts arrival.body = arrival.ctx target base from rfl, hrun]

/-- **A system with a serial and a key is served**, with its order. -/
theorem system_shows {system : Text} {arrival : Arrival} (h : ReadsSystem system arrival)
    {store : Store (Json ν)} (hbounded : Bounded host.serde store)
    (hfits : ∀ order, store.entries.lookup (orderKey system) = some order →
      Json.Fits (host.limit - 2) order)
    {net : σ} {document serialised : Json ν}
    (hdocument : Documents host (arrival.ctx target base) net document)
    (hserial : (exec (withSerial host (arrival.ctx target base) document)
      ((opened (arrival.ctx target base) store net).forwarded host (arrival.ctx target base))).1 =
        .ok serialised) (hkey : IsKey (orderKey system)) :
    (serveSystem host target base arrival store net).1.status = 200 ∧
      Shows host (serveSystem host target base arrival store net).1
        (served host (arrival.ctx target base)
          (dressedSystem host system (effectiveOrder host store system document) serialised)) := by
  rw [serveSystem_read h]
  generalize arrival.ctx target base = ctx at hdocument hserial ⊢
  have horder : Json.Fits (host.limit - 2) (effectiveOrder host store system document) := by
    unfold effectiveOrder
    cases hlookup : store.entries.lookup (orderKey system) with
    | some order => exact fits_scriptValue (hfits order hlookup)
    | none => exact fits_ownOrder_limit hdocument.fits
  have hdress : (exec (dressSystem host ctx system document)
      ((opened ctx store net).forwarded host ctx)).1 =
        .ok (dressedSystem host system (effectiveOrder host store system document) serialised) :=
    exec_dressSystem hbounded hkey hserial
  have hopened : Documents host ctx (opened ctx store net).world.net document := hdocument
  obtain ⟨response, hrun, hcarries⟩ := answer_dressed hopened hdress
    (fits_dressedSystem (fits_withSerial hdocument.fits hserial) horder)
  unfold readSystem
  simp only [hrun]
  exact ⟨hcarries.status, hcarries.shows⟩

theorem system_serves {system : Text} {arrival : Arrival} (h : ReadsSystem system arrival)
    {store : Store (Json ν)} (hbounded : Bounded host.serde store)
    (hfits : ∀ order, store.entries.lookup (orderKey system) = some order →
      Json.Fits (host.limit - 2) order)
    {net : σ} {document serialised : Json ν}
    (hdocument : Documents host (arrival.ctx target base) net document)
    (hserial : (exec (withSerial host (arrival.ctx target base) document)
      ((opened (arrival.ctx target base) store net).forwarded host (arrival.ctx target base))).1 =
        .ok serialised) (hkey : IsKey (orderKey system)) :
    (serveSystem host target base arrival store net).1.status = 200 ∧
      ReportsOrder host (serveSystem host target base arrival store net).1
        (served host (arrival.ctx target base) (effectiveOrder host store system document)) := by
  obtain ⟨hstatus, hshows⟩ := system_shows h hbounded hfits hdocument hserial hkey
  exact ⟨hstatus, _, hshows, index_dressedSystem_order _ system _ serialised⟩

/-- Without a serial or a key it is not. -/
theorem system_unserved {system : Text} {arrival : Arrival} (h : ReadsSystem system arrival)
    {store : Store (Json ν)} {net : σ} {document : Json ν}
    (hdocument : Documents host (arrival.ctx target base) net document)
    (herror : (∃ stop, (exec (withSerial host (arrival.ctx target base) document)
        ((opened (arrival.ctx target base) store net).forwarded host
          (arrival.ctx target base))).1 = .error stop) ∨ ¬ IsKey (orderKey system)) :
    (serveSystem host target base arrival store net).1.status = 502 := by
  obtain ⟨stop, hstop⟩ := exec_dressSystem_error herror
  have hopened : Documents host (arrival.ctx target base)
    (opened (arrival.ctx target base) store net).world.net document := hdocument
  rw [serveSystem_read h]
  unfold readSystem
  simp only [answer_dressed_error hopened hstop, status_answer_error]

/-- **A system that is dressed reports its order**, as the caller is served it. -/
theorem system_reports {system : Text} {arrival : Arrival} (h : ReadsSystem system arrival)
    {store : Store (Json ν)} (hbounded : Bounded host.serde store)
    (hfits : ∀ order, store.entries.lookup (orderKey system) = some order →
      Json.Fits (host.limit - 2) order)
    {net : σ} {document : Json ν} (hdocument : Documents host (arrival.ctx target base) net document)
    (hanswered : (serveSystem host target base arrival store net).1.status ≠ 502) :
    ReportsOrder host (serveSystem host target base arrival store net).1
      (served host (arrival.ctx target base) (effectiveOrder host store system document)) := by
  have hkey : IsKey (orderKey system) := by
    by_contra hkey
    exact hanswered (system_unserved h hdocument (.inr hkey))
  cases hserial : (exec (withSerial host (arrival.ctx target base) document)
      ((opened (arrival.ctx target base) store net).forwarded host (arrival.ctx target base))).1 with
  | error stop => exact absurd (system_unserved h hdocument (.inl ⟨stop, hserial⟩)) hanswered
  | ok serialised => exact (system_serves h hbounded hfits hdocument hserial hkey).2

/-- In a run, what all kept orders and the BMC's own meet, the order of a system
meets, unless a script reads a kept one as something else. -/
theorem effectiveOrder_meets {P : Text → Json ν → Prop} {history : History ν}
    (hkept : KeptOrdersMeet host P history)
    (hscript : ∀ system order, P system order → P system (host.scriptValue order))
    {system : Text} {document : Json ν} (hown : P system (ownOrder document)) :
    P system (effectiveOrder host (storeOf host history) system document) := by
  unfold effectiveOrder
  cases hlookup : (storeOf host history).entries.lookup (orderKey system) with
  | some order => exact hscript system order (order_invariant hkept system order hlookup)
  | none => exact hown

/-- And it is what a read reports. -/
theorem history_reports {history : History ν} (hhistory : IsHistory host target base history)
    {system : Text} {arrival : Arrival} (h : ReadsSystem system arrival) {net : σ}
    {document : Json ν} (hdocument : Documents host (arrival.ctx target base) net document)
    (hanswered : (serveSystem host target base arrival (storeOf host history) net).1.status ≠ 502) :
    ReportsOrder host (serveSystem host target base arrival (storeOf host history) net).1
      (served host (arrival.ctx target base)
        (effectiveOrder host (storeOf host history) system document)) :=
  system_reports h (storeOf_bounded history) (fun _ horder => fits_stored hhistory horder)
    hdocument hanswered

/-- The items of the BMC's own order, where it reports a list. -/
def OwnItems (P : Json ν → Prop) (document : Json ν) : Prop :=
  ∀ items, valueAt document "Boot/BootOrder".toList = some (.array items) → ∀ item ∈ items, P item

theorem ownOrder_cases {P : Json ν → Prop} {document : Json ν} (hown : OwnItems P document) :
    (∃ item items, ownOrder document = .array (item :: items) ∧ ∀ i ∈ item :: items, P i) ∨
      ownOrder document = stubOrder := by
  unfold ownOrder
  split
  · rename_i item items hfound
    exact .inl ⟨item, items, rfl, hown _ hfound⟩
  · exact .inr rfl

end Reports

/-! ## A system with a serial -/

def systemBody : Json Nat := .object [("SerialNumber".toList, .string "S1".toList)]

/-- A BMC that serves it, whatever it is asked. -/
def systemHost : Rune Nat Unit := documentHost systemBody

theorem fits_systemBody : Json.Fits serdeLimit systemBody := (Json.Fits.string _).one_field _

theorem fromSlice_systemBody : systemHost.fromSlice (writeBody systemBody) = .ok systemBody :=
  fromSlice_documentHost fits_systemBody

theorem documents_systemBody (ctx : RequestCtx) : Documents systemHost ctx () systemBody :=
  documents_documentHost fits_systemBody ctx

def readOne : Arrival where
  parts := {
    method := .GET
    uri := { path := "/redfish/v1/Systems/1".toList, query := none }
    headers := .new }
  body := []

theorem readsSystem_readOne : ReadsSystem systemOne readOne :=
  ⟨⟨rfl, by decide⟩, by decide⟩

theorem ownItems_systemBody (P : Json Nat → Prop) : OwnItems P systemBody := by
  intro items h
  have hnone : (valueAt systemBody "Boot/BootOrder".toList).isNone = true := by decide
  rw [h] at hnone
  cases hnone

/-- Whatever the store has, a read of it is served. -/
theorem systemOne_serves {store : Store (Json Nat)} (hbounded : Bounded systemHost.serde store)
    (hfits : ∀ order, store.entries.lookup (orderKey systemOne) = some order →
      Json.Fits (systemHost.limit - 2) order) :
    (serveSystem systemHost bmcTarget proxyBase readOne store ()).1.status = 200 ∧
      ReportsOrder systemHost (serveSystem systemHost bmcTarget proxyBase readOne store ()).1
        (served systemHost (readOne.ctx bmcTarget proxyBase)
          (effectiveOrder systemHost store systemOne systemBody)) := by
  have hnamed : isBlank (valueAt systemBody "SerialNumber".toList) = false := by decide
  have hserial : ∀ (ctx : RequestCtx) (machine : Machine Nat Unit),
      (exec (withSerial systemHost ctx systemBody) machine).1 = .ok systemBody := by
    intro ctx machine
    unfold withSerial
    rw [hnamed]
    rfl
  exact system_serves readsSystem_readOne hbounded hfits
    (documents_systemBody (readOne.ctx bmcTarget proxyBase)) (hserial _ _) ⟨by decide, by decide⟩

/-- A `PATCH` of it with nothing but an order. -/
def orderPatch (names : List Text) : Arrival :=
  bootPatch [("BootOrder".toList, .array (names.map .string))]

theorem orders_orderPatch (names : List Text) :
    ((orderPatch names).bootWrite systemHost).orders = [.array (names.map .string)] := by
  have hfits : Json.Fits 125 (.array (names.map .string) : Json Nat) := by
    refine .array ?_
    intro item hitem
    obtain ⟨name, _, rfl⟩ := List.mem_map.mp hitem
    exact .string _
  unfold orderPatch systemHost documentHost
  rw [bootWrite_bootPatch]
  · rfl
  · exact (hfits.one_field _).one_field _

/-- The store after it. -/
def patched (names : List Text) : Store (Json Nat) :=
  (serveSystem systemHost bmcTarget proxyBase (orderPatch names) ScriptStore.new ()).2.store

/-- A read reports the order of the `PATCH` before it. -/
theorem patched_reports {names : List Text} (hstorable : storable systemHost ScriptStore.new
      (orderKey systemOne) (.array (names.map .string)) = true) :
    (serveSystem systemHost bmcTarget proxyBase readOne (patched names) ()).1.status = 200 ∧
      ReportsOrder systemHost
        (serveSystem systemHost bmcTarget proxyBase readOne (patched names) ()).1
        (served systemHost (readOne.ctx bmcTarget proxyBase) (.array (names.map .string))) := by
  have hpatch : PatchesSystem systemOne (orderPatch names) := patchesSystem_bootPatch _
  have hstore : patched names = _ := (serveSystem_patch_cases hpatch ScriptStore.new ()).1
  rw [orders_orderPatch] at hstore
  have hlookup : (patched names).entries.lookup (orderKey systemOne) =
      some (.array (names.map .string)) := by
    rw [hstore, lookup_keepAll]
    unfold keptValue
    rw [List.takeWhile_cons, if_pos hstorable]
    rfl
  have hbounded : Bounded systemHost.serde (patched names) := by
    obtain ⟨kept, _, hafter⟩ := keepAll_calls systemHost (orderKey systemOne)
      [.array (names.map .string)] ScriptStore.new
    rw [hstore, hafter]
    exact (Visits.last _).invariant new_bounded fun _ _ h => next_bounded h _
  have hfits : ∀ order, (patched names).entries.lookup (orderKey systemOne) = some order →
      Json.Fits (systemHost.limit - 2) order := by
    intro order horder
    rw [hlookup] at horder
    injection horder with horder
    have hsent : order ∈ ((orderPatch names).bootWrite systemHost).orders := by
      rw [orders_orderPatch, ← horder]
      exact List.mem_singleton.mpr rfl
    exact fits_of_mem_orders hsent
  have hserves := systemOne_serves hbounded hfits
  unfold effectiveOrder at hserves
  rwa [hlookup, Option.map_some, Option.getD_some,
    show systemHost.scriptValue _ = _ from scriptValue_serdeHost _ _] at hserves

/-! ## A list of names -/

section Names

variable {ν σ : Type} {host : Rune ν σ} {target : SocketAddrV4} {base : Base}

def IsName (item : Json ν) : Prop := ∃ text, item = .string text

/-- A list of texts, and not an empty one. -/
def IsNameList (order : Json ν) : Prop :=
  ∃ item items, order = .array (item :: items) ∧ ∀ i ∈ item :: items, IsName i

theorem isNameList_served {order : Json ν} (h : IsNameList order) (ctx : RequestCtx) :
    IsNameList (served host ctx order) := by
  obtain ⟨item, items, rfl, hnames⟩ := h
  refine ⟨served host ctx item, items.map (served host ctx), served_array .., ?_⟩
  intro i hi
  obtain ⟨name, hname, rfl⟩ := List.mem_map.mp (List.map_cons ▸ hi)
  obtain ⟨text, rfl⟩ := hnames name hname
  exact ⟨_, rfl⟩

theorem isNameList_scriptValue {order : Json ν} (h : IsNameList order) :
    IsNameList (host.scriptValue order) := by
  obtain ⟨item, items, rfl, hnames⟩ := h
  refine ⟨host.scriptValue item, items.map host.scriptValue, scriptValue_array .., ?_⟩
  intro i hi
  obtain ⟨name, hname, rfl⟩ := List.mem_map.mp (List.map_cons ▸ hi)
  obtain ⟨text, rfl⟩ := hnames name hname
  exact ⟨text, rfl⟩

theorem isNameList_ownOrder {document : Json ν} (hown : OwnItems IsName document) :
    IsNameList (ownOrder document) := by
  rcases ownOrder_cases hown with ⟨item, items, heq, hnames⟩ | heq
  · exact ⟨item, items, heq, hnames⟩
  · refine ⟨_, _, heq, ?_⟩
    simp only [List.forall_mem_cons]
    exact ⟨⟨_, rfl⟩, ⟨_, rfl⟩, by simp⟩

/-- **The reported order is a list of names, and not an empty one**, when every
order that is kept is one and the BMC's own has only names. -/
theorem order_never_empty {history : History ν} (hhistory : IsHistory host target base history)
    (hkept : KeptOrdersMeet host (fun _ order => IsNameList order) history)
    {system : Text} {arrival : Arrival} (h : ReadsSystem system arrival) {net : σ}
    {document : Json ν} (hdocument : Documents host (arrival.ctx target base) net document)
    (hown : OwnItems IsName document)
    (hanswered : (serveSystem host target base arrival (storeOf host history) net).1.status ≠ 502) :
    ∃ order, ReportsOrder host
        (serveSystem host target base arrival (storeOf host history) net).1 order ∧
      IsNameList order := by
  have hmeets : IsNameList (effectiveOrder host (storeOf host history) system document) :=
    effectiveOrder_meets hkept (fun _ _ => isNameList_scriptValue) (isNameList_ownOrder hown)
  exact ⟨_, history_reports hhistory h hdocument hanswered, isNameList_served hmeets _⟩

end Names

/-- The one call the `PATCH` makes. -/
def orderCall (names : List Text) : StoreRequest × ScriptStore.Op (Json Nat) :=
  (⟨.systems, orderPatch names⟩, .set (orderKey systemOne) (.array (names.map .string)))

theorem isHistory_orderCall (names : List Text) :
    IsHistory systemHost bmcTarget proxyBase [orderCall names] := by
  intro call hcall
  obtain rfl := List.mem_singleton.mp hcall
  refine ⟨systemOne, .array (names.map .string), ⟨rfl, patchesSystem_bootPatch _, ?_⟩, rfl⟩
  show _ ∈ ((orderPatch names).bootWrite systemHost).orders
  rw [orders_orderPatch]
  exact List.mem_singleton.mpr rfl

theorem keptOrdersMeet_orderCall {P : Text → Json Nat → Prop} {names : List Text}
    (h : P systemOne (.array (names.map .string))) :
    KeptOrdersMeet systemHost P [orderCall names] := by
  intro done call rest heq system order hset _
  obtain rfl : call = orderCall names := by
    have hmem : call ∈ [orderCall names] := heq ▸ by simp
    exact List.mem_singleton.mp hmem
  injection hset with hkey horder
  rw [← orderKey_injective hkey, ← horder]
  exact h

theorem served_orderCall (names : List Text) : (serveSystem systemHost bmcTarget proxyBase readOne
    (storeOf systemHost [orderCall names]) ()).1.status ≠ 502 := by
  rw [(systemOne_serves (storeOf_bounded _) fun _ horder =>
    fits_stored (isHistory_orderCall names) horder).1]
  decide

/-- After the one option is named. -/
theorem order_never_empty_one : ∃ order, ReportsOrder systemHost (serveSystem systemHost bmcTarget
      proxyBase readOne (storeOf systemHost [orderCall ["Boot0001".toList]]) ()).1 order ∧
    IsNameList order := by
  have hnames : IsNameList (.array (["Boot0001".toList].map .string) : Json Nat) := by
    refine ⟨_, _, rfl, ?_⟩
    simp only [List.forall_mem_cons]
    exact ⟨⟨_, rfl⟩, by simp⟩
  exact order_never_empty (isHistory_orderCall _) (keptOrdersMeet_orderCall hnames)
    readsSystem_readOne (documents_systemBody _) (ownItems_systemBody _) (served_orderCall _)

/-- **An empty order is kept, and reported.** -/
theorem empty_order_reported :
    PatchesSystem systemOne (orderPatch []) ∧
      (serveSystem systemHost bmcTarget proxyBase readOne (patched []) ()).1.status = 200 ∧
      ReportsOrder systemHost
        (serveSystem systemHost bmcTarget proxyBase readOne (patched []) ()).1 (.array []) ∧
      ¬ IsNameList (.array [] : Json Nat) := by
  have hstorable : storable systemHost ScriptStore.new (orderKey systemOne)
      (.array (([] : List Text).map .string)) = true :=
    storable_iff.mpr ⟨⟨by decide, by decide⟩, ⟨rfl, _, rfl, by decide⟩, rfl, .inl (by decide)⟩
  obtain ⟨hstatus, hreports⟩ := patched_reports hstorable
  rw [served_array] at hreports
  refine ⟨patchesSystem_bootPatch _, hstatus, hreports, ?_⟩
  intro h
  obtain ⟨item, items, heq, _⟩ := h
  cases heq

/-! ## Names of options -/

section Options

variable {ν σ : Type} {host : Rune ν σ} {target : SocketAddrV4} {base : Base}

/-- What a client looks up among the boot options. -/
def references : Json ν → List (Json ν)
  | .array items => items
  | order => [order]

def IsOption (names : List Text) (reference : Json ν) : Prop :=
  ∃ name ∈ names, reference = .string name

/-- Every reference is an option that exists. -/
def NamesOptions (names : List Text) (order : Json ν) : Prop :=
  ∀ reference ∈ references order, IsOption names reference

theorem served_of_isOption {reference : Json ν} (h : IsOption optionNames reference)
    (ctx : RequestCtx) : served host ctx reference = reference := by
  have hplain : ∀ name ∈ optionNames, containsSep name = false := by decide
  obtain ⟨name, hname, rfl⟩ := h
  exact served_plain host ctx (hplain name hname)

/-- Names of options are served as they are. -/
theorem served_of_namesOptions {order : Json ν} (h : NamesOptions optionNames order)
    (ctx : RequestCtx) : served host ctx order = order := by
  cases order with
  | array items =>
      have hsame : items.map (served host ctx) = items :=
        (List.map_congr_left fun item hitem => served_of_isOption (h item hitem) ctx).trans
          (List.map_id items)
      rw [served_array, hsame]
  | null => rfl
  | bool b => rfl
  | _ => exact served_of_isOption (h _ (List.mem_singleton.mpr rfl)) ctx

/-- And a script reads them as they are. -/
theorem scriptValue_of_namesOptions {names : List Text} {order : Json ν}
    (h : NamesOptions names order) : host.scriptValue order = order := by
  have hsame : ∀ item, IsOption names item → host.scriptValue item = item := by
    rintro _ ⟨name, _, rfl⟩
    rfl
  cases order with
  | array items =>
      have hitems : items.map host.scriptValue = items :=
        (List.map_congr_left fun item hitem => hsame item (h item hitem)).trans (List.map_id items)
      rw [scriptValue_array, hitems]
  | null => rfl
  | bool b => rfl
  | _ => exact hsame _ (h _ (List.mem_singleton.mpr rfl))

theorem namesOptions_ownOrder {document : Json ν}
    (hown : OwnItems (IsOption optionNames) document) :
    NamesOptions optionNames (ownOrder document) := by
  rcases ownOrder_cases hown with ⟨item, items, heq, hnames⟩ | heq
  · rw [heq]
    exact hnames
  · rw [heq]
    intro reference hreference
    obtain ⟨name, hname, rfl⟩ : ∃ name ∈ optionNames, Json.string name = reference :=
      List.mem_map.mp hreference
    exact ⟨name, hname, rfl⟩

/-- **Every name in the reported order is one of a boot option**, when it is in
every order that is kept and in the BMC's own. -/
theorem order_resolves {history : History ν} (hhistory : IsHistory host target base history)
    (hkept : KeptOrdersMeet host (fun _ order => NamesOptions optionNames order) history)
    {system : Text} {arrival options : Arrival} (h : ReadsSystem system arrival)
    (hoptions : segment options.parts.uri.path 4 = some system) {net : σ}
    {document : Json ν} (hdocument : Documents host (arrival.ctx target base) net document)
    (hown : OwnItems (IsOption optionNames) document)
    (hanswered : (serveSystem host target base arrival (storeOf host history) net).1.status ≠ 502)
    (net' : σ) :
    ∃ order names, ReportsOrder host
        (serveSystem host target base arrival (storeOf host history) net).1 order ∧
      ListsOptions host
        (serveBootOptions host target base options (storeOf host history) net').1 names ∧
      NamesOptions names order := by
  have hmeets : NamesOptions optionNames
      (effectiveOrder host (storeOf host history) system document) :=
    effectiveOrder_meets hkept (fun _ _ h => by rwa [scriptValue_of_namesOptions h])
      (namesOptions_ownOrder hown)
  have hreports := history_reports hhistory h hdocument hanswered
  rw [served_of_namesOptions hmeets] at hreports
  exact ⟨_, _, hreports, (bootOptions_serves hoptions _ net').2, hmeets⟩

end Options

/-- A request for the options of the same system. -/
def optionsOne : Arrival where
  parts := {
    method := .GET
    uri := { path := "/redfish/v1/Systems/1/BootOptions".toList, query := none }
    headers := .new }
  body := []

/-- **An option that does not exist is kept, and reported.** -/
theorem missing_option_reported :
    PatchesSystem systemOne (orderPatch ["Boot0007".toList]) ∧
      ReportsOrder systemHost (serveSystem systemHost bmcTarget proxyBase readOne
        (patched ["Boot0007".toList]) ()).1 (.array [.string "Boot0007".toList]) ∧
      ListsOptions systemHost (serveBootOptions systemHost bmcTarget proxyBase optionsOne
        (patched ["Boot0007".toList]) ()).1 optionNames ∧
      ¬ NamesOptions optionNames (.array [.string "Boot0007".toList] : Json Nat) := by
  have hstorable : storable systemHost ScriptStore.new (orderKey systemOne)
      (.array (["Boot0007".toList].map .string)) = true :=
    storable_iff.mpr ⟨⟨by decide, by decide⟩, ⟨rfl, _, rfl, by decide⟩, rfl, .inl (by decide)⟩
  have hreports := (patched_reports hstorable).2
  have hpath : segment optionsOne.parts.uri.path 4 = some systemOne := rfl
  rw [served_array, List.map_map, List.map_cons, List.map_nil, Function.comp,
    served_plain _ _ (by decide)] at hreports
  refine ⟨patchesSystem_bootPatch _, hreports, (bootOptions_serves hpath _ ()).2, ?_⟩
  intro h
  obtain ⟨name, hname, heq⟩ := h (.string "Boot0007".toList) (List.mem_singleton.mpr rfl)
  injection heq with heq
  have hlisted : "Boot0007".toList ∉ optionNames := by decide
  exact hlisted (heq ▸ hname)

/-- After an option that does. -/
theorem order_resolves_one : ∃ order names, ReportsOrder systemHost (serveSystem systemHost
      bmcTarget proxyBase readOne (storeOf systemHost [orderCall ["Boot0001".toList]]) ()).1 order ∧
    ListsOptions systemHost (serveBootOptions systemHost bmcTarget proxyBase optionsOne
      (storeOf systemHost [orderCall ["Boot0001".toList]]) ()).1 names ∧
    NamesOptions names order := by
  have hnames : NamesOptions optionNames
      (.array (["Boot0001".toList].map .string) : Json Nat) := by
    intro reference hreference
    obtain rfl := List.mem_singleton.mp hreference
    exact ⟨_, by decide, rfl⟩
  exact order_resolves (isHistory_orderCall _) (keptOrdersMeet_orderCall hnames)
    readsSystem_readOne rfl (documents_systemBody _) (ownItems_systemBody _) (served_orderCall _) ()

end RedfishProxy.Shipped
