import RedfishProxy.Shipped.SerdeHost
import RedfishProxy.Shipped.Systems

/-!
# A refused boot write

`systems.rn` keeps the order of a `PATCH` while it collects the overrides, and
asks the BMC afterwards. A write that is refused has been kept by then.

Main result:
* `refused_write_iff`: when a refused write leaves the stored order alone.
-/

namespace RedfishProxy.Shipped

open Lib Http Script RuneHost ScriptUtil

/-- A request for a member of the systems collection. -/
structure ForSystem (system : Text) (arrival : Arrival) : Prop where
  path : segment arrival.parts.uri.path 4 = some system
  named : system ≠ []

/-- A `PATCH` of the member. -/
structure PatchesSystem (system : Text) (arrival : Arrival) : Prop
    extends ForSystem system arrival where
  method : arrival.parts.method = .PATCH

section Refused

variable {ν σ : Type} (host : Rune ν σ) (target : SocketAddrV4) (base : Base)

/-- What a boot write reads of a request. -/
def Arrival.bootWrite (arrival : Arrival) : BootWrite ν :=
  Shipped.bootWrite host (scriptRequest arrival.parts arrival.body)

def Arrival.ctx (arrival : Arrival) : RequestCtx :=
  requestCtx target base arrival.parts arrival.body

/-- The BMC took the override: a success, with a body that is whole and parses
where it has to. -/
def TakesOverride (reply : Reply) : Prop :=
  isSuccess reply.status = true ∧ ∃ bytes, reply.body = .ok bytes ∧
    (isJson reply.headers = true → ∃ value, host.fromSlice bytes = .ok value)

/-- Every order is kept, the loop comes to its end, and the BMC takes what is
relayed, if anything is. -/
def WriteLands (system : Text) (arrival : Arrival) (store : ScriptStore.Store (Json ν)) (net : σ) :
    Prop :=
  (∀ order ∈ (arrival.bootWrite host).orders,
      storable host store (orderKey system) order = true) ∧
    (arrival.bootWrite host).ended = .ok () ∧
    ((arrival.bootWrite host).taken.count = 0 ∨ ∃ reply,
      (host.client (overrideOutbound host (arrival.ctx target base) system
        (arrival.bootWrite host).taken.boot) net).1 = .ok reply ∧ TakesOverride host reply)

/-- No order is kept, but for the one that is held. -/
def KeepsNothingNew (system : Text) (arrival : Arrival) (store : ScriptStore.Store (Json ν)) :
    Prop :=
  ∀ order, keptValue host store (orderKey system) (arrival.bootWrite host).orders = some order →
    store.entries.lookup (orderKey system) = some order

/-- The response to a request for the system, and the machine it leaves. -/
def serveSystem (arrival : Arrival) (store : ScriptStore.Store (Json ν)) (net : σ) :
    Response × Machine ν σ :=
  serve host (systems host) target base arrival store net

variable {host target base}

theorem isSuccess_clampStatus (status : Nat) :
    isSuccess (clampStatus status) = isSuccess status := by
  unfold clampStatus isSuccess
  split
  · rfl
  · rename_i hout
    have hlow : ¬ (200 ≤ status ∧ status < 300) := by
      intro h
      apply hout
      omega
    rw [Bool.eq_iff_iff]
    simp only [Bool.and_eq_true, decide_eq_true_eq]
    omega

theorem isSuccess_overrideStatus (reply : Except TransportError Reply) :
    isSuccess (overrideStatus host reply) = true ↔
      ∃ taken, reply = .ok taken ∧ TakesOverride host taken := by
  unfold overrideStatus TakesOverride
  cases reply with
  | error error => simp [isSuccess]
  | ok reply =>
      cases hbody : reply.body with
      | error error => simp [isSuccess, hbody]
      | ok bytes =>
          cases hjson : isJson reply.headers with
          | false => simp [isSuccess_clampStatus, hbody, hjson]
          | true =>
              cases hread : host.fromSlice bytes with
              | error error => simp [isSuccess, hbody, hjson, hread]
              | ok value => simp [isSuccess_clampStatus, hbody, hjson, hread]

/-- A `PATCH` is the run of its branch, after the record of the request. -/
theorem serveSystem_patch {system : Text} {arrival : Arrival} (h : PatchesSystem system arrival)
    (store : ScriptStore.Store (Json ν)) (net : σ) :
    serveSystem host target base arrival store net =
      let ctx := arrival.ctx target base
      let run := exec (patchSystem host ctx system (scriptRequest arrival.parts arrival.body))
        (opened ctx store net)
      (answer host ctx run.1, run.2) := by
  have hrun : exec (systems host (arrival.ctx target base)
      (scriptRequest arrival.parts arrival.body)) (start store net) =
        exec (patchSystem host (arrival.ctx target base) system
          (scriptRequest arrival.parts arrival.body)) (opened (arrival.ctx target base) store net) := by
    unfold systems
    rw [exec_opened]
    show exec (tryOption (segment arrival.parts.uri.path 4) >>= _) _ = _
    rw [h.path, exec_bind, exec_tryOption_some, thenExec_ok,
      if_neg (by simpa using h.named), if_pos (by rw [scriptRequest, h.method]; rfl)]
  unfold serveSystem serve
  simp only
  rw [show requestCtx target base arrival.parts arrival.body = arrival.ctx target base from rfl, hrun]

/-- The store afterwards, and the status by how the write goes. -/
theorem serveSystem_patch_cases {system : Text} {arrival : Arrival}
    (h : PatchesSystem system arrival) (store : ScriptStore.Store (Json ν)) (net : σ) :
    (serveSystem host target base arrival store net).2.store =
        (keepAll host (orderKey system) (arrival.bootWrite host).orders store).2 ∧
      (isSuccess (serveSystem host target base arrival store net).1.status = true ↔
        WriteLands host target base system arrival store net) := by
  rw [serveSystem_patch h]
  obtain ⟨hstore, hrun⟩ := exec_patchSystem (arrival.ctx target base) system
    (scriptRequest arrival.parts arrival.body) (opened (arrival.ctx target base) store net)
  refine ⟨hstore, ?_⟩
  unfold WriteLands
  rw [← keepAll_ok_iff]
  rcases hrun with ⟨hkept, hended, hstatus, _⟩ | ⟨hnot, hstatus, _⟩
  · have hkept' : (keepAll host (orderKey system) (arrival.bootWrite host).orders store).1 =
        .ok () := hkept
    have hended' : (arrival.bootWrite host).ended = .ok () := hended
    rw [hstatus]
    simp only [hkept', hended', true_and]
    show isSuccess (bootStatus host (arrival.ctx target base) system
      (arrival.bootWrite host).taken net) = true ↔ _
    unfold bootStatus
    split
    · rename_i hnone
      exact ⟨fun _ => .inl hnone, fun _ => rfl⟩
    · rename_i hsome
      rw [isSuccess_overrideStatus]
      exact ⟨fun htaken => .inr htaken, fun hor => hor.resolve_left hsome⟩
  · rw [hstatus]
    refine iff_of_false (by decide) ?_
    intro hlands
    exact hnot ⟨hlands.1, hlands.2.1⟩

variable (host) in
/-- The stored order is as it was when nothing new is kept. -/
theorem lookup_kept_iff (system : Text) (arrival : Arrival)
    (store : ScriptStore.Store (Json ν)) :
    (keepAll host (orderKey system) (arrival.bootWrite host).orders store).2.entries.lookup
        (orderKey system) = store.entries.lookup (orderKey system) ↔
      KeepsNothingNew host system arrival store := by
  rw [lookup_keepAll]
  unfold KeepsNothingNew
  cases keptValue host store (orderKey system) (arrival.bootWrite host).orders with
  | none => simp
  | some order =>
      rw [Option.some_or]
      exact ⟨fun heq other hother => by rw [← hother, heq], fun hall => (hall order rfl).symm⟩

/-- **A refused write leaves the stored order alone exactly when it keeps nothing
new, or when it is not refused at all.** -/
theorem refused_write_iff {system : Text} {arrival : Arrival} (h : PatchesSystem system arrival)
    (store : ScriptStore.Store (Json ν)) (net : σ) :
    (isSuccess (serveSystem host target base arrival store net).1.status = false →
        (serveSystem host target base arrival store net).2.store.entries.lookup (orderKey system) =
          store.entries.lookup (orderKey system)) ↔
      KeepsNothingNew host system arrival store ∨
        WriteLands host target base system arrival store net := by
  obtain ⟨hstore, hsuccess⟩ := serveSystem_patch_cases h store net
  rw [hstore, lookup_kept_iff host, ← hsuccess]
  cases isSuccess (serveSystem host target base arrival store net).1.status with
  | true => simp
  | false => simp

end Refused

/-! ## An order next to an override -/

/-- A `PATCH` of system 1 with these members in its `Boot`. -/
def bootPatch (members : Json.Fields Nat) : Arrival where
  parts := {
    method := .PATCH
    uri := { path := "/redfish/v1/Systems/1".toList, query := none }
    headers := typeHeader "application/json".toList }
  body := writeBody (.object [("Boot".toList, .object members)])

def systemOne : Text := "1".toList

theorem patchesSystem_bootPatch (members : Json.Fields Nat) :
    PatchesSystem systemOne (bootPatch members) :=
  ⟨⟨rfl, by decide⟩, rfl⟩

theorem bootWrite_bootPatch {σ : Type} (client : Outbound → σ → Except TransportError Reply × σ)
    {members : Json.Fields Nat}
    (h : Json.Fits serdeLimit (.object [("Boot".toList, .object members)])) :
    (bootPatch members).bootWrite (serdeHost client) =
      readEntries (members.map fun field => .array [.string field.1, field.2]) := by
  have hjson : (scriptRequest (bootPatch members).parts (bootPatch members).body).isJson = true := by
    rfl
  have hbody : (scriptRequest (bootPatch members).parts (bootPatch members).body).body =
    writeBody (.object [("Boot".toList, .object members)]) := rfl
  unfold Arrival.bootWrite bootWrite
  rw [hjson, hbody, bodyJson_writeBody client h]
  rfl

/-- A BMC that answers every request with this status and nothing else. -/
def statusHost (status : Nat) : Rune Nat Unit :=
  serdeHost fun _ net => (.ok { status, headers := .new, body := .ok [] }, net)

def orderAndOverride : Json.Fields Nat := [
  ("BootOrder".toList, .array [.string "Boot0001".toList]),
  ("BootSourceOverrideTarget".toList, .string "Pxe".toList)]

theorem fits_orderAndOverride : Json.Fits 3 (.object orderAndOverride) := by
  refine .object (by decide) ?_
  unfold orderAndOverride
  simp only [List.forall_mem_cons]
  exact ⟨(Json.Fits.string _).one_item, .string _, by simp⟩

theorem bootWrite_orderAndOverride (status : Nat) :
    (bootPatch orderAndOverride).bootWrite (statusHost status) = ⟨orderAndOverride, .ok ()⟩ := by
  unfold statusHost
  rw [bootWrite_bootPatch]
  · rfl
  · exact (fits_orderAndOverride.mono (show 3 ≤ 126 by decide)).one_field _

theorem storable_orderAndOverride (status : Nat) : storable (statusHost status) ScriptStore.new
    (orderKey systemOne) (.array [.string "Boot0001".toList]) = true :=
  storable_iff.mpr ⟨⟨by decide, by decide⟩, ⟨rfl, _, rfl, by decide⟩, rfl, .inl (by decide)⟩

/-- **The BMC refuses the override, and the order of the refused write is kept.** -/
theorem refused_write_keeps_order :
    PatchesSystem systemOne (bootPatch orderAndOverride) ∧
      isSuccess (serveSystem (statusHost 400) bmcTarget proxyBase (bootPatch orderAndOverride)
        ScriptStore.new ()).1.status = false ∧
      (ScriptStore.new : ScriptStore.Store (Json Nat)).entries.lookup (orderKey systemOne) = none ∧
      (serveSystem (statusHost 400) bmcTarget proxyBase (bootPatch orderAndOverride)
        ScriptStore.new ()).2.store.entries.lookup (orderKey systemOne) =
          some (.array [.string "Boot0001".toList]) := by
  have hpatch := patchesSystem_bootPatch orderAndOverride
  have hcases : (serveSystem (statusHost 400) bmcTarget proxyBase (bootPatch orderAndOverride)
      ScriptStore.new ()).2.store = _ ∧ (_ ↔ _) := serveSystem_patch_cases hpatch ScriptStore.new ()
  obtain ⟨hstore, hsuccess⟩ := hcases
  refine ⟨hpatch, ?_, rfl, ?_⟩
  · rw [Bool.eq_false_iff]
    intro h
    obtain ⟨_, _, hrelayed⟩ := hsuccess.mp h
    rw [bootWrite_orderAndOverride] at hrelayed
    rcases hrelayed with hnone | ⟨reply, hreply, htaken, _⟩
    · exact absurd hnone (by decide)
    · injection hreply with hreply
      rw [← hreply] at htaken
      exact absurd htaken (by decide)
  · have horders : (BootWrite.mk orderAndOverride (.ok ())).orders =
      [.array [.string "Boot0001".toList]] := rfl
    rw [hstore, lookup_keepAll, bootWrite_orderAndOverride, horders]
    unfold keptValue
    rw [List.takeWhile_cons, if_pos (storable_orderAndOverride 400)]
    rfl

/-- The same write, to a BMC that takes it. -/
theorem refused_write_iff_taken :
    PatchesSystem systemOne (bootPatch orderAndOverride) ∧
      (isSuccess (serveSystem (statusHost 204) bmcTarget proxyBase (bootPatch orderAndOverride)
          ScriptStore.new ()).1.status = false →
        (serveSystem (statusHost 204) bmcTarget proxyBase (bootPatch orderAndOverride)
          ScriptStore.new ()).2.store.entries.lookup (orderKey systemOne) =
            (ScriptStore.new : ScriptStore.Store (Json Nat)).entries.lookup (orderKey systemOne)) := by
  have hpatch := patchesSystem_bootPatch orderAndOverride
  refine ⟨hpatch, (refused_write_iff hpatch ScriptStore.new ()).mpr (.inr ?_)⟩
  unfold WriteLands
  rw [bootWrite_orderAndOverride]
  refine ⟨?_, rfl, .inr ⟨{ status := 204, headers := .new, body := .ok [] }, rfl, by decide, [], rfl, ?_⟩⟩
  · intro order horder
    obtain rfl : order = .array [.string "Boot0001".toList] := List.mem_singleton.mp horder
    exact storable_orderAndOverride 204
  · intro hjson
    exact absurd hjson (by decide)

end RedfishProxy.Shipped
