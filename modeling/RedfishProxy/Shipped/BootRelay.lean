import RedfishProxy.Script.MergePatch
import RedfishProxy.Shipped.SettingsAgree

/-!
# What a boot write relays

A `PATCH` of a system is to relay the overrides of its body, and nothing else.
The loop of `systems.rn` goes through whatever the body has at `Boot`, so it may
stop where there is nothing to relay, and may find an override in a list. What it
relays went through a Rune value, where an integer can have wrapped.

Main result:
* `relays_overrides_iff`: the bodies of which exactly the overrides are relayed.
-/

namespace RedfishProxy.Shipped

open Lib Http Script RuneHost ScriptUtil
open ScriptStore (Store)

/-! ## What it is to relay -/

section Overrides

variable {ν : Type}

/-- The overrides of a body: what the object at `Boot` has under their names, but
for a null. -/
def overridesOf (body : Json ν) : Json.Fields ν :=
  match body.get "Boot".toList with
  | some (.object fields) => fields.filter fun field => isOverride field.1 && !isNull field.2
  | _ => []

/-- The `PATCH` requests of a record. -/
def patchesIn (record : List Exchanged) : List Outbound :=
  (record.map Exchanged.outbound).filter fun outbound => outbound.method = .PATCH

end Overrides

section Relay

variable {ν σ : Type} (host : Rune ν σ) (target : SocketAddrV4) (base : Base)

/-- The bytes are a document that is written: whoever parses them has it, with its
numbers as they are read again. -/
def IsWritten (bytes : List UInt8) (document : Json ν) : Prop :=
  host.fromSlice bytes = .ok (document.mapNumbers host.reread)

/-- The body of a `PATCH` with these overrides. -/
def overrideDocument (overrides : Json.Fields ν) : Json ν :=
  .ofFields [("Boot".toList, .object overrides)]

/-- The BMC gets the overrides in one `PATCH` of the system, and the caller is
told that all is done where there are none. -/
structure RelaysOverrides (system : Text) (arrival : Arrival) (body : Json ν)
    (store : Store (Json ν)) (net : σ) : Prop where
  relayed : overridesOf body ≠ [] →
    ∃ bytes, IsWritten host bytes (overrideDocument (overridesOf body)) ∧
      patchesIn (serveSystem host.recorded target base arrival store (net, [])).2.world.net.2 =
        [helperOutbound (arrival.ctx target base) .PATCH (systemPath system) (some bytes)]
  dropped : overridesOf body = [] →
    patchesIn (serveSystem host.recorded target base arrival store (net, [])).2.world.net.2 = [] ∧
      (serveSystem host.recorded target base arrival store (net, [])).1.status = 204

/-! ## When it is done -/

/-- The loop takes the entry of a list for a member that it neither relays nor
fails to keep. -/
def PassesEntry (store : Store (Json ν)) (key : Text) (entry : Json ν) : Prop :=
  ∃ name value rest, entry = .array (name :: value :: rest) ∧
    (value = .null ∨ ∃ text, name = .string text ∧ isOverride text = false ∧
      (isOrder text = true → Storable host store key value))

/-- What the loop gets through, with nothing relayed but the members of an object. -/
def PassesBoot (store : Store (Json ν)) (key : Text) : Json ν → Prop
  | .object fields => ∀ order, Json.Fields.get "BootOrder".toList fields = some order →
      isNull order = false → Storable host store key order
  | .array entries => ∀ entry ∈ entries, PassesEntry host store key entry
  | .null => host.unitLoops = true
  | _ => False

/-- The same of a body, which may have no `Boot` at all. -/
def PassesBody (store : Store (Json ν)) (key : Text) (body : Json ν) : Prop :=
  ∀ boot, body.get "Boot".toList = some boot → PassesBoot host store key boot

/-- No number of the overrides is an integer that wraps: as a Rune value has it,
it is written as it came. -/
def KeepsNumbers (body : Json ν) : Prop :=
  ∀ n ∈ (overrideDocument (overridesOf body)).numbers,
    host.reread (host.asRune n) = host.reread n

/-- The loop comes to its end, and every order is kept. -/
def Finishes (store : Store (Json ν)) (key : Text) (write : BootWrite ν) : Prop :=
  (∀ order ∈ write.orders, storable host store key order = true) ∧ write.ended = .ok ()

end Relay

/-! ## What is collected -/

section Collected

variable {ν : Type}

theorem count_foldl_add (members : List (Text × Json ν)) (taken : Taken ν) :
    (members.foldl Taken.add taken).count =
      taken.count + members.countP fun member => isOverride member.1 := by
  induction members generalizing taken with
  | nil => rfl
  | cons member members ih =>
      rw [List.foldl_cons, ih, List.countP_cons]
      unfold Taken.add
      cases isOverride member.1 with
      | true => simp only [if_true]; omega
      | false => simp

theorem boot_foldl_add (members : List (Text × Json ν)) (taken : Taken ν) :
    (members.foldl Taken.add taken).boot =
      (members.filter fun member => isOverride member.1).foldl
        (fun map field => Json.Fields.insert field.1 field.2 map) taken.boot := by
  induction members generalizing taken with
  | nil => rfl
  | cons member members ih =>
      rw [List.foldl_cons, ih, List.filter_cons]
      unfold Taken.add
      cases isOverride member.1 with
      | true => rfl
      | false => rfl

theorem BootWrite.count_taken (write : BootWrite ν) :
    write.taken.count = write.members.countP fun member => isOverride member.1 := by
  unfold BootWrite.taken
  rw [count_foldl_add]
  exact Nat.zero_add _

/-- Nothing is collected of members that are no overrides. -/
theorem BootWrite.count_taken_eq_zero (write : BootWrite ν) :
    write.taken.count = 0 ↔ ∀ member ∈ write.members, isOverride member.1 = false := by
  rw [write.count_taken, List.countP_eq_zero]
  simp only [Bool.not_eq_true]

/-- The pairs of an object are its members without the nulls. -/
theorem readEntries_pairs (fields : List (Text × Json ν)) :
    readEntries (fields.map fun field => .array [.string field.1, field.2]) =
      ⟨fields.filter fun field => !isNull field.2, .ok ()⟩ := by
  induction fields with
  | nil => rfl
  | cons field fields ih =>
      obtain ⟨name, value⟩ := field
      rw [List.map_cons, readEntries, ih]
      cases value with
      | null => rfl
      | bool b => rfl
      | number n => rfl
      | string text => rfl
      | array items => rfl
      | object fields => rfl

/-- An entry that is read has a first and a second place. -/
theorem readEntry_eq_some {entry : Json ν} {read : Option (Text × Json ν)}
    (h : readEntry entry = some read) : ∃ name value rest, entry = .array (name :: value :: rest) ∧
      (value = .null ∧ read = none ∨
        isNull value = false ∧ ∃ text, name = .string text ∧ read = some (text, value)) := by
  obtain ⟨name, value, rest, rfl⟩ : ∃ name value rest, entry = .array (name :: value :: rest) := by
    cases entry with
    | array items =>
        rcases items with _ | ⟨name, _ | ⟨value, rest⟩⟩
        · cases h
        · cases h
        · exact ⟨name, value, rest, rfl⟩
    | null => cases h
    | bool b => cases h
    | number n => cases h
    | string text => cases h
    | object fields => cases h
  refine ⟨name, value, rest, rfl, ?_⟩
  cases hnull : isNull value with
  | true =>
      obtain rfl : value = .null := by
        cases value with
        | null => rfl
        | _ => cases hnull
      exact .inl ⟨rfl, (Option.some.inj h).symm⟩
  | false =>
      have hread : readEntry (.array (name :: value :: rest)) =
          (Json.asStr name).map fun text => some (text, value) := by
        cases value with
        | null => cases hnull
        | _ => rfl
      rw [hread] at h
      obtain ⟨text, htext, rfl⟩ := Option.map_eq_some_iff.mp h
      refine .inr ⟨rfl, text, ?_, rfl⟩
      cases name with
      | string name => exact congrArg Json.string (Option.some.inj htext)
      | _ => cases htext

end Collected

/-! ## The shapes of a `Boot` -/

section Shapes

variable {ν σ : Type} {host : Rune ν σ} {store : Store (Json ν)} {key : Text}

/-- What the loop reads of a `Boot`. -/
def readBoot (host : Rune ν σ) (boot : Json ν) : BootWrite ν :=
  match entriesOf host boot with
  | none => ⟨[], .error .vm⟩
  | some entries => readEntries entries

theorem passesEntry_iff (entry : Json ν) : PassesEntry host store key entry ↔
    ∃ read, readEntry entry = some read ∧ ∀ member, read = some member →
      isOverride member.1 = false ∧ (isOrder member.1 = true → Storable host store key member.2) := by
  constructor
  · rintro ⟨name, value, rest, rfl, rfl | ⟨text, rfl, hname, horder⟩⟩
    · exact ⟨none, rfl, fun member hmember => nomatch hmember⟩
    · cases hnull : isNull value with
      | true =>
          refine ⟨none, ?_, fun member hmember => nomatch hmember⟩
          cases value with
          | null => rfl
          | _ => cases hnull
      | false =>
          refine ⟨some (text, value), ?_, ?_⟩
          · cases value with
            | null => cases hnull
            | _ => rfl
          · intro member hmember
            obtain rfl := Option.some.inj hmember
            exact ⟨hname, horder⟩
  · rintro ⟨read, hread, hmember⟩
    obtain ⟨name, value, rest, rfl, ⟨rfl, rfl⟩ | ⟨_, text, rfl, rfl⟩⟩ := readEntry_eq_some hread
    · exact ⟨name, .null, rest, rfl, .inl rfl⟩
    · obtain ⟨hname, horder⟩ := hmember _ rfl
      exact ⟨.string text, value, rest, rfl, .inr ⟨text, rfl, hname, horder⟩⟩

theorem isOrder_iff (name : Text) : isOrder name = true ↔ name = "BootOrder".toList :=
  beq_iff_eq

theorem finishes_iff (write : BootWrite ν) : Finishes host store key write ↔
    (∀ member ∈ write.members, isOrder member.1 = true → Storable host store key member.2) ∧
      write.ended = .ok () := by
  unfold Finishes BootWrite.orders
  refine and_congr_left fun _ => ⟨?_, ?_⟩
  · intro horders member hmember horder
    refine storable_iff.mp (horders member.2 (List.mem_filterMap.mpr ⟨member, hmember, ?_⟩))
    rw [if_pos horder]
  · intro hmembers order horder
    obtain ⟨member, hmember, hvalue⟩ := List.mem_filterMap.mp horder
    split at hvalue
    · rename_i hname
      obtain rfl := Option.some.inj hvalue
      exact storable_iff.mpr (hmembers member hmember hname)
    · cases hvalue

/-- **A list is gone through, with nothing to relay, when each entry passes.** -/
theorem finishes_readEntries (entries : List (Json ν)) :
    Finishes host store key (readEntries entries) ∧ (readEntries entries).taken.count = 0 ↔
      ∀ entry ∈ entries, PassesEntry host store key entry := by
  rw [finishes_iff, BootWrite.count_taken_eq_zero]
  induction entries with
  | nil => simp [readEntries]
  | cons entry entries ih =>
      rw [List.forall_mem_cons, ← ih, passesEntry_iff, readEntries]
      cases hread : readEntry entry with
      | none => simp
      | some read =>
          cases read with
          | none => simp
          | some member =>
              simp only [List.forall_mem_cons, Option.some.injEq, exists_eq_left', forall_eq']
              tauto

/-- The members that are read of an object. -/
theorem readBoot_object (fields : Json.Fields ν) : readBoot host (.object fields) =
    ⟨(host.order fields).filter fun field => !isNull field.2, .ok ()⟩ := by
  unfold readBoot
  rw [entriesOf]
  exact readEntries_pairs _

/-- **An object is gone through when its order is kept.** -/
theorem finishes_object {fields : Json.Fields ν} (hsorted : fields.Pairwise fun a b => a.1 < b.1) :
    Finishes host store key (readBoot host (.object fields)) ↔
      PassesBoot host store key (.object fields) := by
  have hmem : ∀ field : Text × Json ν, field ∈ host.order fields ↔ field ∈ fields := fun _ =>
    (host.order_perm fields).mem_iff
  rw [finishes_iff, readBoot_object, PassesBoot]
  simp only [List.mem_filter, and_true, hmem]
  constructor
  · intro hmembers order hget hnull
    exact hmembers _ ⟨Json.Fields.mem_of_get hget, by rw [hnull]; rfl⟩ ((isOrder_iff _).mpr rfl)
  · rintro hkept ⟨name, value⟩ ⟨hfield, hnull⟩ hname
    obtain rfl := (isOrder_iff name).mp hname
    exact hkept value (Json.Fields.get_of_mem hsorted hfield) (by simpa using hnull)

/-- **Anything else is gone through when it is a list of such entries**, or a unit
value that is taken for one. -/
theorem finishes_plain {boot : Json ν} (h : boot.asObject = none) :
    Finishes host store key (readBoot host boot) ∧ (readBoot host boot).taken.count = 0 ↔
      PassesBoot host store key boot := by
  have hstops : ∀ stop : Stop, ¬ (Finishes host store key (⟨[], .error stop⟩ : BootWrite ν) ∧
      (⟨[], .error stop⟩ : BootWrite ν).taken.count = 0) := by
    rintro stop ⟨⟨-, hended⟩, -⟩
    cases hended
  cases boot with
  | array entries => exact finishes_readEntries entries
  | null =>
      unfold readBoot entriesOf PassesBoot
      cases host.unitLoops with
      | true => exact iff_of_true ⟨⟨by simp [readEntries, BootWrite.orders], rfl⟩, rfl⟩ rfl
      | false => exact iff_of_false (hstops .vm) Bool.false_ne_true
  | bool b => exact iff_of_false (hstops .vm) id
  | number n => exact iff_of_false (hstops .vm) id
  | string text => exact iff_of_false (hstops .vm) id
  | object fields => cases h

variable (host) in
/-- **What is collected of an object are its overrides**, whatever order they come in. -/
theorem taken_object {fields : Json.Fields ν} (hsorted : fields.Pairwise fun a b => a.1 < b.1) :
    let overrides := fields.filter fun field => isOverride field.1 && !isNull field.2
    (readBoot host (.object fields)).taken = ⟨overrides, overrides.length⟩ := by
  intro overrides
  have hperm : ((readBoot host (.object fields)).members.filter
      fun member => isOverride member.1).Perm overrides := by
    rw [readBoot_object, List.filter_filter]
    exact (host.order_perm fields).filter _
  have hboot : (readBoot host (.object fields)).taken.boot = overrides := by
    unfold BootWrite.taken
    rw [boot_foldl_add]
    exact Json.Fields.foldl_insert_of_perm (hsorted.filter _) hperm
  have hcount : (readBoot host (.object fields)).taken.count = overrides.length := by
    rw [BootWrite.count_taken, List.countP_eq_length_filter]
    exact hperm.length_eq
  rw [← hcount]
  exact congrArg (Taken.mk · _) hboot

end Shapes

/-! ## The numbers -/

section Numbers

variable {ν σ : Type} (host : Rune ν σ)

theorem isNull_scriptValue (value : Json ν) : isNull (host.scriptValue value) = isNull value := by
  cases value <;> rfl

/-- A script reads the same overrides, but for the numbers. -/
theorem overridesOf_scriptValue (body : Json ν) : overridesOf (host.scriptValue body) =
    (overridesOf body).map fun field => (field.1, host.scriptValue field.2) := by
  unfold overridesOf
  rw [get_scriptValue]
  cases body.get "Boot".toList with
  | none => rfl
  | some boot =>
      cases boot with
      | object fields =>
          rw [Option.map_some, scriptValue_object]
          simp only [List.filter_map, Function.comp_def, isNull_scriptValue]
      | array items =>
          rw [Option.map_some, scriptValue_array]
          rfl
      | null => rfl
      | bool b => rfl
      | number n => rfl
      | string text => rfl

theorem overrideDocument_scriptValue (body : Json ν) :
    overrideDocument (overridesOf (host.scriptValue body)) =
      host.scriptValue (overrideDocument (overridesOf body)) := by
  have hone : ∀ overrides : Json.Fields ν, overrideDocument overrides =
      .object [("Boot".toList, .object overrides)] := fun _ => rfl
  rw [overridesOf_scriptValue, hone, hone, scriptValue_object, List.map_cons, List.map_nil,
    scriptValue_object]

/-- **What a script writes are the overrides when no number of them wraps.** -/
theorem isWritten_encoded_iff {body : Json ν}
    (h : Json.Fits host.limit (overrideDocument (overridesOf (host.scriptValue body)))) :
    IsWritten host (encoded host (overrideDocument (overridesOf (host.scriptValue body))))
        (overrideDocument (overridesOf body)) ↔ KeepsNumbers host body := by
  obtain ⟨bytes, hbytes, hread⟩ := host.scriptToVec_ok _ h
  have hencoded :
      encoded host (overrideDocument (overridesOf (host.scriptValue body))) = bytes := by
    unfold encoded
    rw [hbytes]
  unfold IsWritten KeepsNumbers
  rw [hencoded, hread, Except.ok.injEq, overrideDocument_scriptValue, Rune.scriptValue,
    Json.mapNumbers_mapNumbers, Json.mapNumbers_eq_iff]

end Numbers

/-! ## The run -/

section Run

variable {ν σ : Type} {host : Rune ν σ} {target : SocketAddrV4} {base : Base}
  {system : Text} {arrival : Arrival} {body : Json ν}

/-- What is read of a body, which may have no `Boot`. -/
theorem bootWrite_of_body (hjson : (scriptRequest arrival.parts arrival.body).isJson = true)
    (hbody : host.scriptFromSlice arrival.body = .ok body) : arrival.bootWrite host =
      (body.get "Boot".toList).elim ⟨[], .ok ()⟩ (readBoot host) := by
  have hread : bodyJson host.toHost (scriptRequest arrival.parts arrival.body).body
      "request".toList = .ok body := bodyJson_of_scriptFromSlice hbody
  have hboot : valueAt body "Boot".toList = body.get "Boot".toList :=
    valueAt_of_key (by decide) (by decide) body
  unfold Arrival.bootWrite bootWrite
  rw [if_pos hjson, hread]
  simp only [hboot]
  cases body.get "Boot".toList <;> rfl

/-- Of a body that cannot be parsed, only that. -/
theorem bootWrite_of_error (hjson : (scriptRequest arrival.parts arrival.body).isJson = true)
    {complaint : Complaint} (hbody : host.fromSlice arrival.body = .error complaint) :
    arrival.bootWrite host = ⟨[], .error (.error
      [.lit "request body is not valid JSON: ".toList, .complaint complaint])⟩ := by
  have hread : bodyJson host.toHost (scriptRequest arrival.parts arrival.body).body
      "request".toList = .error
        [.lit "request body is not valid JSON: ".toList, .complaint complaint] := by
    show (host.scriptFromSlice arrival.body).mapError _ = _
    rw [scriptFromSlice_of_error hbody]
    rfl
  unfold Arrival.bootWrite bootWrite
  rw [if_pos hjson, hread]

variable (host) in
/-- The record of a write: one request, or none if nothing was collected. -/
theorem patchesIn_bootNet (ctx : RequestCtx) (taken : Taken ν) (net : σ) :
    patchesIn (bootNet host.recorded ctx system taken (net, [])).2 =
      if taken.count = 0 then [] else [overrideOutbound host ctx system taken.boot] := by
  unfold bootNet
  split
  · rfl
  · rfl

variable (host target base) in
/-- **A write that finishes is relayed if there is anything collected.** Any other
is a 502, of which the BMC hears nothing. -/
theorem serveSystem_relays (h : PatchesSystem system arrival) (store : Store (Json ν)) (net : σ) :
    let write := arrival.bootWrite host
    let run := serveSystem host.recorded target base arrival store (net, [])
    (Finishes host store (orderKey system) write ∧
        patchesIn run.2.world.net.2 = (if write.taken.count = 0 then [] else
          [overrideOutbound host (arrival.ctx target base) system write.taken.boot]) ∧
        (write.taken.count = 0 → run.1.status = 204)) ∨
      (¬ Finishes host store (orderKey system) write ∧ patchesIn run.2.world.net.2 = [] ∧
        run.1.status = 502) := by
  obtain ⟨-, hrun⟩ := serveSystem_patch_run host.recorded target base h store (net, [])
  simp only [bootWrite_recorded, storable_recorded] at hrun
  generalize serveSystem host.recorded target base arrival store (net, []) = run at hrun ⊢
  intro write run
  rcases hrun with ⟨hkept, hended, hstatus, hnet⟩ | ⟨hnot, hstatus, hnet⟩
  · refine .inl ⟨⟨hkept, hended⟩, ?_, fun hnone => ?_⟩
    · rw [hnet, patchesIn_bootNet]
    · rw [hstatus]
      exact if_pos hnone
  · exact .inr ⟨hnot, by rw [hnet]; rfl, hstatus⟩

/-- A write that does not finish is answered as no write is to be. -/
theorem RelaysOverrides.finishes {store : Store (Json ν)} {net : σ}
    (hrelays : RelaysOverrides host target base system arrival body store net)
    (h : PatchesSystem system arrival) :
    Finishes host store (orderKey system) (arrival.bootWrite host) := by
  have hrun := serveSystem_relays host target base h store net
  dsimp only at hrun
  rcases hrun with ⟨hfinishes, -⟩ | ⟨_, hsent, hstatus⟩
  · exact hfinishes
  · exfalso
    by_cases hnone : overridesOf body = []
    · exact absurd (hstatus.symm.trans (hrelays.dropped hnone).2) (by decide)
    · obtain ⟨bytes, _, hone⟩ := hrelays.relayed hnone
      rw [hsent] at hone
      cases hone

/-- Where the overrides are what is collected, it takes the end of the loop, and
numbers that are written as they came. -/
theorem relays_of_taken (h : PatchesSystem system arrival) (store : Store (Json ν)) (net : σ)
    (hsome : overridesOf body ≠ [] → (arrival.bootWrite host).taken.count ≠ 0 ∧
      (arrival.bootWrite host).taken.boot = overridesOf (host.scriptValue body)) :
    RelaysOverrides host target base system arrival body store net ↔
      Finishes host store (orderKey system) (arrival.bootWrite host) ∧
        (overridesOf body = [] → (arrival.bootWrite host).taken.count = 0) ∧
        KeepsNumbers host body := by
  have hrun := serveSystem_relays host target base h store net
  dsimp only at hrun
  rcases hrun with ⟨hfinishes, hsent, hstatus⟩ | ⟨hnot, -⟩
  · by_cases hnone : overridesOf body = []
    · have hnumbers : KeepsNumbers host body := by
        intro n hn
        rw [hnone] at hn
        cases hn
      constructor
      · intro hrelays
        refine ⟨hfinishes, fun _ => ?_, hnumbers⟩
        by_contra hcount
        have hempty := (hrelays.dropped hnone).1
        rw [hsent, if_neg hcount] at hempty
        cases hempty
      · rintro ⟨-, hzero, -⟩
        refine ⟨fun hne => absurd hnone hne, fun _ => ?_⟩
        exact ⟨by rw [hsent, if_pos (hzero hnone)], hstatus (hzero hnone)⟩
    · -- one `PATCH` goes out, with what the script wrote
      obtain ⟨hcount, hboot⟩ := hsome hnone
      have hfits : Json.Fits host.limit
          (overrideDocument (overridesOf (host.scriptValue body))) := by
        rw [← hboot]
        exact fits_taken _
      have hwritten := isWritten_encoded_iff host hfits
      rw [if_neg hcount, hboot] at hsent
      constructor
      · intro hrelays
        obtain ⟨bytes, hbytes, hone⟩ := hrelays.relayed hnone
        have hsame := congrArg Outbound.body (List.cons.inj (hsent.symm.trans hone)).1
        obtain rfl := Option.some.inj hsame
        exact ⟨hfinishes, fun hempty => absurd hempty hnone, hwritten.mp hbytes⟩
      · rintro ⟨-, -, hnumbers⟩
        exact ⟨fun _ => ⟨_, hwritten.mpr hnumbers, hsent⟩, fun hempty => absurd hempty hnone⟩
  · exact iff_of_false (fun hrelays => hnot (hrelays.finishes h)) fun hfinishes => hnot hfinishes.1

/-- A script has an object sorted. -/
theorem sorted_boot {bytes : List UInt8} {fields : Json.Fields ν}
    (hread : host.scriptFromSlice bytes = .ok body)
    (hboot : body.get "Boot".toList = some (.object fields)) :
    fields.Pairwise fun a b => a.1 < b.1 := by
  obtain ⟨d, hd⟩ : ∃ d, host.limit = d + 1 := ⟨host.limit - 1, by
    have := host.limit_ge
    omega⟩
  have hfits := fits_of_scriptFromSlice hread
  rw [hd] at hfits
  exact (hfits.get hboot).sorted

/-- What is collected of a body with overrides is them. -/
theorem taken_of_read (hjson : (scriptRequest arrival.parts arrival.body).isJson = true)
    (hread : host.scriptFromSlice arrival.body = .ok body) (hsome : overridesOf body ≠ []) :
    (arrival.bootWrite host).taken = ⟨overridesOf body, (overridesOf body).length⟩ := by
  obtain ⟨fields, hboot⟩ : ∃ fields, body.get "Boot".toList = some (.object fields) := by
    unfold overridesOf at hsome
    split at hsome
    · rename_i fields hboot
      exact ⟨fields, hboot⟩
    · exact absurd rfl hsome
  have hoverrides : overridesOf body =
      fields.filter fun field => isOverride field.1 && !isNull field.2 := by
    unfold overridesOf
    rw [hboot]
  rw [bootWrite_of_body hjson hread, hboot, hoverrides]
  exact taken_object host (sorted_boot hread hboot)

/-- **The loop gets through a body that passes**, and through no other with nothing
collected that is no override. -/
theorem finishes_of_read (hjson : (scriptRequest arrival.parts arrival.body).isJson = true)
    (hread : host.scriptFromSlice arrival.body = .ok body) (store : Store (Json ν)) :
    Finishes host store (orderKey system) (arrival.bootWrite host) ∧
        (overridesOf body = [] → (arrival.bootWrite host).taken.count = 0) ↔
      PassesBody host store (orderKey system) body := by
  have hwrite := bootWrite_of_body hjson hread
  unfold PassesBody
  cases hboot : body.get "Boot".toList with
  | none =>
      rw [hboot] at hwrite
      rw [hwrite]
      simp [finishes_iff, BootWrite.count_taken]
  | some boot =>
      rw [hboot] at hwrite
      have hwrite : arrival.bootWrite host = readBoot host boot := hwrite
      simp only [Option.some.injEq, forall_eq']
      cases boot with
      | object fields =>
          have hsorted := sorted_boot hread hboot
          have hoverrides : overridesOf body =
              fields.filter fun field => isOverride field.1 && !isNull field.2 := by
            unfold overridesOf
            rw [hboot]
          have htaken := taken_object host hsorted
          dsimp only at htaken
          rw [← hoverrides] at htaken
          rw [hwrite, htaken, finishes_object hsorted]
          exact and_iff_left fun hnone => by rw [hnone]; rfl
      | _ =>
          have hnone : overridesOf body = [] := by
            unfold overridesOf
            rw [hboot]
          rw [hwrite]
          simp only [hnone, true_imp_iff]
          exact finishes_plain rfl

/-- A body that is parsed has its overrides relayed when the loop gets through its
`Boot`, with no override in a list, and no number wraps. -/
theorem relays_parsed_iff (h : PatchesSystem system arrival)
    (hjson : (scriptRequest arrival.parts arrival.body).isJson = true)
    (hbody : host.fromSlice arrival.body = .ok body) (store : Store (Json ν)) (net : σ) :
    RelaysOverrides host target base system arrival body store net ↔
      PassesBody host store (orderKey system) (host.scriptValue body) ∧
        KeepsNumbers host body := by
  have hread := scriptFromSlice_of_fromSlice hbody
  -- the script has an override where the body has one
  have hempty : overridesOf body = [] ↔ overridesOf (host.scriptValue body) = [] := by
    rw [overridesOf_scriptValue, List.map_eq_nil_iff]
  rw [relays_of_taken h store net, ← and_assoc, hempty, finishes_of_read hjson hread]
  intro hsome
  have hsome' := mt hempty.mpr hsome
  rw [taken_of_read hjson hread hsome']
  exact ⟨fun hlength => hsome' (List.length_eq_zero_iff.mp hlength), rfl⟩

/-- **Exactly the overrides of a body are relayed when it can be parsed, the loop
gets through its `Boot`, and no number of theirs wraps.** -/
theorem relays_overrides_iff (h : PatchesSystem system arrival)
    (hjson : (scriptRequest arrival.parts arrival.body).isJson = true)
    (hbody : ∀ value, host.fromSlice arrival.body = .ok value → value = body)
    (store : Store (Json ν)) (net : σ) :
    RelaysOverrides host target base system arrival body store net ↔
      host.fromSlice arrival.body = .ok body ∧
        PassesBody host store (orderKey system) (host.scriptValue body) ∧
        KeepsNumbers host body := by
  cases hparse : host.fromSlice arrival.body with
  | error complaint =>
      refine iff_of_false (fun hrelays => ?_) fun hparsed => nomatch hparsed.1
      have hended := (hrelays.finishes h).2
      rw [bootWrite_of_error hjson hparse] at hended
      cases hended
  | ok value =>
      obtain rfl := hbody value hparse
      rw [relays_parsed_iff h hjson hparse store net]
      simp

end Run

/-! ## A `Boot` of its own kind -/

/-- A `PATCH` of system 1 with this for its `Boot`. -/
def bootWith (boot : Json Nat) : Arrival :=
  { bootPatch [] with body := writeBody (.object [("Boot".toList, boot)]) }

theorem fromSlice_bootWith {boot : Json Nat} {d : Nat} (hfits : Json.Fits d boot) (hd : d < 127)
    (status : Nat) : (statusHost status).fromSlice (bootWith boot).body =
      .ok (.object [("Boot".toList, boot)]) :=
  parseBody_writeBody ((hfits.mono (Nat.le_of_lt_succ hd)).one_field _)

/-- **A `Boot` that is a text has no override, and its `PATCH` is a 502.** -/
theorem not_relays_text :
    PatchesSystem systemOne (bootWith (.string "Pxe".toList)) ∧
      (scriptRequest (bootWith (.string "Pxe".toList)).parts
        (bootWith (.string "Pxe".toList)).body).isJson = true ∧
      (statusHost 204).fromSlice (bootWith (.string "Pxe".toList)).body =
        .ok (.object [("Boot".toList, .string "Pxe".toList)]) ∧
      ¬ RelaysOverrides (statusHost 204) bmcTarget proxyBase systemOne
        (bootWith (.string "Pxe".toList)) (.object [("Boot".toList, .string "Pxe".toList)])
        ScriptStore.new () := by
  have hpatch : PatchesSystem systemOne (bootWith (.string "Pxe".toList)) :=
    ⟨⟨rfl, by decide⟩, rfl⟩
  have hbody := fromSlice_bootWith (.string "Pxe".toList) (show 0 < 127 by omega) 204
  refine ⟨hpatch, rfl, hbody, fun hrelays => ?_⟩
  -- the loop does not get through a text
  have hpasses := ((relays_parsed_iff hpatch rfl hbody ScriptStore.new ()).mp hrelays).1
  exact hpasses (.string "Pxe".toList) rfl

/-- An order and an override, next to each other. -/
theorem relays_overrides_both : RelaysOverrides (statusHost 204) bmcTarget proxyBase systemOne
    (bootWith (.object orderAndOverride)) (.object [("Boot".toList, .object orderAndOverride)])
    ScriptStore.new () := by
  have hbody := fromSlice_bootWith fits_orderAndOverride (show 3 < 127 by omega) 204
  refine (relays_overrides_iff ⟨⟨rfl, by decide⟩, rfl⟩ rfl
    (fun value hvalue => Except.ok.inj (hvalue.symm.trans hbody)) _ ()).mpr ⟨hbody, ?_, ?_⟩
  · rw [show (statusHost 204).scriptValue _ = _ from scriptValue_serdeHost _ _]
    intro boot hboot
    obtain rfl : .object orderAndOverride = boot := Option.some.inj hboot
    intro order horder _
    obtain rfl : .array [.string "Boot0001".toList] = order := Option.some.inj horder
    exact storable_iff.mp (storable_orderAndOverride 204)
  · -- a number is kept as it is
    intro n _
    rfl

end RedfishProxy.Shipped
