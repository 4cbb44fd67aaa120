import RedfishProxy.Lib.JsonFits
import RedfishProxy.Script.Shelf

/-!
# An expanded collection

`expand_collection` asks the BMC to expand and fetches the members itself where
it did not. Both ways come to the collection with the members' documents for its
`Members` and all else as it was (`expand_collection_uniform`), and a fetch that
is needed and fails ends the call.
-/

namespace RedfishProxy.Script

open Lib Http

section Expand

variable {ν V σ : Type} (host : Host ν V σ) (ctx : RequestCtx)

/-- The path of the request that asks for the members. -/
def expandQuery (path : Text) : Text :=
  path ++ (if '?' ∈ path then '&' else '?') :: "$expand=.($levels=1)".toList

/-- The `Members` of what was answered. -/
def membersOf (collection : Json ν) : List (Json ν) :=
  (collection.index "Members".toList).asArray.getD []

/-- A map of serde_json: its keys are in order, and none is there twice. -/
def IsMap (value : Json ν) : Prop :=
  ∃ fields, value = .object fields ∧ fields.Pairwise fun a b => a.1 < b.1

/-- A map that has these for its `Members`, and everything else of another. -/
structure HasMembers (members : List (Json ν)) (collection value : Json ν) : Prop where
  isMap : IsMap value
  members : value.get "Members".toList = some (.array members)
  others : ∀ key, key ≠ "Members".toList → value.get key = collection.get key

/-- What a call that succeeds did: the collection came, and either the members
came with it or each was fetched. -/
def Expands (path : Text) (world : World σ) (value : V) (last : World σ) : Prop :=
  requireAbsolute path = .ok () ∧
    ∃ collection between,
      exec (getJson host ctx (expandQuery path)) world = (.ok collection, between) ∧
        if (membersOf collection).all isExpanded = true then
          last = between ∧ toScriptValue host collection = .ok value
        else ∃ documents expanded, ExecAll (expandMember host ctx path) (membersOf collection)
            documents between last ∧ HasMembers documents collection expanded ∧
              toScriptValue host expanded = .ok value

variable {host ctx} {path : Text} {world between last : World σ}

/-! ## A collection and its members -/

theorem isMap_of_sorted {value : Json ν} (h : value.Sorted) (hobject : value.asObject.isSome) :
    IsMap value := by
  cases value with
  | object fields => exact ⟨fields, rfl, h.pairwise⟩
  | _ => cases hobject

namespace HasMembers

variable {members : List (Json ν)} {collection value : Json ν}

theorem membersOf_eq (h : HasMembers members collection value) : membersOf value = members := by
  unfold membersOf Json.index
  rw [h.members]
  rfl

/-- There is one such map. -/
theorem unique {value' : Json ν} (h : HasMembers members collection value)
    (h' : HasMembers members collection value') : value = value' := by
  obtain ⟨fields, rfl, hsorted⟩ := h.isMap
  obtain ⟨fields', rfl, hsorted'⟩ := h'.isMap
  refine congrArg Json.object (Json.Fields.ext hsorted hsorted' fun key => ?_)
  by_cases hkey : key = "Members".toList
  · subst hkey
    exact h.members.trans h'.members.symm
  · exact (h.others key hkey).trans (h'.others key hkey).symm

/-- `collection["Members"] = …` leaves everything else. -/
theorem withMembers (h : IsMap collection) (members : List (Json ν)) :
    HasMembers members collection (withMembers members collection) := by
  obtain ⟨fields, rfl, hsorted⟩ := h
  refine ⟨⟨_, rfl, Json.Fields.sorted_insert hsorted _ _⟩, ?_, fun key hkey => ?_⟩
  · exact (Json.Fields.get_insert ..).trans (if_pos rfl)
  · exact (Json.Fields.get_insert ..).trans (if_neg hkey)

/-- Other members take the place of those it has. -/
theorem replace (h : HasMembers members collection value) (others : List (Json ν)) :
    HasMembers others collection (Script.withMembers others value) := by
  obtain ⟨hmap, hmembers, hothers⟩ := withMembers h.isMap others
  exact ⟨hmap, hmembers, fun key hkey => (hothers key hkey).trans (h.others key hkey)⟩

end HasMembers

/-! ## A call -/

/-- A document that was fetched was parsed. -/
theorem fromSlice_of_exec_getJson {document : Json ν}
    (h : exec (getJson host ctx path) world = (.ok document, last)) :
    ∃ bytes, host.fromSlice bytes = .ok document := by
  cases hpath : requireAbsolute path with
  | error fault =>
      rw [exec_getJson_refused host hpath] at h
      cases h
  | ok _ =>
      rw [exec_getJson host hpath] at h
      obtain ⟨response, _, hread⟩ := bind_ok (congrArg Prod.fst h)
      unfold readJson at hread
      split at hread
      · exact ⟨response.body, mapError_ok hread⟩
      · cases hread

variable (host ctx) in
/-- What is done with the collection once it came. -/
def expandMembers (path : Text) (collection : Json ν) : Action σ V :=
  if (membersOf collection).all isExpanded = true then fromResult (toScriptValue host collection)
  else do
    let documents ← (membersOf collection).mapM (expandMember host ctx path)
    fromResult (toScriptValue host (withMembers documents collection))

theorem exec_expandCollection (hpath : requireAbsolute path = .ok ()) {collection : Json ν}
    (hquery : exec (getJson host ctx (expandQuery path)) world = (.ok collection, between)) :
    exec (expandCollection host ctx path) world =
      exec (expandMembers host ctx path collection) between := by
  unfold expandCollection
  rw [exec_bind, exec_fromResult, hpath, thenExec_ok, exec_bind]
  show thenExec _ (exec (getJson host ctx (expandQuery path)) world) = _
  rw [hquery, thenExec_ok]
  rfl

theorem exec_expandCollection_error {fault : Fault}
    (hquery : exec (getJson host ctx (expandQuery path)) world = (.error fault, last)) :
    ∃ error last', exec (expandCollection host ctx path) world = (.error error, last') := by
  unfold expandCollection
  rw [exec_bind, exec_fromResult]
  cases requireAbsolute path with
  | error error => exact ⟨error, world, rfl⟩
  | ok _ =>
      rw [thenExec_ok, exec_bind]
      refine ⟨fault, last, ?_⟩
      show thenExec _ (exec (getJson host ctx (expandQuery path)) world) = _
      rw [hquery, thenExec_error]

/-- What has a link for a member is an object: nothing else has members. -/
theorem isMap_of_links {collection : Json ν} (hsorted : collection.Sorted)
    (hlinks : ¬ (membersOf collection).all isExpanded = true) : IsMap collection := by
  refine isMap_of_sorted hsorted ?_
  cases collection with
  | object fields => rfl
  | _ => exact absurd rfl hlinks

/-- The members that were fetched stand where the links stood. -/
theorem exec_expandMembers_ok_iff {collection : Json ν} (hsorted : collection.Sorted) {value : V} :
    exec (expandMembers host ctx path collection) between = (.ok value, last) ↔
      if (membersOf collection).all isExpanded = true then
        last = between ∧ toScriptValue host collection = .ok value
      else ∃ documents expanded, ExecAll (expandMember host ctx path) (membersOf collection)
          documents between last ∧ HasMembers documents collection expanded ∧
            toScriptValue host expanded = .ok value := by
  unfold expandMembers
  split_ifs with hlinks
  · rw [exec_fromResult, Prod.mk.injEq, and_comm, eq_comm (a := between)]
  · have hmap := isMap_of_links hsorted hlinks
    constructor
    · intro h
      obtain ⟨documents, next, hall, hvalue⟩ := exec_bind_ok h
      rw [exec_fromResult, Prod.mk.injEq] at hvalue
      obtain ⟨hvalue, rfl⟩ := hvalue
      exact ⟨documents, _, exec_mapM_ok_iff.mp hall, .withMembers hmap documents, hvalue⟩
    · rintro ⟨documents, expanded, hall, hexpanded, hvalue⟩
      rw [hexpanded.unique (.withMembers hmap documents)] at hvalue
      rw [exec_bind, exec_mapM_ok_iff.mpr hall, thenExec_ok, exec_fromResult, hvalue]

/-- **A call succeeds** exactly where every fetch it needs does. -/
theorem expandCollection_ok_iff
    (hparse : ∀ bytes (value : Json ν), host.fromSlice bytes = .ok value → value.Sorted)
    {value : V} : exec (expandCollection host ctx path) world = (.ok value, last) ↔
      Expands host ctx path world value last := by
  constructor
  · intro h
    cases hpath : requireAbsolute path with
    | error fault =>
        unfold expandCollection at h
        rw [exec_bind, exec_fromResult, hpath, thenExec_error] at h
        cases h
    | ok _ =>
        cases hquery : exec (getJson host ctx (expandQuery path)) world with
        | mk result between =>
            cases result with
            | error fault =>
                obtain ⟨_, _, herror⟩ := exec_expandCollection_error hquery
                rw [herror] at h
                cases h
            | ok collection =>
                obtain ⟨bytes, hbytes⟩ := fromSlice_of_exec_getJson hquery
                rw [exec_expandCollection hpath hquery,
                  exec_expandMembers_ok_iff (hparse bytes collection hbytes)] at h
                exact ⟨hpath, collection, between, hquery, h⟩
  · rintro ⟨hpath, collection, between, hquery, h⟩
    obtain ⟨bytes, hbytes⟩ := fromSlice_of_exec_getJson hquery
    rw [exec_expandCollection hpath hquery,
      exec_expandMembers_ok_iff (hparse bytes collection hbytes)]
    exact h

variable (host ctx) in
/-- A fetch the call needs fails: that of the collection, or that of a member
after those before it were fetched. -/
inductive FetchFails (path : Text) (world : World σ) : Prop where
  | collection {fault : Fault} {last : World σ}
      (h : exec (getJson host ctx (expandQuery path)) world = (.error fault, last))
  | member {collection member : Json ν} {before after documents : List (Json ν)}
      {start between last : World σ} {fault : Fault}
      (hquery : exec (getJson host ctx (expandQuery path)) world = (.ok collection, start))
      (hshallow : (membersOf collection).all isExpanded = false)
      (hmembers : membersOf collection = before ++ member :: after)
      (hbefore : ExecAll (expandMember host ctx path) before documents start between)
      (h : exec (expandMember host ctx path member) between = (.error fault, last))

/-- And that ends the call. -/
theorem FetchFails.exec_expandCollection (h : FetchFails host ctx path world) :
    ∃ fault last, exec (expandCollection host ctx path) world = (.error fault, last) := by
  cases h with
  | collection h => exact exec_expandCollection_error h
  | member hquery hshallow hmembers hbefore h =>
      cases hpath : requireAbsolute path with
      | error fault =>
          unfold expandCollection
          rw [exec_bind, exec_fromResult, hpath]
          exact ⟨fault, world, rfl⟩
      | ok _ =>
          rw [Script.exec_expandCollection hpath hquery, expandMembers,
            if_neg (by rw [hshallow]; decide), exec_bind, hmembers, exec_mapM_error hbefore h]
          exact ⟨_, _, rfl⟩

/-! ## What a BMC may answer -/

/-- A member that is a link alone. -/
def BareLink (id : Text) (member : Json ν) : Prop :=
  ∃ fields, member = .object fields ∧
    Json.Fields.get "@odata.id".toList fields = some (.string id) ∧
      ∀ field ∈ fields, "@odata.".toList.isPrefixOf field.1 = true

theorem BareLink.not_expanded {id : Text} {member : Json ν} (h : BareLink id member) :
    isExpanded member = false := by
  obtain ⟨fields, rfl, _, hall⟩ := h
  show (fields.any fun field => !"@odata.".toList.isPrefixOf field.1) = false
  rw [List.any_eq_false]
  intro field hfield
  rw [hall field hfield]
  decide

theorem BareLink.id_eq {id : Text} {member : Json ν} (h : BareLink id member) :
    member.index "@odata.id".toList = .string id := by
  obtain ⟨fields, rfl, hget, _⟩ := h
  show (Json.Fields.get "@odata.id".toList fields).getD .null = _
  rw [hget]
  rfl

/-- The document of a member, inlined, or its link. -/
def Offers (documents : Text → Json ν) (id : Text) (member : Json ν) : Prop :=
  member = documents id ∨ BareLink id member

variable {Inv : σ → Prop} {documents : Text → Json ν} {ids : List Text} {members : List (Json ν)}

theorem expanded_of_all (hoffers : List.Forall₂ (Offers documents) ids members)
    (hall : members.all isExpanded = true) : members = ids.map documents := by
  induction hoffers with
  | nil => rfl
  | cons hoffer _ ih =>
      rw [List.all_cons, Bool.and_eq_true] at hall
      rw [List.map_cons, ih hall.2]
      rcases hoffer with rfl | hlink
      · rfl
      · rw [hlink.not_expanded] at hall
        cases hall.1

theorem forall₂_documents (hoffers : List.Forall₂ (Offers documents) ids members) :
    List.Forall₂ (fun member document => ∃ id ∈ ids, Offers documents id member ∧
      document = documents id) members (ids.map documents) := by
  induction hoffers with
  | nil => exact .nil
  | cons hoffer _ ih =>
      refine .cons ⟨_, by simp, hoffer, rfl⟩ (ih.imp ?_)
      rintro member document ⟨id, hid, h⟩
      exact ⟨id, by simp [hid], h⟩

theorem memberPath_of_urlPath {id : Text} (hurl : host.urlPath id = none)
    (hid : id.head? = some '/') : memberPath host id = .ok id := by
  cases id with
  | nil => cases hid
  | cons c rest =>
      obtain rfl : c = '/' := Option.some.inj hid
      unfold memberPath
      rw [hurl]
      rfl

/-- A member offered either way is fetched by its link. -/
theorem exec_expandMember {id : Text} {member doc : Json ν}
    (hid : member.index "@odata.id".toList = .string id)
    (hlink : memberPath host id = .ok id) (habsolute : requireAbsolute id = .ok ())
    (hserves : Serves host ctx Inv id doc) (hworld : Inv world.net) :
    ∃ next, exec (expandMember host ctx path member) world = (.ok doc, next) ∧ Inv next.net := by
  obtain ⟨next, hrun, hnext⟩ := hserves.exec_getJson habsolute hworld
  refine ⟨next, ?_, hnext⟩
  unfold expandMember
  rw [hid]
  show exec (fromResult (memberPath host id) >>= getJson host ctx) world = _
  rw [exec_bind, exec_fromResult, hlink, thenExec_ok, hrun]

theorem single_slash_of_requireAbsolute {id : Text} (h : requireAbsolute id = .ok ()) :
    id.head? = some '/' := by
  cases id with
  | nil => cases h
  | cons c rest =>
      unfold requireAbsolute at h
      split_ifs at h with habsolute
      obtain ⟨hslash, _⟩ := Bool.and_eq_true_iff.mp habsolute
      have hc : ('/' == c) = true := (Bool.and_eq_true_iff.mp hslash).1
      rw [← eq_of_beq hc, List.head?_cons]

/-- The query behind a path leaves its start as it is. -/
theorem requireAbsolute_expandQuery (h : requireAbsolute path = .ok ()) :
    requireAbsolute (expandQuery path) = .ok () := by
  have hslash := single_slash_of_requireAbsolute h
  cases path with
  | nil => cases hslash
  | cons c rest =>
      obtain rfl : c = '/' := Option.some.inj hslash
      refine requireAbsolute_ok rfl ?_
      cases rest with
      | nil => decide
      | cons d rest =>
          intro hd
          obtain rfl : d = '/' := Option.some.inj hd
          cases h

end Expand

/-! ## A BMC that answers with links -/

def systemsPath : Text := "/redfish/v1/Systems".toList

def systemOnePath : Text := "/redfish/v1/Systems/1".toList

def linkTo (id : Text) : Json Nat := .object [("@odata.id".toList, .string id)]

def systemOne : Json Nat :=
  .object [("@odata.id".toList, .string systemOnePath), ("Name".toList, .string "one".toList)]

def systemsListing : Json Nat :=
  .object [("Members".toList, .array [linkTo systemOnePath])]

def linkingShelf : List (Text × Json Nat) :=
  [(expandQuery systemsPath, systemsListing), (systemOnePath, systemOne)]

theorem fits_linkTo (id : Text) : Json.Fits 1 (linkTo id) := (Json.Fits.string id).one_field _

theorem bareLink_linkTo (id : Text) : BareLink id (linkTo id) := by
  refine ⟨_, rfl, rfl, ?_⟩
  intro field hfield
  cases List.mem_singleton.mp hfield
  rfl

theorem fits_systemsListing : Json.Fits 3 systemsListing :=
  (fits_linkTo systemOnePath).one_item.one_field _

theorem fits_systemOne : Json.Fits 1 systemOne := by
  have hkeys : ["@odata.id".toList, "Name".toList].Pairwise (· < ·) := by decide
  refine .object (List.pairwise_map.mp hkeys) ?_
  simp only [List.forall_mem_cons]
  exact ⟨.string _, .string _, nofun⟩

theorem isMap_systemsListing : IsMap systemsListing :=
  ⟨_, rfl, List.pairwise_singleton _ _⟩

end RedfishProxy.Script
