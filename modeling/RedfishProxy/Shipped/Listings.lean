import RedfishProxy.Shipped.Routing
import RedfishProxy.Shipped.Settings

/-!
# The collections the proxy makes up

Where the table has them and their members, and what the path of a member is
like.

Main results:
* `routeOf_under`: a path beneath a collection is routed to the script of the members.
* `shape_of_globMatches`: the paths at which such a collection is.
-/

namespace RedfishProxy.Shipped

open Lib Http Config Script RuneHost ScriptUtil
open PathGlob (globMatches globsOverlap segmentsMatch segmentsMatch_append)

/-- A collection whose members keep nothing. -/
inductive Listing where
  | ethernetInterfaces
  | serialInterfaces
  | bootOptions
  | devices
  | accounts
  deriving DecidableEq

namespace Listing

def script : Listing → ShippedScript
  | ethernetInterfaces => .managerEthernetInterfaces
  | serialInterfaces => .serialInterfaces
  | bootOptions => .bootOptions
  | devices => .pcieDevices
  | accounts => .accounts

/-- The script of the members. -/
def member : Listing → ShippedScript
  | ethernetInterfaces => .managerEthernetInterface
  | serialInterfaces => .serialInterface
  | bootOptions => .bootOption
  | devices => .pcieDevice
  | accounts => .account

/-- Where the table has it. -/
def pattern : Listing → String
  | ethernetInterfaces => "/redfish/v1/Managers/*/EthernetInterfaces"
  | serialInterfaces => "/redfish/v1/Managers/*/SerialInterfaces"
  | bootOptions => "/redfish/v1/Systems/*/BootOptions"
  | devices => "/redfish/v1/Chassis/*/PCIeDevices"
  | accounts => "/redfish/v1/AccountService/Accounts"

def memberPattern (listing : Listing) : String := listing.pattern ++ "/*"

def all : List Listing := [ethernetInterfaces, serialInterfaces, bootOptions, devices, accounts]

theorem mem_all (listing : Listing) : listing ∈ all := by
  cases listing <;> decide

end Listing

/-! ## Routes -/

/-- The script of a path. -/
def routeOf (path : Text) : ShippedScript :=
  match shippedTable.find? fun entry => globMatches entry.1.toList path with
  | some entry => entry.2
  | none => .passthrough

theorem scriptFor_eq (path : Text) : scriptFor path = (routeOf path).file := by
  have hfind : (shippedRoutes.find? fun route => globMatches route.path path) =
      (shippedTable.find? fun entry => globMatches entry.1.toList path).map _ :=
    List.find?_map
  unfold scriptFor routeOf
  rw [hfind]
  cases shippedTable.find? fun entry => globMatches entry.1.toList path <;> rfl

/-- Two scripts do not share a file. -/
theorem file_injective {script script' : ShippedScript} (h : script.file = script'.file) :
    script = script' := by
  have hunit := unitFor_file script
  rw [h, unitFor_file script'] at hunit
  exact (Option.some.inj hunit).symm

/-- The table has a collection at one pattern, its members at another, and nothing
else where the members are. -/
theorem shippedTable_listings : ∀ listing ∈ Listing.all,
    (∀ entry ∈ shippedTable, entry.2 = listing.script → entry.1 = listing.pattern) ∧
      (listing.memberPattern, listing.member) ∈ shippedTable ∧
      ∀ entry ∈ shippedTable, globsOverlap entry.1.toList listing.memberPattern.toList = true →
        entry.2 = listing.member := by
  decide +kernel

variable {listing : Listing} {path : Text}

theorem globMatches_of_routeOf (h : routeOf path = listing.script) :
    globMatches listing.pattern.toList path = true := by
  unfold routeOf at h
  cases hfind : shippedTable.find? fun entry => globMatches entry.1.toList path with
  | none =>
      rw [hfind] at h
      cases listing <;> cases h
  | some entry =>
      rw [hfind] at h
      have hpattern := (shippedTable_listings listing listing.mem_all).1 entry
        (List.mem_of_find?_eq_some hfind) h
      rw [← hpattern]
      simpa using List.find?_some hfind

theorem routeOf_of_globMatches (h : globMatches listing.memberPattern.toList path = true) :
    routeOf path = listing.member := by
  obtain ⟨_, hmember, halone⟩ := shippedTable_listings listing listing.mem_all
  unfold routeOf
  cases hfind : shippedTable.find? fun entry => globMatches entry.1.toList path with
  | none =>
      have hnone := List.find?_eq_none.mp hfind _ hmember
      simp only [h, not_true_eq_false] at hnone
  | some entry =>
      have hmatch : globMatches entry.1.toList path = true := by simpa using List.find?_some hfind
      -- the first match overlaps with the members, and only theirs does
      exact halone entry (List.mem_of_find?_eq_some hfind)
        (PathGlob.globsOverlap_of_matches hmatch h)

/-- The path of a member. -/
def under (path id : Text) : Text := path ++ '/' :: id

theorem splitOn_under {id : Text} (h : '/' ∉ id) :
    (under path id).splitOn '/' = path.splitOn '/' ++ [id] := by
  unfold under
  rw [List.splitOn_append_cons_self, List.splitOn_eq_singleton h]

/-- **A link is routed** to the script of the members. -/
theorem routeOf_under (hpath : globMatches listing.pattern.toList path = true) {id : Text}
    (hid : '/' ∉ id) : routeOf (under path id) = listing.member := by
  refine routeOf_of_globMatches ?_
  have hpattern : listing.memberPattern.toList = under listing.pattern.toList ['*'] :=
    String.toList_append
  unfold globMatches at hpath ⊢
  rw [hpattern, splitOn_under (by decide), splitOn_under hid]
  exact segmentsMatch_append hpath (by simp [segmentsMatch])

/-! ## Paths -/

/-- A segment the table spells out. -/
def IsWord (word : Text) : Prop := word ≠ [] ∧ word ≠ ['*'] ∧ ':' ∉ word ∧ '/' ∉ word

instance (word : Text) : Decidable (IsWord word) := by
  unfold IsWord
  infer_instance

/-- A collection of this name, of a resource of that kind. -/
def collectionPath (kind parent name : Text) : Text :=
  "/redfish/v1".toList ++ '/' :: (kind ++ '/' :: (parent ++ '/' :: name))

theorem splitOn_collectionPath {kind parent name : Text} (hkind : IsWord kind)
    (hname : IsWord name) (hparent : '/' ∉ parent) :
    (collectionPath kind parent name).splitOn '/' =
      [[], "redfish".toList, "v1".toList, kind, parent, name] := by
  have hfront : "/redfish/v1".toList.splitOn '/' = [[], "redfish".toList, "v1".toList] := by
    decide
  unfold collectionPath
  rw [List.splitOn_append_cons_self, hfront, List.splitOn_append_cons_self,
    List.splitOn_append_cons_self, List.splitOn_eq_singleton hkind.2.2.2,
    List.splitOn_eq_singleton hparent, List.splitOn_eq_singleton hname.2.2.2]
  rfl

/-- A path the pattern of such collections matches. -/
theorem shape_of_globMatches {kind name : Text} (hkind : IsWord kind) (hname : IsWord name)
    (h : globMatches (collectionPath kind ['*'] name) path = true) :
    ∃ parent, '/' ∉ parent ∧ path = collectionPath kind parent name := by
  unfold globMatches at h
  rw [splitOn_collectionPath hkind hname (by decide)] at h
  obtain ⟨parent, hsegments⟩ : ∃ parent,
      path.splitOn '/' = [[], "redfish".toList, "v1".toList, kind, parent, name] := by
    match hpath : path.splitOn '/' with
    | [] | [_] | [_, _] | [_, _, _] | [_, _, _, _] | [_, _, _, _, _]
    | _ :: _ :: _ :: _ :: _ :: _ :: _ :: _ =>
        rw [hpath] at h
        simp [segmentsMatch] at h
    | [a, b, c, d, parent, f] =>
        rw [hpath] at h
        simp only [segmentsMatch, Bool.and_eq_true, Bool.or_eq_true, beq_iff_eq] at h
        obtain ⟨ha, hb, hc, hd, -, hf, -⟩ := h
        refine ⟨parent, ?_⟩
        rw [ha.resolve_left (by decide), hb.resolve_left (by decide), hc.resolve_left (by decide),
          hd.resolve_left hkind.2.1, hf.resolve_left hname.2.1]
  have hparent : '/' ∉ parent := notMem_of_mem_splitOn (by rw [hsegments]; simp)
  refine ⟨parent, hparent, ?_⟩
  have hjoin : ∀ text : Text, ['/'].intercalate (text.splitOn '/') = text :=
    fun _ => List.intercalate_splitOn '/'
  rw [← hjoin path, hsegments, ← splitOn_collectionPath hkind hname hparent, hjoin]

/-- The segments a handler reads of the path of a member. -/
theorem segment_under {kind parent name id : Text} (hkind : IsWord kind) (hname : IsWord name)
    (hparent : '/' ∉ parent) (hid : '/' ∉ id) :
    segment (under (collectionPath kind parent name) id) 4 = some parent ∧
      segment (under (collectionPath kind parent name) id) 6 = some id := by
  unfold ScriptUtil.segment
  rw [splitOn_under hid, splitOn_collectionPath hkind hname hparent]
  exact ⟨rfl, rfl⟩

/-- A segment of a path has no URL in it. -/
theorem containsSep_of_notMem {text : Text} (h : '/' ∉ text) : containsSep text = false := by
  induction text with
  | nil => rfl
  | cons c text ih =>
      have hstarts : "://".toList.isPrefixOf (c :: text) = false := by
        cases text with
        | nil => exact Bool.and_false _
        | cons d text =>
            have hd : ('/' == d) = false := beq_eq_false_iff_ne.mpr fun heq =>
              h (List.mem_cons_of_mem _ (heq ▸ List.mem_cons_self))
            show (':' == c && ('/' == d && _)) = false
            rw [hd, Bool.false_and, Bool.and_false]
      rw [containsSep_cons, hstarts, Bool.false_or, ih fun hmem => h (List.mem_cons_of_mem _ hmem)]

theorem containsSep_under {kind parent name id : Text} (hkind : IsWord kind) (hname : IsWord name)
    (hparent : '/' ∉ parent) (hid : '/' ∉ id) :
    containsSep (under (collectionPath kind parent name) id) = false := by
  obtain ⟨hne, -, hcolon, hslash⟩ := hname
  obtain ⟨c, rest, rfl⟩ := List.exists_cons_of_ne_nil hne
  have hc : c ≠ '/' := fun heq => hslash (heq ▸ List.mem_cons_self)
  have hfront : ':' ∉ "/redfish/v1".toList ++ '/' :: (kind ++ ['/']) := by
    rw [List.mem_append, List.mem_cons, List.mem_append]
    rintro (h | h | h | h)
    · exact absurd h (by decide)
    · exact absurd h (by decide)
    · exact hkind.2.2.1 h
    · exact absurd h (by decide)
  have hback : ':' ∉ '/' :: (c :: rest) ++ ['/'] := by
    rw [List.mem_append, List.mem_cons]
    rintro ((h | h) | h)
    · exact absurd h (by decide)
    · exact hcolon h
    · exact absurd h (by decide)
  have hshape : under (collectionPath kind parent (c :: rest)) id =
      ("/redfish/v1".toList ++ '/' :: (kind ++ ['/'])) ++
        (parent ++ '/' :: c :: (rest ++ '/' :: id)) := by
    unfold under collectionPath
    simp only [List.append_assoc, List.cons_append, List.nil_append]
  have hrest : '/' :: c :: (rest ++ '/' :: id) = ('/' :: (c :: rest) ++ ['/']) ++ id := by
    simp only [List.append_assoc, List.cons_append, List.nil_append]
  rw [hshape, containsSep_append_of_notMem hfront, containsSep_piece hparent hc, hrest,
    containsSep_append_of_notMem hback, containsSep_of_notMem hid]

end RedfishProxy.Shipped
