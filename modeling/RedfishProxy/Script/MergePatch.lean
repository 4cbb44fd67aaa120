import RedfishProxy.Lib.JsonPatch
import RedfishProxy.Script.Util

/-!
# JSON merge-patch

`merge_json` of the `util` module. The loop over the patch's members changes the
target's map as it goes; what it comes to is said key by key (`get_mergeFields`),
and maps are compared that way (`Json.Fields.ext`). The rest is induction on the
patch.

Main results:
* `merge_json_rfc7386`: the law of RFC 7386, the order of the members, the nulls.
* `merge_json_retry`: a patch merged twice, and two that do not meet.
-/

namespace RedfishProxy.ScriptUtil

open Lib Http

variable {ν : Type}

def isNull : Json ν → Bool
  | .null => true
  | _ => false

mutual

/-- `merge_json`, on a target it is given and gives back. -/
def mergeJson : Json ν → Json ν → Json ν
  | target, .object patch => .object (mergeFields (asFields target) patch)
  | _, patch => patch

/-- The loop over the members of a patch. -/
def mergeFields : Json.Fields ν → List (Text × Json ν) → Json.Fields ν
  | map, [] => map
  | map, (key, value) :: rest =>
    mergeFields
      (if isNull value then Json.Fields.remove key map
        -- The member a patch adds is null until it is merged into.
        else Json.Fields.insert key (mergeJson ((Json.Fields.get key map).getD .null) value) map)
      rest

end

theorem asFields_object (fields : Json.Fields ν) : asFields (.object fields) = fields := rfl

/-- One turn of that loop. -/
def mergeMember (map : Json.Fields ν) (member : Text × Json ν) : Json.Fields ν :=
  if isNull member.2 then Json.Fields.remove member.1 map
  else Json.Fields.insert member.1
    (mergeJson ((Json.Fields.get member.1 map).getD .null) member.2) map

theorem mergeFields_eq (map patch : Json.Fields ν) :
    mergeFields map patch = patch.foldl mergeMember map := by
  induction patch generalizing map with
  | nil => rw [mergeFields, List.foldl_nil]
  | cons member patch ih => rw [mergeFields, List.foldl_cons, ← ih, mergeMember]

theorem mergeJson_object (target : Json ν) (patch : Json.Fields ν) :
    mergeJson target (.object patch) = .object (mergeFields (asFields target) patch) := by
  rw [mergeJson]

theorem mergeJson_of_not_object (target : Json ν) {patch : Json ν} (h : patch.asObject = none) :
    mergeJson target patch = patch := by
  cases patch with
  | object fields => cases h
  | null => rw [mergeJson]; simp
  | bool b => rw [mergeJson]; simp
  | number n => rw [mergeJson]; simp
  | string text => rw [mergeJson]; simp
  | array items => rw [mergeJson]; simp

/-- A null target counts as an empty object, like any that is no object. -/
theorem mergeJson_congr {target target' : Json ν} (h : asFields target = asFields target')
    (patch : Json ν) : mergeJson target patch = mergeJson target' patch := by
  cases hpatch : patch.asObject with
  | none => rw [mergeJson_of_not_object _ hpatch, mergeJson_of_not_object _ hpatch]
  | some fields =>
      obtain rfl : patch = .object fields := by
        cases patch <;> simp_all [Json.asObject]
      rw [mergeJson_object, mergeJson_object, h]

/-! ## Key by key -/

/-- What is left of a member, given the patch's: its own, nothing, or the two
merged, an absent one counting as an empty object. -/
def mergedMember (old : Option (Json ν)) : Option (Json ν) → Option (Json ν)
  | none => old
  | some value => if isNull value then none else some (mergeJson (old.getD (.object [])) value)

theorem mergedMember_of_null {value : Json ν} (h : isNull value = true) (old : Option (Json ν)) :
    mergedMember old (some value) = none := if_pos h

theorem mergedMember_of_value {value : Json ν} (h : isNull value = false)
    (old : Option (Json ν)) :
    mergedMember old (some value) = some (mergeJson (old.getD (.object [])) value) :=
  if_neg (by rw [h]; exact Bool.false_ne_true)

section Members

variable {map patch : Json.Fields ν}

theorem sorted_mergeMember (h : map.Pairwise fun a b => a.1 < b.1) (member : Text × Json ν) :
    (mergeMember map member).Pairwise fun a b => a.1 < b.1 := by
  unfold mergeMember
  split
  · exact Json.Fields.sorted_remove h _
  · exact Json.Fields.sorted_insert h _ _

theorem sorted_mergeFields (h : map.Pairwise fun a b => a.1 < b.1) (patch : Json.Fields ν) :
    (mergeFields map patch).Pairwise fun a b => a.1 < b.1 := by
  rw [mergeFields_eq]
  induction patch generalizing map with
  | nil => exact h
  | cons member patch ih => exact ih (sorted_mergeMember h member)

theorem get_mergeMember (h : map.Pairwise fun a b => a.1 < b.1) (member : Text × Json ν)
    (key : Text) : Json.Fields.get key (mergeMember map member) =
      if key = member.1 then mergedMember (Json.Fields.get key map) (some member.2)
      else Json.Fields.get key map := by
  unfold mergeMember
  cases hnull : isNull member.2 with
  | true =>
      rw [if_pos rfl, mergedMember_of_null hnull]
      exact Json.Fields.get_remove h ..
  | false =>
      rw [if_neg Bool.false_ne_true, Json.Fields.get_insert, mergedMember_of_value hnull]
      refine if_ctx_congr Iff.rfl ?_ fun _ => rfl
      rintro rfl
      -- the null a member is made with counts as an empty object
      cases Json.Fields.get member.1 map with
      | some old => rfl
      | none =>
          have hempty : asFields (.null : Json ν) = asFields (.object []) := rfl
          exact congrArg some (mergeJson_congr hempty _)

/-- **The law of RFC 7386, key by key.** -/
theorem get_mergeFields (h : map.Pairwise fun a b => a.1 < b.1)
    (hnodup : (patch.map Prod.fst).Nodup) (key : Text) :
    Json.Fields.get key (mergeFields map patch) =
      mergedMember (Json.Fields.get key map) (Json.Fields.get key patch) := by
  rw [mergeFields_eq]
  induction patch generalizing map with
  | nil => rfl
  | cons member patch ih =>
      rw [List.map_cons] at hnodup
      obtain ⟨hnot, hrest⟩ := List.nodup_cons.mp hnodup
      rw [List.foldl_cons, ih (sorted_mergeMember h member) hrest, get_mergeMember h, Json.Fields.get]
      by_cases hkey : key = member.1
      · -- the member's own turn; no later one has its key
        subst hkey
        have hnone : Json.Fields.get member.1 patch = none := by
          refine Json.Fields.get_eq_none ?_
          intro field hfield heq
          exact hnot (heq ▸ List.mem_map_of_mem hfield)
        rw [if_pos rfl, if_pos rfl, hnone]
        rfl
      · rw [if_neg hkey, if_neg (Ne.symm hkey)]

/-- The order the members are visited in is nothing to the result. -/
theorem mergeFields_perm {order : Json.Fields ν} (h : map.Pairwise fun a b => a.1 < b.1)
    (hnodup : (patch.map Prod.fst).Nodup) (hperm : order.Perm patch) :
    mergeFields map order = mergeFields map patch := by
  have horder : (order.map Prod.fst).Nodup := (hperm.map Prod.fst).nodup_iff.mpr hnodup
  refine Json.Fields.ext (sorted_mergeFields h _) (sorted_mergeFields h _) ?_
  intro key
  rw [get_mergeFields h horder, get_mergeFields h hnodup, Json.Fields.get_perm hnodup hperm]

theorem nodup_keys (h : patch.Pairwise fun a b => a.1 < b.1) : (patch.map Prod.fst).Nodup := by
  refine List.pairwise_map.mpr (h.imp ?_)
  intro a b hlt heq
  rw [heq] at hlt
  exact List.lt_irrefl _ hlt

end Members

theorem sorted_asFields {target : Json ν} (h : target.Sorted) :
    (asFields target).Pairwise fun a b => a.1 < b.1 := by
  cases target with
  | object fields => exact h.pairwise
  | null => exact .nil
  | bool b => exact .nil
  | number n => exact .nil
  | string text => exact .nil
  | array items => exact .nil

/-- Only an object has members. -/
theorem object_of_get {target old : Json ν} {key : Text}
    (hget : Json.Fields.get key (asFields target) = some old) :
    ∃ fields, target = .object fields ∧ Json.Fields.get key fields = some old := by
  cases target with
  | object fields => exact ⟨fields, rfl, hget⟩
  | null => cases hget
  | bool b => cases hget
  | number n => cases hget
  | string text => cases hget
  | array items => cases hget

theorem sorted_member {target old : Json ν} {key : Text} (h : target.Sorted)
    (hget : Json.Fields.get key (asFields target) = some old) : old.Sorted := by
  obtain ⟨fields, rfl, hfound⟩ := object_of_get hget
  exact h.get hfound

/-- What a member is merged into. -/
theorem sorted_asFields_getD {target : Json ν} (h : target.Sorted) (key : Text) :
    ((Json.Fields.get key (asFields target)).getD (.object [])).Sorted := by
  cases hget : Json.Fields.get key (asFields target) with
  | some old => exact sorted_member h hget
  | none => exact ⟨1, .object .nil fun _ hfield => absurd hfield List.not_mem_nil⟩

theorem get_merged {target : Json ν} {members : Json.Fields ν} (htarget : target.Sorted)
    (hmembers : members.Pairwise fun a b => a.1 < b.1) (key : Text) :
    Json.Fields.get key (mergeFields (asFields target) members) =
      mergedMember (Json.Fields.get key (asFields target)) (Json.Fields.get key members) :=
  get_mergeFields (sorted_asFields htarget) (nodup_keys hmembers) key

/-! ## Nulls -/

/-- A null of the value that lies inside an array of it. -/
def InArray (value : Json ν) (tokens : List Text) : Prop :=
  Rfc6901.eval value tokens = some .null ∧
    ∃ front back items, tokens = front ++ back ∧ back ≠ [] ∧
      Rfc6901.eval value front = some (.array items)

theorem eval_object (fields : Json.Fields ν) (token : Text) (tokens : List Text) :
    Rfc6901.eval (.object fields) (token :: tokens) =
      (Json.Fields.get token fields).bind fun c => Rfc6901.eval c tokens := rfl

theorem eval_of_member {target old : Json ν} {token : Text}
    (hget : Json.Fields.get token (asFields target) = some old) (tokens : List Text) :
    Rfc6901.eval target (token :: tokens) = Rfc6901.eval old tokens := by
  obtain ⟨fields, rfl, hfound⟩ := object_of_get hget
  rw [eval_object, hfound, Option.bind_some]

theorem eval_empty_ne_null (tokens : List Text) :
    Rfc6901.eval (.object [] : Json ν) tokens ≠ some .null := by
  cases tokens with
  | nil => simp [Rfc6901.eval]
  | cons token tokens => simp [eval_object]

theorem InArray.member {members : Json.Fields ν} {value : Json ν} {token : Text}
    {tokens : List Text} (h : InArray value tokens)
    (hget : Json.Fields.get token members = some value) :
    InArray (.object members) (token :: tokens) := by
  obtain ⟨hnull, front, back, items, rfl, hback, hfront⟩ := h
  refine ⟨by rw [eval_object, hget, Option.bind_some, hnull], token :: front, back, items, rfl,
    hback, ?_⟩
  rw [eval_object, hget, Option.bind_some, hfront]

/-- **A null of the result was in the target, or lies inside an array of the
patch.** -/
theorem null_of_mergeJson {target patch : Json ν} (htarget : target.Sorted)
    (hpatch : patch.Sorted) (hnull : isNull patch = false) {tokens : List Text}
    (h : Rfc6901.eval (mergeJson target patch) tokens = some .null) :
    Rfc6901.eval target tokens = some .null ∨ InArray patch tokens := by
  induction patch using Json.induction generalizing target tokens with
  | null => cases hnull
  | bool b =>
      rw [mergeJson_of_not_object target rfl] at h
      cases tokens <;> cases h
  | number n =>
      rw [mergeJson_of_not_object target rfl] at h
      cases tokens <;> cases h
  | string text =>
      rw [mergeJson_of_not_object target rfl] at h
      cases tokens <;> cases h
  | array items =>
      rw [mergeJson_of_not_object target rfl] at h
      refine .inr ⟨h, [], tokens, items, rfl, ?_, rfl⟩
      rintro rfl
      cases h
  | object members ih =>
      rw [mergeJson_object] at h
      cases tokens with
      | nil => cases h
      | cons token tokens =>
          rw [eval_object, get_merged htarget hpatch.pairwise] at h
          obtain ⟨found, hfound, hnullfound⟩ := Option.bind_eq_some_iff.mp h
          cases hvalue : Json.Fields.get token members with
          | none =>
              rw [hvalue] at hfound
              exact .inl ((eval_of_member hfound tokens).trans hnullfound)
          | some value =>
              have hmem := Json.Fields.mem_of_get hvalue
              rw [hvalue] at hfound
              cases hvaluenull : isNull value with
              | true =>
                  rw [mergedMember_of_null hvaluenull] at hfound
                  cases hfound
              | false =>
                  rw [mergedMember_of_value hvaluenull, Option.some.injEq] at hfound
                  subst hfound
                  have hold := sorted_asFields_getD htarget token
                  rcases ih _ hmem hold (hpatch.field hmem) hvaluenull hnullfound with hleft | hright
                  · cases hget : Json.Fields.get token (asFields target) with
                    | some old =>
                        rw [hget] at hleft
                        exact .inl ((eval_of_member hget tokens).trans hleft)
                    | none =>
                        rw [hget] at hleft
                        exact absurd hleft (eval_empty_ne_null tokens)
                  · exact .inr (hright.member hvalue)

/-- **`merge_json` is the merge-patch of RFC 7386**, key by key, in any order of
the members, and leaves no null of a patch but those inside its arrays. -/
theorem merge_json_rfc7386 (target patch : Json.Value ν) :
    (patch.json.asObject = none → mergeJson target.json patch.json = patch.json) ∧
      ∀ members, patch.json = .object members →
        (∃ merged, mergeJson target.json patch.json = .object merged ∧
          (∀ key, Json.Fields.get key merged =
            mergedMember (Json.Fields.get key (asFields target.json))
              (Json.Fields.get key members)) ∧
          ∀ order, order.Perm members → mergeFields (asFields target.json) order = merged) ∧
        ∀ tokens, Rfc6901.eval (mergeJson target.json patch.json) tokens = some .null →
          Rfc6901.eval target.json tokens = some .null ∨ InArray patch.json tokens := by
  refine ⟨mergeJson_of_not_object target.json, ?_⟩
  intro members hmembers
  have hsorted : members.Pairwise fun a b => a.1 < b.1 := (hmembers ▸ patch.sorted).pairwise
  refine ⟨⟨_, by rw [hmembers, mergeJson_object], get_merged target.sorted hsorted, ?_⟩, ?_⟩
  · intro order hperm
    exact mergeFields_perm (sorted_asFields target.sorted) (nodup_keys hsorted) hperm
  · intro tokens h
    exact null_of_mergeJson target.sorted patch.sorted (by rw [hmembers]; rfl) h

/-! ## A patch, and then a patch -/

/-- A patch that was merged finds nothing to change. -/
theorem mergeJson_mergeJson {target patch : Json ν} (htarget : target.Sorted)
    (hpatch : patch.Sorted) :
    mergeJson (mergeJson target patch) patch = mergeJson target patch := by
  induction patch using Json.induction generalizing target with
  | null => rw [mergeJson_of_not_object _ rfl, mergeJson_of_not_object _ rfl]
  | bool b => rw [mergeJson_of_not_object _ rfl, mergeJson_of_not_object _ rfl]
  | number n => rw [mergeJson_of_not_object _ rfl, mergeJson_of_not_object _ rfl]
  | string text => rw [mergeJson_of_not_object _ rfl, mergeJson_of_not_object _ rfl]
  | array items => rw [mergeJson_of_not_object _ rfl, mergeJson_of_not_object _ rfl]
  | object members ih =>
      have hmerged := sorted_mergeFields (sorted_asFields htarget) members
      rw [mergeJson_object, mergeJson_object]
      refine congrArg Json.object (Json.Fields.ext (sorted_mergeFields hmerged members) hmerged ?_)
      intro key
      rw [asFields_object, get_mergeFields hmerged (nodup_keys hpatch.pairwise), get_merged htarget hpatch.pairwise]
      cases hvalue : Json.Fields.get key members with
      | none => rfl
      | some value =>
          have hmem := Json.Fields.mem_of_get hvalue
          cases hnull : isNull value with
          | true => rw [mergedMember_of_null hnull, mergedMember_of_null hnull]
          | false =>
              have hold := sorted_asFields_getD htarget key
              rw [mergedMember_of_value hnull, mergedMember_of_value hnull, Option.getD_some,
                ih _ hmem hold (hpatch.field hmem)]

/-- Patches that have no key in common commute. -/
theorem mergeJson_comm {target : Json ν} {members others : Json.Fields ν}
    (htarget : target.Sorted) (hmembers : members.Pairwise fun a b => a.1 < b.1)
    (hothers : others.Pairwise fun a b => a.1 < b.1)
    (hdisjoint : ∀ key, Json.Fields.get key members = none ∨ Json.Fields.get key others = none) :
    mergeJson (mergeJson target (.object members)) (.object others) =
      mergeJson (mergeJson target (.object others)) (.object members) := by
  have hfirst := sorted_mergeFields (sorted_asFields htarget) members
  have hsecond := sorted_mergeFields (sorted_asFields htarget) others
  simp only [mergeJson_object]
  refine congrArg Json.object
    (Json.Fields.ext (sorted_mergeFields hfirst others) (sorted_mergeFields hsecond members) ?_)
  intro key
  rw [asFields_object, asFields_object, get_mergeFields hfirst (nodup_keys hothers), get_mergeFields hsecond (nodup_keys hmembers),
    get_merged htarget hmembers, get_merged htarget hothers]
  rcases hdisjoint key with hnone | hnone <;> rw [hnone] <;> rfl

/-- **Retrying a merge-patch is harmless.** -/
theorem merge_json_retry (target patch : Json.Value ν) :
    mergeJson (mergeJson target.json patch.json) patch.json =
        mergeJson target.json patch.json ∧
      ∀ (other : Json.Value ν) fields members others, target.json = .object fields →
        patch.json = .object members → other.json = .object others →
        (∀ key, Json.Fields.get key members = none ∨ Json.Fields.get key others = none) →
        mergeJson (mergeJson target.json patch.json) other.json =
          mergeJson (mergeJson target.json other.json) patch.json := by
  refine ⟨mergeJson_mergeJson target.sorted patch.sorted, ?_⟩
  intro other fields members others _ hmembers hothers hdisjoint
  rw [hmembers, hothers]
  exact mergeJson_comm target.sorted (hmembers ▸ patch.sorted).pairwise
    (hothers ▸ other.sorted).pairwise hdisjoint

end RedfishProxy.ScriptUtil
