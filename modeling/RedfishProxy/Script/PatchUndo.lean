import Mathlib.Data.List.InsertIdx
import RedfishProxy.Script.PatchPlaces

/-!
# Additions and removals undo each other

In the parent first, where an addition shifts the elements behind it or goes
between the members of a sorted map, and then at any place, by the laws of
`Script.PatchPlaces`. `move` rests on it.
-/

namespace RedfishProxy.ScriptUtil

open Lib

variable {ν : Type} {unprintable : Char → Bool}

/-! ## In the parent -/

section Parent

variable {last : Text} {value parent parent' : Json ν}

theorem removeFrom_addTo (hlast : last ≠ ['-'])
    (hnew : ∀ fields, parent = .object fields → Json.Fields.get last fields = none)
    (h : addTo unprintable last value parent = .ok ((), parent')) :
    removeFrom unprintable last parent' = .ok (value, parent) := by
  cases parent with
  | array items =>
      obtain ⟨index, hindex, hle, rfl⟩ := addTo_array_ok.mp h
      refine removeFrom_array_ok.mpr ⟨index, ?_, ?_, ?_⟩
      · rw [← hindex]
        exact arrayIndex_end unprintable hlast ..
      · rw [List.getElem?_insertIdx_self, if_pos hle]
      · rw [List.eraseIdx_insertIdx_self]
  | object fields =>
      cases h
      refine removeFrom_object_ok.mpr ⟨?_, ?_⟩
      · rw [Json.Fields.get_insert, if_pos rfl]
      · rw [Json.Fields.remove_insert (hnew fields rfl)]
  | null => cases h
  | bool b => cases h
  | number n => cases h
  | string text => cases h

theorem addTo_removeFrom (hlast : last ≠ ['-']) {d : Nat} (hfits : Json.Fits d parent)
    (h : removeFrom unprintable last parent = .ok (value, parent')) :
    addTo unprintable last value parent' = .ok ((), parent) := by
  cases parent with
  | array items =>
      obtain ⟨index, hindex, hitem, rfl⟩ := removeFrom_array_ok.mp h
      obtain ⟨hlt, rfl⟩ := List.getElem?_eq_some_iff.mp hitem
      refine addTo_array_ok.mpr ⟨index, ?_, ?_, ?_⟩
      · rw [← hindex]
        exact arrayIndex_end unprintable hlast ..
      · rw [List.length_eraseIdx_of_lt hlt]
        omega
      · rw [List.insertIdx_eraseIdx_getElem hlt]
  | object fields =>
      obtain ⟨hget, rfl⟩ := removeFrom_object_ok.mp h
      show Except.ok ((), Json.object (Json.Fields.insert last value _)) = _
      rw [Json.Fields.insert_remove hfits.sorted hget]
  | null => cases h
  | bool b => cases h
  | number n => cases h
  | string text => cases h

end Parent

/-! ## At a place -/

/-- **Additions and removals undo each other.** A value that was added, other
than over a member, is what a removal takes out again, and what a removal took
out goes back where it was. -/
theorem patch_add_remove (d : Json.Value ν) (parents : List Text) {last : Text}
    (hlast : last ≠ ['-']) (value : Json ν) :
    (∀ d', patchAdd unprintable d.json (parents ++ [last]) value = .ok d' →
      (∀ fields, resolve unprintable d.json parents = some (.object fields) →
        Json.Fields.get last fields = none) →
      patchRemove unprintable d' (parents ++ [last]) = .ok (value, d.json)) ∧
    ∀ d', patchRemove unprintable d.json (parents ++ [last]) = .ok (value, d') →
      patchAdd unprintable d' (parents ++ [last]) value = .ok d.json := by
  obtain ⟨depth, hfits⟩ := d.sorted
  constructor
  · intro d' hadd hnew
    obtain ⟨parent, parent', hparent, hinto, rfl⟩ := patchAdd_concat_ok.mp hadd
    have houtOf := removeFrom_addTo hlast (fun fields h => hnew fields (h ▸ hparent)) hinto
    refine patchRemove_concat_ok.mpr ⟨parent', parent, resolve_putAt hparent _, houtOf, ?_⟩
    rw [putAt_putAt hparent, putAt_resolve hparent]
  · intro d' hremove
    obtain ⟨parent, parent', hparent, houtOf, rfl⟩ := patchRemove_concat_ok.mp hremove
    have hinto := addTo_removeFrom hlast (fits_resolve hfits hparent) houtOf
    refine patchAdd_concat_ok.mpr ⟨parent', parent, resolve_putAt hparent _, hinto, ?_⟩
    rw [putAt_putAt hparent, putAt_resolve hparent]

theorem sorted_list (items : List (Json Nat)) (hitems : ∀ item ∈ items, Json.Fits 0 item) :
    Json.Sorted (.object [("List".toList, .array items)]) :=
  ⟨2, (Json.Fits.array hitems).one_field _⟩

theorem sorted_one : Json.Sorted (.object [("List".toList, .array [.number 1])] : Json Nat) := by
  refine sorted_list _ ?_
  intro item hitem
  cases List.mem_singleton.mp hitem
  exact .number 1

theorem patch_add_remove_list :
    patchRemove (fun _ => false)
        (.object [("List".toList, .array [.number 2, .number 1])] : Json Nat)
        (["List".toList] ++ [['0']]) =
      .ok (.number 2, .object [("List".toList, .array [.number 1])]) ∧
    patchAdd (fun _ => false) (.object [("List".toList, .array [])] : Json Nat)
        (["List".toList] ++ [['0']]) (.number 1) =
      .ok (.object [("List".toList, .array [.number 1])]) := by
  have hlast : ['0'] ≠ ['-'] := by decide
  constructor
  · refine (patch_add_remove ⟨_, sorted_one⟩ ["List".toList] hlast (.number 2)).1 _ rfl ?_
    intro fields hparent
    cases hparent
  · exact (patch_add_remove ⟨_, sorted_one⟩ ["List".toList] hlast (.number 1)).2 _ rfl

end RedfishProxy.ScriptUtil
