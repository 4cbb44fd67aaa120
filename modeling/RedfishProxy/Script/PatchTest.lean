import RedfishProxy.Lib.JsonNumber
import RedfishProxy.Script.PatchPlaces

/-!
# What a `test` compares

The comparison of `test` is serde's, which RFC 6902 asks to be numerical. The
two come apart on the values that are equal and hold somewhere the same number
once as an integer and once as a float.
-/

namespace RedfishProxy.ScriptUtil

open Lib

variable {unprintable : Char → Bool}

theorem applyNamed_test {ν : Type} [BEq ν] {target found value : Json ν} {op : Json.Fields ν}
    {path : List Text} (hfound : resolve unprintable target path = some found)
    (hvalue : Json.Fields.get "value".toList op = some value) :
    (∃ target', applyNamed unprintable target op "test".toList path = .ok target') ↔
      (found == value) = true := by
  constructor
  · rintro ⟨target', h⟩
    cases applyNamed_ok h with
    | test hvalue' hfound' h =>
        cases hvalue.symm.trans hvalue'
        cases hfound.symm.trans hfound'
        exact h
  · intro h
    refine ⟨target, ?_⟩
    unfold applyNamed
    iterate 5 rw [if_neg (by decide)]
    rw [if_pos rfl, valueField, hvalue, hfound]
    show (if (found == value) = true then _ else _) = _
    rw [if_pos h]

theorem applyOne_object {ν : Type} [BEq ν] {target : Json ν} {fields : Json.Fields ν}
    {name : Text} {path : List Text}
    (hname : Json.Fields.get "op".toList fields = some (.string name))
    (hpath : pointerField unprintable fields "path".toList = .ok path) :
    applyOne unprintable target (.object fields) =
      applyNamed unprintable target fields name path := by
  unfold applyOne
  dsimp only
  rw [nameField, hname, hpath]
  rfl

/-- **A `test` compares as the RFC says** but where the values are equal and an
integer stands in one at the place of a float in the other. -/
theorem patch_test (d op : Json.Value Json.Number) {fields : Json.Fields Json.Number}
    {path : List Text} {found value : Json Json.Number} (hop : op.json = .object fields)
    (hname : Json.Fields.get "op".toList fields = some (.string "test".toList))
    (hpath : pointerField unprintable fields "path".toList = .ok path)
    (hfound : resolve unprintable d.json path = some found)
    (hvalue : Json.Fields.get "value".toList fields = some value) :
    ((∃ d', applyOne unprintable d.json op.json = .ok d') ↔
        Json.Same Json.Number.Equal found value) ↔
      ¬ (Json.Same Json.Number.Equal found value ∧
        Json.Somewhere Json.Number.Mixed found value) := by
  have hsorted : found.Sorted := by
    obtain ⟨depth, hfits⟩ := d.sorted
    exact ⟨depth, fits_resolve hfits hfound⟩
  have hgiven : value.Sorted := (hop ▸ op.sorted).get hvalue
  rw [hop, applyOne_object hname hpath, applyNamed_test hfound hvalue,
    Json.beq_iff_equal hsorted hgiven]
  tauto

/-! An integer is tested against the same number as a float. -/

def oneMember (value : Json Json.Number) : Json Json.Number := .object [("n".toList, value)]

def testMember (value : Json Json.Number) : Json.Fields Json.Number :=
  [("op".toList, .string "test".toList), ("path".toList, .string "/n".toList),
    ("value".toList, value)]

def integerOne : Json.Number := .posInt 1 (by decide)

theorem patch_test_float :
    applyOne (fun _ => false) (oneMember (.number integerOne))
        (.object (testMember (.number (.float 1)))) =
      .error "the location does not hold the tested value".toList ∧
    Json.Same Json.Number.Equal (.number integerOne) (.number (.float 1)) := by
  constructor
  · rfl
  · exact .number (by simp [Json.Number.Equal, Json.Number.value, integerOne])

theorem sorted_oneMember (n : Json.Number) : (oneMember (.number n)).Sorted :=
  ⟨1, (Json.Fits.number n).one_field _⟩

theorem sorted_testMember (n : Json.Number) : (Json.object (testMember (.number n))).Sorted := by
  have hkeys : ["op".toList, "path".toList, "value".toList].Pairwise (· < ·) := by decide
  refine ⟨1, .object (List.pairwise_map.mp hkeys) ?_⟩
  simp only [testMember, List.forall_mem_cons]
  exact ⟨.string _, .string _, .number n, nofun⟩

theorem patch_test_integer :
    ((∃ d', applyOne (fun _ => false) (oneMember (.number integerOne))
          (.object (testMember (.number integerOne))) = .ok d') ↔
        Json.Same Json.Number.Equal (.number integerOne) (.number integerOne)) ↔
      ¬ (Json.Same Json.Number.Equal (.number integerOne) (.number integerOne) ∧
        Json.Somewhere Json.Number.Mixed (.number integerOne) (.number integerOne)) :=
  patch_test ⟨_, sorted_oneMember integerOne⟩ ⟨_, sorted_testMember integerOne⟩ rfl rfl rfl rfl rfl

end RedfishProxy.ScriptUtil
