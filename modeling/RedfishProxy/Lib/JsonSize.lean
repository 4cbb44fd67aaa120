import Mathlib.Data.List.InsertIdx
import RedfishProxy.Lib.Json

/-!
# How large an update leaves a value

The nodes of an array and of a map, after one of their values was replaced,
added or removed.
-/

namespace Lib.Json

variable {ν : Type} {items : List (Json ν)} {fields : Fields ν} {key : Text} {old : Json ν}

theorem nodesItems_set {index : Nat} (h : items[index]? = some old) (new : Json ν) :
    nodesItems (items.set index new) + nodes old = nodesItems items + nodes new := by
  induction items generalizing index with
  | nil => cases h
  | cons item items ih =>
      cases index with
      | zero =>
          obtain rfl : item = old := Option.some.inj h
          rw [List.set_cons_zero, nodesItems, nodesItems]
          omega
      | succ index =>
          have hrest := ih h
          rw [List.set_cons_succ, nodesItems, nodesItems]
          omega

theorem nodesItems_insertIdx {index : Nat} (h : index ≤ items.length) (new : Json ν) :
    nodesItems (items.insertIdx index new) = nodesItems items + nodes new := by
  induction items generalizing index with
  | nil =>
      obtain rfl : index = 0 := Nat.le_zero.mp h
      show new.nodes + 0 = 0 + new.nodes
      omega
  | cons item items ih =>
      cases index with
      | zero =>
          rw [List.insertIdx_zero, nodesItems]
          omega
      | succ index =>
          have hrest := ih (Nat.le_of_succ_le_succ h)
          rw [List.insertIdx_succ_cons, nodesItems, nodesItems]
          omega

theorem nodesItems_eraseIdx {index : Nat} (h : items[index]? = some old) :
    nodesItems (items.eraseIdx index) + nodes old = nodesItems items := by
  induction items generalizing index with
  | nil => cases h
  | cons item items ih =>
      cases index with
      | zero =>
          obtain rfl : item = old := Option.some.inj h
          rw [List.eraseIdx_cons_zero, nodesItems]
          omega
      | succ index =>
          have hrest := ih h
          rw [List.eraseIdx_cons_succ, nodesItems, nodesItems]
          omega

theorem nodesFields_set (h : Fields.get key fields = some old) (new : Json ν) :
    nodesFields (Fields.set key new fields) + nodes old = nodesFields fields + nodes new := by
  induction fields with
  | nil => cases h
  | cons field fields ih =>
      obtain ⟨k, value⟩ := field
      rw [Fields.get] at h
      rw [Fields.set]
      split_ifs at h ⊢ with hkey
      · obtain rfl : value = old := Option.some.inj h
        rw [nodesFields, nodesFields]
        omega
      · have hrest := ih h
        rw [nodesFields, nodesFields]
        omega

/-- A member that is replaced makes room for the new one. -/
theorem nodesFields_insert_le (key : Text) (new : Json ν) (fields : Fields ν) :
    nodesFields (Fields.insert key new fields) ≤ nodesFields fields + nodes new := by
  induction fields with
  | nil =>
      show new.nodes + 0 ≤ 0 + new.nodes
      omega
  | cons field fields ih =>
      obtain ⟨k, value⟩ := field
      rw [Fields.insert]
      split_ifs with hkey hbelow
      · rw [nodesFields, nodesFields]
        omega
      · rw [nodesFields]
        omega
      · rw [nodesFields, nodesFields]
        omega

theorem nodesFields_remove (h : Fields.get key fields = some old) :
    nodesFields (Fields.remove key fields) + nodes old = nodesFields fields := by
  induction fields with
  | nil => cases h
  | cons field fields ih =>
      obtain ⟨k, value⟩ := field
      rw [Fields.get] at h
      rw [Fields.remove]
      split_ifs at h ⊢ with hkey
      · obtain rfl : value = old := Option.some.inj h
        rw [nodesFields]
        omega
      · have hrest := ih h
        rw [nodesFields, nodesFields]
        omega

end Lib.Json
