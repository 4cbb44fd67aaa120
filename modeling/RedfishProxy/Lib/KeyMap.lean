import Mathlib.Data.List.AList

/-!
# Finite maps by key

An association list without repeated keys, with the operations a keyed store
needs beside `insert`, `erase` and `lookup`: keeping the keys that meet a test,
and counting.
-/

namespace Lib

/-- A finite map. -/
abbrev KeyMap (κ α : Type) := AList fun _ : κ => α

namespace KeyMap

variable {κ α : Type}

def size (m : KeyMap κ α) : Nat := m.entries.length

/-- The entries whose key meets the test. -/
def retain (p : κ → Bool) (m : KeyMap κ α) : KeyMap κ α :=
  ⟨m.entries.filter fun e => p e.1, m.nodupKeys.sublist List.filter_sublist⟩

@[simp] theorem size_empty : size (∅ : KeyMap κ α) = 0 := rfl

theorem size_eq_keys (m : KeyMap κ α) : size m = m.keys.length := by
  simp [size, AList.keys, List.keys]

theorem keys_retain (p : κ → Bool) (m : KeyMap κ α) : (retain p m).keys = m.keys.filter p := by
  simp only [retain, AList.keys, List.keys, List.filter_map]
  rfl

theorem mem_retain (p : κ → Bool) (m : KeyMap κ α) (k : κ) :
    k ∈ retain p m ↔ k ∈ m ∧ p k = true := by
  rw [AList.mem_keys, keys_retain, List.mem_filter, AList.mem_keys]

/-- `retain` takes out as many entries as keys fail the test. -/
theorem size_retain (p : κ → Bool) (m : KeyMap κ α) :
    size m - size (retain p m) = (m.keys.filter fun k => !p k).length := by
  have hsplit := List.length_eq_length_filter_add (l := m.keys) p
  rw [size_eq_keys, size_eq_keys, keys_retain]
  omega

theorem size_retain_le (p : κ → Bool) (m : KeyMap κ α) : size (retain p m) ≤ size m :=
  List.filter_sublist.length_le

variable [DecidableEq κ]

theorem size_insert_of_mem {m : KeyMap κ α} {k : κ} (h : k ∈ m) (v : α) :
    size (m.insert k v) = size m := by
  rw [size_eq_keys, size_eq_keys, AList.keys_insert, List.length_cons,
    List.length_erase_of_mem (AList.mem_keys.mp h)]
  have := List.length_pos_of_mem (AList.mem_keys.mp h)
  omega

theorem size_insert_of_notMem {m : KeyMap κ α} {k : κ} (h : k ∉ m) (v : α) :
    size (m.insert k v) = size m + 1 := by
  rw [size, AList.entries_insert_of_notMem h]
  rfl

theorem size_erase_le (m : KeyMap κ α) (k : κ) : size (m.erase k) ≤ size m :=
  (List.kerase_sublist k m.entries).length_le

theorem lookup_retain (p : κ → Bool) (m : KeyMap κ α) (k : κ) :
    (retain p m).lookup k = if p k then m.lookup k else none := by
  have hmem : ∀ v, v ∈ (retain p m).lookup k ↔ v ∈ m.lookup k ∧ p k = true := by
    intro v
    rw [AList.mem_lookup_iff, AList.mem_lookup_iff]
    exact List.mem_filter
  apply Option.ext
  intro v
  rw [← Option.mem_def, ← Option.mem_def, hmem]
  by_cases hp : p k = true <;> simp [hp]

theorem lookup_insert_eq (m : KeyMap κ α) (k k' : κ) (v : α) :
    (m.insert k v).lookup k' = if k' = k then some v else m.lookup k' := by
  by_cases h : k' = k
  · subst h
    simp
  · rw [if_neg h, AList.lookup_insert_ne h]

theorem lookup_erase_eq (m : KeyMap κ α) (k k' : κ) :
    (m.erase k).lookup k' = if k' = k then none else m.lookup k' := by
  by_cases h : k' = k
  · subst h
    simp
  · rw [if_neg h, AList.lookup_erase_ne h]

/-- A map collected from a list keeps the last value of a key. -/
theorem lookup_foldl_insert (entries : List (κ × α)) (m : KeyMap κ α) (k : κ) :
    (entries.foldl (fun m entry => m.insert entry.1 entry.2) m).lookup k =
      (((entries.filter fun entry => entry.1 = k).map Prod.snd).getLast?).or (m.lookup k) := by
  induction entries generalizing m with
  | nil => rfl
  | cons entry entries ih =>
      rw [List.foldl_cons, ih, lookup_insert_eq, List.filter_cons]
      by_cases h : entry.1 = k
      · rw [if_pos h.symm, if_pos (decide_eq_true h), List.map_cons, List.getLast?_cons]
        cases ((entries.filter fun entry => entry.1 = k).map Prod.snd).getLast? <;> rfl
      · rw [if_neg (Ne.symm h), if_neg (by simpa using h)]

end KeyMap
end Lib
