import RedfishProxy.Lib.Json

/-!
# JSON values a parser can come to

`Fits d value` says that every map of the value is sorted by key, without a key
twice, and that it nests no deeper than `d`. A parser with a recursion limit
answers only such values, and an update keeps to them. `mapNumbers` is the same
value with other numbers.
-/

namespace Lib.Json

variable {ν ν' : Type}

/-- Sorted maps, nested at most so deep. -/
inductive Fits : Nat → Json ν → Prop where
  | null {d : Nat} : Fits d .null
  | bool {d : Nat} (b : Bool) : Fits d (.bool b)
  | number {d : Nat} (n : ν) : Fits d (.number n)
  | string {d : Nat} (text : Text) : Fits d (.string text)
  | array {d : Nat} {items : List (Json ν)} (h : ∀ item ∈ items, Fits d item) :
      Fits (d + 1) (.array items)
  | object {d : Nat} {fields : List (Text × Json ν)}
      (hsorted : fields.Pairwise fun a b => a.1 < b.1)
      (h : ∀ field ∈ fields, Fits d field.2) : Fits (d + 1) (.object fields)

namespace Fits

variable {d e : Nat} {value : Json ν} {items : List (Json ν)} {fields : Fields ν}

theorem mono (h : Fits d value) (hde : d ≤ e) : Fits e value := by
  induction h generalizing e with
  | null => exact .null
  | bool b => exact .bool b
  | number n => exact .number n
  | string text => exact .string text
  | array _ ih =>
      obtain ⟨e, rfl⟩ : ∃ k, e = k + 1 := ⟨e - 1, by omega⟩
      exact .array fun item hitem => ih item hitem (by omega)
  | object hsorted _ ih =>
      obtain ⟨e, rfl⟩ : ∃ k, e = k + 1 := ⟨e - 1, by omega⟩
      exact .object hsorted fun field hfield => ih field hfield (by omega)

theorem item (h : Fits (d + 1) (.array items)) {item : Json ν} (hitem : item ∈ items) :
    Fits d item := by
  cases h with
  | array h => exact h item hitem

theorem field (h : Fits (d + 1) (.object fields)) {field : Text × Json ν}
    (hfield : field ∈ fields) : Fits d field.2 := by
  cases h with
  | object _ h => exact h field hfield

theorem sorted (h : Fits d (.object fields)) : fields.Pairwise fun a b => a.1 < b.1 := by
  cases h with
  | object hsorted _ => exact hsorted

/-- A container takes a level. -/
theorem of_object (h : Fits d (.object fields)) : ∃ k, d = k + 1 := by
  cases h with
  | object _ _ => exact ⟨_, rfl⟩

theorem of_array (h : Fits d (.array items)) : ∃ k, d = k + 1 := by
  cases h with
  | array _ => exact ⟨_, rfl⟩

/-- A container of one. -/
theorem one_item (h : Fits d value) : Fits (d + 1) (.array [value]) :=
  .array (List.forall_mem_singleton.mpr h)

theorem one_field (h : Fits d value) (key : Text) : Fits (d + 1) (.object [(key, value)]) :=
  .object (List.pairwise_singleton ..) (List.forall_mem_singleton.mpr h)

end Fits

/-- Every map of the value is one: sorted, and no key twice. -/
def Sorted (value : Json ν) : Prop := ∃ d, Fits d value

/-- A value of serde_json. -/
structure Value (ν : Type) where
  json : Json ν
  sorted : json.Sorted

namespace Fields

variable {fields : Fields ν} {key : Text} {value : Json ν}

/-- What an insertion leaves between two keys it was sorted between. -/
theorem sorted_insert (h : fields.Pairwise fun a b => a.1 < b.1) (key : Text) (value : Json ν) :
    (insert key value fields).Pairwise fun a b => a.1 < b.1 := by
  induction fields with
  | nil => simp [insert]
  | cons first fields ih =>
      obtain ⟨hfirst, hrest⟩ := List.pairwise_cons.mp h
      rw [insert]
      split_ifs with heq hlt
      · exact List.pairwise_cons.mpr ⟨fun b hb => heq ▸ hfirst b hb, hrest⟩
      · refine List.pairwise_cons.mpr ⟨?_, h⟩
        intro b hb
        rcases List.mem_cons.mp hb with rfl | hb
        · exact hlt
        · exact List.lt_trans hlt (hfirst b hb)
      · refine List.pairwise_cons.mpr ⟨?_, ih hrest⟩
        intro b hb
        rcases mem_insert hb with rfl | hb
        · -- not equal and not below is above
          by_contra hnot
          exact heq (List.le_antisymm (List.not_lt.mp hlt) (List.not_lt.mp hnot))
        · exact hfirst b hb

@[simp] theorem get_nil (key : Text) : get key ([] : Fields ν) = none := rfl

theorem get_insert (fields : Fields ν) (key key' : Text) (value : Json ν) :
    get key' (insert key value fields) = if key' = key then some value else get key' fields := by
  induction fields with
  | nil =>
      by_cases h : key' = key
      · simp [insert, get, h]
      · simp [insert, get, h, Ne.symm h]
  | cons first fields ih =>
      rw [insert]
      by_cases hfirst : first.1 = key
      · subst hfirst
        by_cases heq : key' = first.1
        · simp [get, heq]
        · simp [get, heq, Ne.symm heq]
      · rw [if_neg hfirst]
        by_cases hlt : key < first.1
        · by_cases heq : key' = key
          · simp [hlt, get, heq]
          · simp [hlt, get, heq, Ne.symm heq]
        · rw [if_neg hlt, get, ih, get]
          by_cases heq : key' = key
          · rw [if_neg (heq ▸ hfirst), if_pos heq, if_pos heq]
          · rw [if_neg heq, if_neg heq]

/-- A second insertion at a key is the only one that counts. -/
theorem insert_insert (fields : Fields ν) (key : Text) (a b : Json ν) :
    insert key b (insert key a fields) = insert key b fields := by
  induction fields with
  | nil => simp [insert]
  | cons first fields ih =>
      obtain ⟨k, v⟩ := first
      by_cases heq : k = key
      · simp [insert, heq]
      · by_cases hlt : key < k
        · simp [insert, heq, hlt]
        · simp [insert, heq, hlt, ih]

/-- What is there already is not moved. -/
theorem insert_of_get (h : fields.Pairwise fun a b => a.1 < b.1) (hget : get key fields = some value) :
    insert key value fields = fields := by
  induction fields with
  | nil => cases hget
  | cons first fields ih =>
      obtain ⟨hfirst, hrest⟩ := List.pairwise_cons.mp h
      rw [get] at hget
      rw [insert]
      split_ifs at hget with heq
      · cases hget
        rw [if_pos heq, ← heq]
      · -- a key that comes later in a sorted map is above this one
        have habove := hfirst _ (mem_of_get hget)
        rw [if_neg heq, if_neg (List.lt_asymm habove), ih hrest hget]

/-- A key above all others goes behind them. -/
theorem insert_of_above (h : ∀ field ∈ fields, field.1 < key) (value : Json ν) :
    insert key value fields = fields ++ [(key, value)] := by
  induction fields with
  | nil => rfl
  | cons first fields ih =>
      have hlt := h first (by simp)
      rw [insert, if_neg ?_, if_neg (List.lt_asymm hlt),
        ih fun field hfield => h field (by simp [hfield])]
      · rfl
      · intro heq
        rw [heq] at hlt
        exact List.lt_irrefl _ hlt

/-- Entries in order, inserted one after the other, stay as they are. -/
theorem foldl_insert_of_sorted (h : fields.Pairwise fun a b => a.1 < b.1) :
    fields.foldl (fun map field => insert field.1 field.2 map) [] = fields := by
  suffices hfold : ∀ done : Fields ν, (done ++ fields).Pairwise (fun a b => a.1 < b.1) →
      fields.foldl (fun map field => insert field.1 field.2 map) done = done ++ fields from
    hfold [] h
  intro done hdone
  clear h
  induction fields generalizing done with
  | nil => simp
  | cons first fields ih =>
      have habove : ∀ field ∈ done, field.1 < first.1 := by
        intro field hfield
        exact (List.pairwise_append.mp hdone).2.2 field hfield first (by simp)
      rw [List.foldl_cons, insert_of_above habove, ih]
      · simp
      · simpa using hdone

theorem sorted_foldl_insert (fields : Fields ν) :
    (fields.foldl (fun map field => insert field.1 field.2 map) []).Pairwise
      fun a b => a.1 < b.1 := by
  suffices hfold : ∀ done : Fields ν, done.Pairwise (fun a b => a.1 < b.1) →
      (fields.foldl (fun map field => insert field.1 field.2 map) done).Pairwise
        fun a b => a.1 < b.1 from hfold [] .nil
  induction fields with
  | nil => exact fun _ hdone => hdone
  | cons first fields ih => exact fun done hdone => ih _ (sorted_insert hdone _ _)

/-- Every entry comes from the list. -/
theorem mem_of_mem_foldl_insert {field : Text × Json ν} {done : Fields ν}
    (h : field ∈ fields.foldl (fun map field => insert field.1 field.2 map) done) :
    field ∈ done ∨ field ∈ fields := by
  induction fields generalizing done with
  | nil => exact .inl h
  | cons first fields ih =>
      rcases ih h with h | h
      · rcases mem_insert h with rfl | h
        · exact .inr (by simp)
        · exact .inl h
      · exact .inr (by simp [h])

/-- In a sorted map, an entry is what its key is looked up to. -/
theorem get_of_mem (h : fields.Pairwise fun a b => a.1 < b.1) (hmem : (key, value) ∈ fields) :
    get key fields = some value := by
  induction fields with
  | nil => cases hmem
  | cons first fields ih =>
      obtain ⟨hfirst, hrest⟩ := List.pairwise_cons.mp h
      rcases List.mem_cons.mp hmem with rfl | hmem
      · simp [get]
      · have hne : first.1 ≠ key := by
          intro heq
          have hlt := hfirst _ hmem
          rw [heq] at hlt
          exact List.lt_irrefl _ hlt
        simp [get, hne, ih hrest hmem]

theorem sorted_remove (h : fields.Pairwise fun a b => a.1 < b.1) (key : Text) :
    (remove key fields).Pairwise fun a b => a.1 < b.1 := by
  induction fields with
  | nil => exact .nil
  | cons first fields ih =>
      obtain ⟨hfirst, hrest⟩ := List.pairwise_cons.mp h
      rw [remove]
      split
      · exact hrest
      · exact List.pairwise_cons.mpr ⟨fun b hb => hfirst b (mem_of_mem_remove hb), ih hrest⟩

/-- A key that no entry has is not found. -/
theorem get_eq_none (h : ∀ field ∈ fields, field.1 ≠ key) : get key fields = none := by
  cases hget : get key fields with
  | none => rfl
  | some value => exact absurd rfl (h _ (mem_of_get hget))

/-- A sorted map has a key once, so its removal leaves none. -/
theorem get_remove (h : fields.Pairwise fun a b => a.1 < b.1) (key key' : Text) :
    get key' (remove key fields) = if key' = key then none else get key' fields := by
  induction fields with
  | nil => simp [remove]
  | cons first fields ih =>
      obtain ⟨k, v⟩ := first
      obtain ⟨hfirst, hrest⟩ := List.pairwise_cons.mp h
      rw [remove]
      by_cases hk : k = key
      · subst hk
        rw [if_pos rfl]
        by_cases heq : key' = k
        · subst heq
          rw [if_pos rfl]
          refine get_eq_none ?_
          intro field hfield hkey
          have habove := hfirst field hfield
          rw [hkey] at habove
          exact List.lt_irrefl _ habove
        · rw [if_neg heq, get, if_neg (Ne.symm heq)]
      · rw [if_neg hk, get, ih hrest, get]
        by_cases heq : key' = key
        · simp [heq, hk]
        · simp [heq]

/-- **Sorted maps are equal when every lookup is.** -/
theorem ext {fields' : Fields ν} (h : fields.Pairwise fun a b => a.1 < b.1)
    (h' : fields'.Pairwise fun a b => a.1 < b.1) (hget : ∀ key, get key fields = get key fields') :
    fields = fields' := by
  have hmem : ∀ field, field ∈ fields ↔ field ∈ fields' := by
    intro field
    constructor
    · intro hfield
      exact mem_of_get ((hget field.1) ▸ get_of_mem h hfield)
    · intro hfield
      exact mem_of_get ((hget field.1) ▸ get_of_mem h' hfield)
  have hnodup : ∀ {l : Fields ν}, l.Pairwise (fun a b => a.1 < b.1) → l.Nodup := by
    intro l hl
    refine hl.imp ?_
    rintro a b hlt rfl
    exact List.lt_irrefl _ hlt
  refine List.Perm.eq_of_pairwise ?_ h h' ((List.perm_ext_iff_of_nodup (hnodup h) (hnodup h')).mpr hmem)
  intro a b _ _ hab hba
  exact absurd hba (List.lt_asymm hab)

/-- What was removed goes back where it was. -/
theorem insert_remove (h : fields.Pairwise fun a b => a.1 < b.1) (hget : get key fields = some value) :
    insert key value (remove key fields) = fields := by
  refine ext (sorted_insert (sorted_remove h key) key value) h ?_
  intro key'
  rw [get_insert, get_remove h]
  split_ifs with heq
  · rw [heq, hget]
  · rfl

/-- A new key is taken out again. -/
theorem remove_insert (hget : get key fields = none) (value : Json ν) :
    remove key (insert key value fields) = fields := by
  induction fields with
  | nil => simp [insert, remove]
  | cons first fields ih =>
      obtain ⟨k, v⟩ := first
      rw [get] at hget
      split_ifs at hget with heq
      rw [insert, if_neg heq]
      split_ifs with hlt
      · rw [remove, if_pos rfl]
      · rw [remove, if_neg heq, ih hget]

/-! The value of a key that is there. -/

theorem get_set {old : Json ν} (hget : get key fields = some old) (new : Json ν) :
    get key (set key new fields) = some new := by
  induction fields with
  | nil => cases hget
  | cons first fields ih =>
      obtain ⟨k, v⟩ := first
      rw [get] at hget
      rw [set]
      split_ifs at hget ⊢ with heq
      · rw [get, if_pos rfl]
      · rw [get, if_neg heq, ih hget]

theorem get_set_of_ne {key' : Text} (hne : key' ≠ key) (new : Json ν) (fields : Fields ν) :
    get key' (set key new fields) = get key' fields := by
  induction fields with
  | nil => rfl
  | cons first fields ih =>
      obtain ⟨k, v⟩ := first
      rw [set]
      split_ifs with heq
      · rw [heq, get, get, if_neg hne.symm, if_neg hne.symm]
      · rw [get, get, ih]

theorem set_set (fields : Fields ν) (key : Text) (a b : Json ν) :
    set key b (set key a fields) = set key b fields := by
  induction fields with
  | nil => rfl
  | cons first fields ih =>
      by_cases heq : first.1 = key
      · simp [set, heq]
      · simp [set, heq, ih]

theorem set_get (hget : get key fields = some value) : set key value fields = fields := by
  induction fields with
  | nil => cases hget
  | cons first fields ih =>
      obtain ⟨k, v⟩ := first
      rw [get] at hget
      rw [set]
      split_ifs at hget ⊢ with heq
      · cases hget
        rw [heq]
      · rw [ih hget]

/-- The order of the entries is nothing to a lookup, where each key is there once. -/
theorem get_perm {fields' : Fields ν} (hnodup : (fields.map Prod.fst).Nodup)
    (hperm : fields'.Perm fields) (key : Text) : get key fields' = get key fields := by
  induction hperm with
  | nil => rfl
  | cons first _ ih =>
      rw [get, get, ih (List.nodup_cons.mp (by simpa using hnodup)).2]
  | swap first second fields =>
      have hne : second.1 ≠ first.1 := by
        intro heq
        simp [heq] at hnodup
      rw [get, get, get, get]
      by_cases hsecond : second.1 = key
      · have hfirst : first.1 ≠ key := fun heq => hne (hsecond.trans heq.symm)
        simp [hsecond, hfirst]
      · simp [hsecond]
  | trans _ h₂ ih₁ ih₂ =>
      rw [ih₁ ((h₂.map Prod.fst).nodup_iff.mpr hnodup), ih₂ hnodup]

end Fields

namespace Fits

variable {d : Nat} {value new : Json ν} {fields : Fields ν} {key : Text}

theorem get (h : Fits (d + 1) value) (hget : value.get key = some new) : Fits d new := by
  cases value with
  | object fields => exact h.field (Fields.mem_of_get hget)
  | null => cases hget
  | bool b => cases hget
  | number n => cases hget
  | string text => cases hget
  | array items => cases hget

theorem insert (h : Fits (d + 1) (.object fields)) (hnew : Fits d new) (key : Text) :
    Fits (d + 1) (.object (Fields.insert key new fields)) := by
  refine .object (Fields.sorted_insert h.sorted key new) ?_
  intro field hfield
  rcases Fields.mem_insert hfield with rfl | hfield
  · exact hnew
  · exact h.field hfield

end Fits

namespace Sorted

variable {value new : Json ν} {fields : Fields ν} {key : Text}

theorem pairwise (h : Sorted (.object fields)) : fields.Pairwise fun a b => a.1 < b.1 :=
  h.elim fun _ hfits => hfits.sorted

theorem field (h : Sorted (.object fields)) {field : Text × Json ν} (hfield : field ∈ fields) :
    Sorted field.2 := by
  obtain ⟨d, hfits⟩ := h
  obtain ⟨d, rfl⟩ := hfits.of_object
  exact ⟨d, hfits.field hfield⟩

theorem get (h : Sorted (.object fields)) (hget : Fields.get key fields = some new) :
    Sorted new := h.field (Fields.mem_of_get hget)

end Sorted

/-! ## An object as it is written in a program -/

/-- `#\x7b key: value, … \x7d`: a map from its entries in any order. -/
def ofFields (fields : List (Text × Json ν)) : Json ν :=
  .object (fields.foldl (fun map field => Fields.insert field.1 field.2 map) [])

theorem get_ofFields (fields : List (Text × Json ν)) (key : Text) :
    (ofFields fields).get key = Fields.get key fields.reverse := by
  suffices hfold : ∀ done : Fields ν,
      Fields.get key (fields.foldl (fun map field => Fields.insert field.1 field.2 map) done) =
        (Fields.get key fields.reverse).or (Fields.get key done) by
    show Fields.get key _ = _
    rw [hfold, Fields.get_nil, Option.or_none]
  have hback : ∀ (front : Fields ν) (last : Text × Json ν), Fields.get key (front ++ [last]) =
      (Fields.get key front).or (if last.1 = key then some last.2 else none) := by
    intro front last
    induction front with
    | nil => simp [Fields.get]
    | cons first front ih =>
        by_cases hfirst : first.1 = key <;> simp [Fields.get, hfirst, ih]
  induction fields with
  | nil => simp
  | cons first fields ih =>
      intro done
      rw [List.foldl_cons, ih, List.reverse_cons, hback, Option.or_assoc, Fields.get_insert]
      congr 1
      by_cases hfirst : first.1 = key
      · simp [hfirst]
      · simp [hfirst, Ne.symm hfirst]

/-- The entries of a sorted map, inserted in any order, give it back. -/
theorem Fields.foldl_insert_of_perm {fields members : Fields ν}
    (h : fields.Pairwise fun a b => a.1 < b.1) (hperm : members.Perm fields) :
    members.foldl (fun map field => insert field.1 field.2 map) [] = fields := by
  refine ext (sorted_foldl_insert members) h fun key => ?_
  have hnodup : (fields.map Prod.fst).Nodup := by
    refine (List.pairwise_map.mpr h).imp ?_
    rintro a b hlt rfl
    exact List.lt_irrefl _ hlt
  rw [← get_perm hnodup (members.reverse_perm.trans hperm) key]
  exact get_ofFields members key

theorem fits_ofFields {d : Nat} {fields : List (Text × Json ν)}
    (h : ∀ field ∈ fields, Fits d field.2) : Fits (d + 1) (ofFields fields) := by
  refine .object (Fields.sorted_foldl_insert fields) ?_
  intro field hfield
  rcases Fields.mem_of_mem_foldl_insert hfield with hfield | hfield
  · cases hfield
  · exact h field hfield

/-! ## Other numbers -/

mutual

def mapNumbers (f : ν → ν') : Json ν → Json ν'
  | .null => .null
  | .bool b => .bool b
  | .number n => .number (f n)
  | .string text => .string text
  | .array items => .array (mapItems f items)
  | .object fields => .object (mapFields f fields)

def mapItems (f : ν → ν') : List (Json ν) → List (Json ν')
  | [] => []
  | item :: items => mapNumbers f item :: mapItems f items

def mapFields (f : ν → ν') : List (Text × Json ν) → List (Text × Json ν')
  | [] => []
  | (key, value) :: fields => (key, mapNumbers f value) :: mapFields f fields

end

section MapNumbers

variable (f : ν → ν')

theorem mapItems_eq (items : List (Json ν)) : mapItems f items = items.map (mapNumbers f) := by
  induction items with
  | nil => rfl
  | cons item items ih => rw [mapItems, ih, List.map_cons]

theorem mapFields_eq (fields : Fields ν) :
    mapFields f fields = fields.map fun field => (field.1, mapNumbers f field.2) := by
  induction fields with
  | nil => rfl
  | cons field fields ih => rw [mapFields, ih, List.map_cons]

/-- The members of a map, each changed in the same way. -/
theorem Fields.get_map (g : Json ν → Json ν') (fields : Fields ν) (key : Text) :
    Fields.get key (fields.map fun field => (field.1, g field.2)) =
      (Fields.get key fields).map g := by
  induction fields with
  | nil => rfl
  | cons field fields ih =>
      by_cases h : field.1 = key
      · simp [Fields.get, h]
      · simp [Fields.get, h, ih]

theorem Fits.mapNumbers {d : Nat} {value : Json ν} (h : Fits d value) :
    Fits d (mapNumbers f value) := by
  induction h with
  | null => exact .null
  | bool b => exact .bool b
  | number n => exact .number (f n)
  | string text => exact .string text
  | array _ ih =>
      rw [Json.mapNumbers, mapItems_eq]
      refine .array ?_
      intro item hitem
      obtain ⟨item, hmem, rfl⟩ := List.mem_map.mp hitem
      exact ih item hmem
  | object hsorted _ ih =>
      rw [Json.mapNumbers, mapFields_eq]
      refine .object (List.pairwise_map.mpr hsorted) ?_
      intro field hfield
      obtain ⟨field, hmem, rfl⟩ := List.mem_map.mp hfield
      exact ih field hmem

mutual

theorem mapNumbers_id : ∀ value : Json ν, mapNumbers (fun n => n) value = value
  | .null | .bool _ | .number _ | .string _ => rfl
  | .array items => congrArg Json.array (mapItems_id items)
  | .object fields => congrArg Json.object (mapFields_id fields)

theorem mapItems_id : ∀ items : List (Json ν), mapItems (fun n => n) items = items
  | [] => rfl
  | item :: items => by rw [mapItems, mapNumbers_id item, mapItems_id items]

theorem mapFields_id : ∀ fields : Fields ν, mapFields (fun n => n) fields = fields
  | [] => rfl
  | (key, value) :: fields => by rw [mapFields, mapNumbers_id value, mapFields_id fields]

end

variable {ν'' : Type}

mutual

theorem mapNumbers_mapNumbers (g : ν' → ν'') : ∀ value : Json ν,
    mapNumbers g (mapNumbers f value) = mapNumbers (fun n => g (f n)) value
  | .null | .bool _ | .number _ | .string _ => rfl
  | .array items => congrArg Json.array (mapItems_mapItems g items)
  | .object fields => congrArg Json.object (mapFields_mapFields g fields)

theorem mapItems_mapItems (g : ν' → ν'') : ∀ items : List (Json ν),
    mapItems g (mapItems f items) = mapItems (fun n => g (f n)) items
  | [] => rfl
  | item :: items => by
      rw [mapItems, mapItems, mapItems, mapNumbers_mapNumbers g item, mapItems_mapItems g items]

theorem mapFields_mapFields (g : ν' → ν'') : ∀ fields : Fields ν,
    mapFields g (mapFields f fields) = mapFields (fun n => g (f n)) fields
  | [] => rfl
  | (key, value) :: fields => by
      rw [mapFields, mapFields, mapFields, mapNumbers_mapNumbers g value,
        mapFields_mapFields g fields]

end

mutual

/-- The numbers of a value, from left to right. -/
def numbers : Json ν → List ν
  | .null | .bool _ | .string _ => []
  | .number n => [n]
  | .array items => itemNumbers items
  | .object fields => fieldNumbers fields

def itemNumbers : List (Json ν) → List ν
  | [] => []
  | item :: items => numbers item ++ itemNumbers items

def fieldNumbers : List (Text × Json ν) → List ν
  | [] => []
  | (_, value) :: fields => numbers value ++ fieldNumbers fields

end

variable {f} {g : ν → ν'}

mutual

/-- Two changes of the numbers differ in a number, if they differ. -/
theorem mapNumbers_eq_iff : ∀ value : Json ν,
    mapNumbers f value = mapNumbers g value ↔ ∀ n ∈ numbers value, f n = g n
  | .null | .bool _ | .string _ => by simp [mapNumbers, numbers]
  | .number n => by simp [mapNumbers, numbers]
  | .array items => by rw [mapNumbers, mapNumbers, array.injEq, numbers, mapItems_eq_iff items]
  | .object fields => by
      rw [mapNumbers, mapNumbers, object.injEq, numbers, mapFields_eq_iff fields]

theorem mapItems_eq_iff : ∀ items : List (Json ν),
    mapItems f items = mapItems g items ↔ ∀ n ∈ itemNumbers items, f n = g n
  | [] => by simp [mapItems, itemNumbers]
  | item :: items => by
      rw [mapItems, mapItems, List.cons.injEq, itemNumbers, List.forall_mem_append,
        mapNumbers_eq_iff item, mapItems_eq_iff items]

theorem mapFields_eq_iff : ∀ fields : Fields ν,
    mapFields f fields = mapFields g fields ↔ ∀ n ∈ fieldNumbers fields, f n = g n
  | [] => by simp [mapFields, fieldNumbers]
  | (key, value) :: fields => by
      rw [mapFields, mapFields, List.cons.injEq, Prod.mk.injEq, fieldNumbers,
        List.forall_mem_append, mapNumbers_eq_iff value, mapFields_eq_iff fields]
      simp

end

end MapNumbers

end Lib.Json
