import RedfishProxy.Script.Util

/-!
# Deep reads and deep writes agree

Both `walk` and `set` go down one segment at a time. One level is read by
`child` and written by `setLast`, and these two obey the laws of a lens
(`child_setLast`, `setLast_child`, `setLast_setLast`). A write along a path is
a write one level down, put back with `setLast` (`setSegments_cons`), so each
law of `at` and `set` is induction on the path.
-/

namespace RedfishProxy.ScriptUtil

open Lib Http

variable {ν : Type}

/-! ## One level -/

/-- The segment indexes past the end of the array it meets. -/
def PastEnd (node : Json ν) (segment : Text) : Prop :=
  ∃ items index, node = .array items ∧ parseUsize segment = some index ∧ items.length ≤ index

theorem pastEnd_array {items : List (Json ν)} {segment : Text} {index : Nat}
    (h : parseUsize segment = some index) :
    PastEnd (.array items) segment ↔ items.length ≤ index := by
  constructor
  · intro ⟨items', index', hitems, hindex, hle⟩
    cases hitems
    rw [h] at hindex
    cases hindex
    exact hle
  · intro hle
    exact ⟨items, index, rfl, h, hle⟩

/-- The three things one level of a write can meet. -/
theorem level_cases (node : Json ν) (segment : Text) :
    (∃ items index item, node = .array items ∧ parseUsize segment = some index ∧
      items[index]? = some item) ∨ PastEnd node segment ∨
      ∀ items index, node = .array items → parseUsize segment = some index → False := by
  by_cases hlevel : ∃ items index, node = .array items ∧ parseUsize segment = some index
  · obtain ⟨items, index, hnode, hindex⟩ := hlevel
    cases hitem : items[index]? with
    | some item => exact .inl ⟨items, index, item, hnode, hindex, hitem⟩
    | none =>
        exact .inr (.inl ⟨items, index, hnode, hindex, List.getElem?_eq_none_iff.mp hitem⟩)
  · refine .inr (.inr ?_)
    intro items index hnode hindex
    exact hlevel ⟨items, index, hnode, hindex⟩

section Level

variable {items : List (Json ν)} {index : Nat} {item node : Json ν} {segment : Text}

theorem child_index (hindex : parseUsize segment = some index) :
    child (.array items) segment = items[index]? := by
  unfold child
  rw [hindex]
  rfl

theorem setLast_index (hindex : parseUsize segment = some index) (hlt : index < items.length)
    (new : Json ν) : setLast new segment (.array items) = .array (items.set index new) := by
  unfold setLast
  rw [hindex]
  exact if_pos hlt

theorem setLast_past (h : PastEnd node segment) (new : Json ν) :
    setLast new segment node = .object [(segment, new)] := by
  obtain ⟨items, index, rfl, hindex, hle⟩ := h
  unfold setLast
  rw [hindex]
  exact if_neg (by omega)

theorem setLast_key (h : ∀ items index, node = .array items → parseUsize segment = some index → False)
    (new : Json ν) :
    setLast new segment node = .object (Json.Fields.insert segment new (asFields node)) := by
  unfold setLast
  split
  · exact absurd rfl fun hnode => h _ _ hnode ‹_›
  · rfl

/-- What a key finds is a member, if anything. -/
theorem child_key (h : ∀ items index, node = .array items → parseUsize segment = some index → False) :
    child node segment = Json.Fields.get segment (asFields node) := by
  cases node with
  | array items =>
      cases hindex : parseUsize segment with
      | some index => exact absurd hindex fun hindex => h items index rfl hindex
      | none => simp [child, hindex, asFields, Json.asObject]
  | object fields => rfl
  | null => rfl
  | bool b => rfl
  | number n => rfl
  | string text => rfl

theorem child_past (h : PastEnd node segment) : child node segment = none := by
  obtain ⟨items, index, rfl, hindex, hle⟩ := h
  rw [child_index hindex]
  exact List.getElem?_eq_none hle

/-- What is written is read. -/
theorem child_setLast (new node : Json ν) (segment : Text) :
    child (setLast new segment node) segment = some new := by
  rcases level_cases node segment with ⟨items, index, item, rfl, hindex, hitem⟩ | hpast | hkey
  · obtain ⟨hlt, _⟩ := List.getElem?_eq_some_iff.mp hitem
    rw [setLast_index hindex hlt, child_index hindex, List.getElem?_set_self hlt]
  · rw [setLast_past hpast]
    simp [child, Json.get, Json.asObject, Json.Fields.get]
  · rw [setLast_key hkey]
    show Json.Fields.get segment (Json.Fields.insert segment new (asFields node)) = some new
    rw [Json.Fields.get_insert, if_pos rfl]

/-- What is read, written back, changes nothing. -/
theorem setLast_child {d : Nat} (hfits : Json.Fits d node) (h : child node segment = some item) :
    setLast item segment node = node := by
  rcases level_cases node segment with ⟨items, index, found, rfl, hindex, hitem⟩ | hpast | hkey
  · rw [child_index hindex] at h
    obtain ⟨hlt, rfl⟩ := List.getElem?_eq_some_iff.mp h
    rw [setLast_index hindex hlt, List.set_getElem_self]
  · rw [child_past hpast] at h
    cases h
  · rw [child_key hkey] at h
    rw [setLast_key hkey]
    cases node with
    | object fields => exact congrArg Json.object (Json.Fields.insert_of_get hfits.sorted h)
    | null => cases h
    | bool b => cases h
    | number n => cases h
    | string text => cases h
    | array items => cases h

theorem not_pastEnd_setLast (new node : Json ν) (segment : Text) :
    ¬ PastEnd (setLast new segment node) segment := by
  intro hpast
  have := child_past hpast
  rw [child_setLast] at this
  cases this

/-- The second write at a place is the only one that counts. -/
theorem setLast_setLast (a b node : Json ν) (segment : Text) :
    setLast b segment (setLast a segment node) = setLast b segment node := by
  rcases level_cases node segment with ⟨items, index, item, rfl, hindex, hitem⟩ | hpast | hkey
  · obtain ⟨hlt, _⟩ := List.getElem?_eq_some_iff.mp hitem
    rw [setLast_index hindex hlt, setLast_index hindex (by simpa using hlt),
      setLast_index hindex hlt, List.set_set]
  · have hobject : ∀ items index, Json.object [(segment, a)] = .array items →
        parseUsize segment = some index → False := by
      intro items index hnode
      cases hnode
    rw [setLast_past hpast, setLast_past hpast, setLast_key hobject]
    simp [asFields, Json.asObject, Json.Fields.insert]
  · have hobject : ∀ items index,
        Json.object (Json.Fields.insert segment a (asFields node)) = .array items →
        parseUsize segment = some index → False := by
      intro items index hnode
      cases hnode
    rw [setLast_key hkey, setLast_key hkey, setLast_key hobject]
    exact congrArg Json.object (Json.Fields.insert_insert ..)

end Level

/-! ## A path -/

/-- What the walk of a write goes on with: what is there, or an empty object. -/
def slot (node : Json ν) (segment : Text) : Json ν := (child node segment).getD (.object [])

section Path

variable {path : Text} {segment : Text} {segments : List Text}

theorem setSegments_past (hne : segments ≠ []) {node : Json ν} (h : PastEnd node segment)
    (new : Json ν) : setSegments path new (segment :: segments) node =
      .error [.lit "util::set: ".toList, .display path,
        .lit " indexes past the end of an array".toList] := by
  obtain ⟨next, segments, rfl⟩ := List.exists_cons_of_ne_nil hne
  obtain ⟨items, index, rfl, hindex, hle⟩ := h
  simp only [setSegments, hindex, List.getElem?_eq_none hle]

/-- A write along a path is a write one level down, put back. -/
theorem setSegments_cons (hne : segments ≠ []) {node : Json ν} (h : ¬ PastEnd node segment)
    (new : Json ν) : setSegments path new (segment :: segments) node =
      (setSegments path new segments (slot node segment)).map fun inner =>
        setLast inner segment node := by
  obtain ⟨next, segments, rfl⟩ := List.exists_cons_of_ne_nil hne
  rcases level_cases node segment with ⟨items, index, item, rfl, hindex, hitem⟩ | hpast | hkey
  · obtain ⟨hlt, _⟩ := List.getElem?_eq_some_iff.mp hitem
    simp only [setSegments, hindex, hitem, slot, child_index hindex, Option.getD_some,
      setLast_index hindex hlt]
    cases setSegments path new (next :: segments) item <;> rfl
  · exact absurd hpast h
  · have hset : ∀ inner, setLast inner segment node =
        .object (Json.Fields.insert segment inner (asFields node)) := setLast_key hkey
    rw [setSegments]
    · simp only [slot, child_key hkey, hset]
      cases setSegments path new (next :: segments)
        ((Json.Fields.get segment (asFields node)).getD (.object [])) <;> rfl
    · intro heq
      cases heq
    · intro index items hindex hnode
      exact hkey items index hnode hindex

theorem setSegments_singleton (new node : Json ν) :
    setSegments path new [segment] node = .ok (setLast new segment node) := by
  simp only [setSegments]

/-- What a write that succeeds has done at its first segment. -/
theorem setSegments_ok {new node node' : Json ν}
    (h : setSegments path new (segment :: segments) node = .ok node') :
    ∃ inner, node' = setLast inner segment node ∧
      (segments = [] ∧ inner = new ∨ segments ≠ [] ∧ ¬ PastEnd node segment ∧
        setSegments path new segments (slot node segment) = .ok inner) := by
  by_cases hne : segments = []
  · subst hne
    rw [setSegments_singleton] at h
    cases h
    exact ⟨new, rfl, .inl ⟨rfl, rfl⟩⟩
  · by_cases hpast : PastEnd node segment
    · rw [setSegments_past hne hpast] at h
      cases h
    · rw [setSegments_cons hne hpast] at h
      cases hinner : setSegments path new segments (slot node segment) with
      | error fault =>
          rw [hinner] at h
          cases h
      | ok inner =>
          rw [hinner] at h
          cases h
          exact ⟨inner, rfl, .inr ⟨hne, hpast, rfl⟩⟩

end Path

/-! ## The laws -/

section Laws

variable {path : Text} {segments : List Text}

theorem walk_setSegments {new node node' : Json ν} (hne : segments ≠ [])
    (h : setSegments path new segments node = .ok node') :
    segments.foldlM child node' = some new := by
  induction segments generalizing node node' with
  | nil => exact absurd rfl hne
  | cons segment segments ih =>
      obtain ⟨inner, rfl, hrest⟩ := setSegments_ok h
      rw [List.foldlM_cons, child_setLast]
      rcases hrest with ⟨rfl, rfl⟩ | ⟨hne, _, hinner⟩
      · rfl
      · exact ih hne hinner

theorem setSegments_walk {d : Nat} {node found : Json ν} (hne : segments ≠ [])
    (hfits : Json.Fits d node) (h : segments.foldlM child node = some found) :
    setSegments path found segments node = .ok node := by
  induction segments generalizing d node with
  | nil => exact absurd rfl hne
  | cons segment segments ih =>
      rw [List.foldlM_cons] at h
      obtain ⟨inner, hinner, hwalk⟩ := Option.bind_eq_some_iff.mp h
      cases segments with
      | nil =>
          obtain rfl := Option.some.inj hwalk
          rw [setSegments_singleton, setLast_child hfits hinner]
      | cons next segments =>
          have hpast : ¬ PastEnd node segment := by
            intro hpast
            rw [child_past hpast] at hinner
            cases hinner
          have hpos := fits_pos_of_child hfits hinner
          obtain ⟨d, rfl⟩ : ∃ k, d = k + 1 := ⟨d - 1, by omega⟩
          rw [setSegments_cons (by simp) hpast, slot, hinner, Option.getD_some,
            ih (by simp) (child_fits hfits hinner) hwalk]
          exact congrArg Except.ok (setLast_child hfits hinner)

theorem setSegments_setSegments {a b node node' : Json ν}
    (h : setSegments path a segments node = .ok node') :
    setSegments path b segments node' = setSegments path b segments node := by
  induction segments generalizing node node' with
  | nil => cases h
  | cons segment segments ih =>
      obtain ⟨inner, rfl, hrest⟩ := setSegments_ok h
      rcases hrest with ⟨rfl, rfl⟩ | ⟨hne, hpast, hinner⟩
      · rw [setSegments_singleton, setSegments_singleton, setLast_setLast]
      · rw [setSegments_cons hne hpast, setSegments_cons hne (not_pastEnd_setLast inner node segment),
          slot, child_setLast, Option.getD_some, ih hinner]
        refine congrArg (Except.map · (setSegments path b segments (slot node segment))) ?_
        funext written
        exact setLast_setLast inner written node segment

theorem setAt_eq (hpath : path ≠ []) (value new : Json ν) :
    setAt value path new = setSegments path new (path.splitOn '/') value := by
  unfold setAt
  rw [if_neg (by simpa using hpath)]

/-- **`at` and `set` obey the lens laws.** -/
theorem at_set_lens (value : Json.Value ν) (hpath : path ≠ []) (a b : Json ν) :
    (∀ written, setAt value.json path a = .ok written → valueAt written path = some a) ∧
      (∀ found, valueAt value.json path = some found →
        setAt value.json path found = .ok value.json) ∧
      ∀ written, setAt value.json path a = .ok written →
        setAt written path b = setAt value.json path b := by
  have hne : path.splitOn '/' ≠ [] := List.splitOn_ne_nil '/' path
  simp only [setAt_eq hpath]
  refine ⟨?_, ?_, ?_⟩
  · intro written h
    exact walk_setSegments hne h
  · intro found h
    obtain ⟨d, hfits⟩ := value.sorted
    exact setSegments_walk hne hfits h
  · intro written h
    exact setSegments_setSegments h

/-- `{"a": [1]}`. -/
def fansDocument : Json.Value Nat where
  json := .object [("a".toList, .array [.number 1])]
  sorted := by
    refine ⟨3, .object (List.pairwise_singleton ..) ?_⟩
    intro field hfield
    obtain rfl := List.mem_singleton.mp hfield
    exact .array fun item hitem => List.mem_singleton.mp hitem ▸ .number 1

theorem at_set_lens_index :
    (∀ written, setAt fansDocument.json "a/0".toList (.number 2) = .ok written →
        valueAt written "a/0".toList = some (.number 2)) ∧
      (∀ found, valueAt fansDocument.json "a/0".toList = some found →
        setAt fansDocument.json "a/0".toList found = .ok fansDocument.json) ∧
      ∀ written, setAt fansDocument.json "a/0".toList (.number 2) = .ok written →
        setAt written "a/0".toList (.number 3) =
          setAt fansDocument.json "a/0".toList (.number 3) :=
  at_set_lens fansDocument (by decide) (.number 2) (.number 3)

end Laws

end RedfishProxy.ScriptUtil
