import RedfishProxy.Script.DeepWrite

/-!
# What a deep write destroys

A write replaces what it finds at its last segment, and the scalars on the way.
It also replaces an array by an object where the segment that meets it is no
index of it: silently at the last segment, and at an inner one when the segment
is no number at all. `KeepsArrays` says that neither happens to an array that
matters. Under it every path beside the written one reads as before
(`frame_setSegments`) and a write past an end is refused; without it one of the
two fails (`loses_of_not_keepsArrays`).
-/

namespace RedfishProxy.ScriptUtil

open Lib Http

variable {ν : Type}

/-! ## Paths beside each other -/

/-- Both segments name the same child: they are equal, or they are the same
index into the array they meet. -/
def SameStep (node : Json ν) (segment other : Text) : Prop :=
  segment = other ∨ ∃ items index, node = .array items ∧ parseUsize segment = some index ∧
    parseUsize other = some index

/-- From `node` on, the paths part before either of them ends. -/
def Diverges : Json ν → List Text → List Text → Prop
  | node, segment :: segments, other :: others =>
    SameStep node segment other → Diverges (slot node segment) segments others
  | _, _, _ => False

/-- Somewhere along the path an element past the end of an array is named. -/
def RunsPastEnd : Json ν → List Text → Prop
  | _, [] => False
  | node, segment :: segments =>
    PastEnd node segment ∨ RunsPastEnd (slot node segment) segments

/-- The segment that meets an array is an index of it, or an index past its end
with segments behind it, or no index when there is nothing in the array. -/
def KeepsArray (node : Json ν) (segment : Text) (segments : List Text) : Prop :=
  ∀ items, node = .array items →
    (∃ index, parseUsize segment = some index ∧ (index < items.length ∨ segments ≠ [])) ∨
      (parseUsize segment = none ∧ items = [])

/-- The same of every array along the path. -/
def KeepsArrays : Json ν → List Text → Prop
  | _, [] => True
  | node, segment :: segments =>
    KeepsArray node segment segments ∧
      (¬ PastEnd node segment → KeepsArrays (slot node segment) segments)

/-- What a deep write promises the rest of the document. -/
def KeepsBeside (value : Json ν) (path : Text) (new : Json ν) : Prop :=
  (∀ written, setAt value path new = .ok written →
    ∀ other, Diverges value (path.splitOn '/') (other.splitOn '/') →
      walk written other = walk value other) ∧
    (RunsPastEnd value (path.splitOn '/') → ∃ fault, setAt value path new = .error fault)

/-! ## One level -/

section Level

variable {node : Json ν} {segment other : Text}

theorem child_of_sameStep (h : SameStep node segment other) :
    child node other = child node segment := by
  rcases h with rfl | ⟨items, index, rfl, hsegment, hother⟩
  · rfl
  · rw [child_index hsegment, child_index hother]

/-- An array that is not replaced still is one. -/
theorem sameStep_setLast (h : SameStep node segment other) (hpast : ¬ PastEnd node segment)
    (new : Json ν) : SameStep (setLast new segment node) segment other := by
  rcases h with rfl | ⟨items, index, rfl, hsegment, hother⟩
  · exact .inl rfl
  · rw [pastEnd_array hsegment] at hpast
    rw [setLast_index hsegment (by omega)]
    exact .inr ⟨_, index, rfl, hsegment, hother⟩

/-- Only an inner segment may index past the end of an array it keeps. -/
theorem KeepsArray.ne_nil {segments : List Text} (hkeeps : KeepsArray node segment segments)
    (hpast : PastEnd node segment) : segments ≠ [] := by
  obtain ⟨items, index, hnode, hindex, hle⟩ := hpast
  rcases hkeeps items hnode with ⟨index', hindex', hlt | hne⟩ | ⟨hnone, _⟩
  · rw [hindex] at hindex'
    cases hindex'
    omega
  · exact hne
  · rw [hindex] at hnone
    cases hnone

/-- What is not an array, or an empty one, has the children of its members. -/
theorem child_eq_get (h : ∀ items, node = .array items → items = []) :
    child node other = Json.Fields.get other (asFields node) := by
  cases node with
  | array items =>
      obtain rfl := h items rfl
      simp [child, asFields, Json.asObject]
  | object fields => rfl
  | null => rfl
  | bool b => rfl
  | number n => rfl
  | string text => rfl

/-- One level of the frame. -/
theorem child_setLast_of_not_sameStep {segments : List Text}
    (hkeeps : KeepsArray node segment segments) (hpast : ¬ PastEnd node segment)
    (h : ¬ SameStep node segment other) (new : Json ν) :
    child (setLast new segment node) other = child node other := by
  have hne : other ≠ segment := fun heq => h (.inl heq.symm)
  rcases level_cases node segment with ⟨items, index, item, rfl, hindex, hitem⟩ | hpast' | hkey
  · obtain ⟨hlt, _⟩ := List.getElem?_eq_some_iff.mp hitem
    rw [setLast_index hindex hlt]
    cases hother : parseUsize other with
    | none => simp [child, hother]
    | some index' =>
        have hindexne : index ≠ index' := by
          rintro rfl
          exact h (.inr ⟨items, index, rfl, hindex, hother⟩)
        rw [child_index hother, child_index hother, List.getElem?_set_ne hindexne]
  · exact absurd hpast' hpast
  · have hempty : ∀ items, node = .array items → items = [] := by
      intro items hnode
      rcases hkeeps items hnode with ⟨index, hindex, _⟩ | ⟨_, hempty⟩
      · exact absurd hindex fun hindex => hkey items index hnode hindex
      · exact hempty
    rw [setLast_key hkey, child_eq_get hempty]
    show Json.Fields.get other (Json.Fields.insert segment new (asFields node)) = _
    rw [Json.Fields.get_insert, if_neg hne]

end Level

/-! ## The frame -/

theorem walk_object_nil {others : List Text} (hne : others ≠ []) :
    others.foldlM child (Json.object [] : Json ν) = none := by
  obtain ⟨other, others, rfl⟩ := List.exists_cons_of_ne_nil hne
  rfl

theorem Diverges.ne_nil {node : Json ν} {segments others : List Text}
    (h : Diverges node segments others) : segments ≠ [] ∧ others ≠ [] := by
  cases segments with
  | nil => exact h.elim
  | cons segment segments =>
      cases others with
      | nil => exact h.elim
      | cons other others => simp

/-- **Beside a write that keeps the arrays, everything reads as before.** -/
theorem frame_setSegments {path : Text} {segments others : List Text} {new node node' : Json ν}
    (h : setSegments path new segments node = .ok node') (hkeeps : KeepsArrays node segments)
    (hdiverges : Diverges node segments others) :
    others.foldlM child node' = others.foldlM child node := by
  induction segments generalizing node node' others with
  | nil => exact hdiverges.elim
  | cons segment segments ih =>
      cases others with
      | nil => exact hdiverges.elim
      | cons other others =>
          obtain ⟨harray, hbelow⟩ := hkeeps
          obtain ⟨inner, rfl, hrest⟩ := setSegments_ok h
          have hpast : ¬ PastEnd node segment := by
            rcases hrest with ⟨rfl, _⟩ | ⟨_, hpast, _⟩
            · exact fun hpast => harray.ne_nil hpast rfl
            · exact hpast
          rw [List.foldlM_cons, List.foldlM_cons]
          by_cases hsame : SameStep node segment other
          · have hd := hdiverges hsame
            obtain ⟨hsegments, hothers⟩ := hd.ne_nil
            have hinner : setSegments path new segments (slot node segment) = .ok inner := by
              rcases hrest with ⟨hnil, _⟩ | ⟨_, _, hinner⟩
              · exact absurd hnil hsegments
              · exact hinner
            have htail := ih hinner (hbelow hpast) hd
            rw [child_of_sameStep (sameStep_setLast hsame hpast inner), child_setLast,
              child_of_sameStep hsame]
            cases hchild : child node segment with
            | some found => simpa [slot, hchild] using htail
            | none =>
                -- the write made an object here, and nothing was read here before
                rw [slot, hchild, Option.getD_none, walk_object_nil hothers] at htail
                simpa using htail
          · rw [child_setLast_of_not_sameStep harray hpast hsame]

/-- A write past an end is refused. -/
theorem refused_of_runsPastEnd {path : Text} {segments : List Text} {node : Json ν}
    (hkeeps : KeepsArrays node segments) (hruns : RunsPastEnd node segments) (new : Json ν) :
    ∃ fault, setSegments path new segments node = .error fault := by
  induction segments generalizing node with
  | nil => exact hruns.elim
  | cons segment segments ih =>
      obtain ⟨harray, hbelow⟩ := hkeeps
      by_cases hpast : PastEnd node segment
      · exact ⟨_, setSegments_past (harray.ne_nil hpast) hpast new⟩
      · have hinner : RunsPastEnd (slot node segment) segments := hruns.resolve_left hpast
        have hne : segments ≠ [] := by
          rintro rfl
          exact hinner
        obtain ⟨fault, hfault⟩ := ih (hbelow hpast) hinner
        exact ⟨fault, by rw [setSegments_cons hne hpast, hfault]; rfl⟩

/-! ## The converse -/

@[simp] theorem slot_object_nil (segment : Text) :
    slot (.object [] : Json ν) segment = .object [] := rfl

theorem not_pastEnd_object (fields : Json.Fields ν) (segment : Text) :
    ¬ PastEnd (.object fields) segment := by
  rintro ⟨items, index, hnode, _⟩
  cases hnode

theorem keepsArrays_object_nil (segments : List Text) :
    KeepsArrays (.object [] : Json ν) segments := by
  induction segments with
  | nil => trivial
  | cons segment segments ih =>
      refine ⟨?_, fun _ => ih⟩
      intro items hnode
      cases hnode

/-- A write into an object made on the way cannot fail. -/
theorem setSegments_object_nil {path : Text} {segments : List Text} (hne : segments ≠ [])
    (new : Json ν) : ∃ made, setSegments path new segments (.object []) = .ok made := by
  induction segments with
  | nil => exact absurd rfl hne
  | cons segment segments ih =>
      by_cases hrest : segments = []
      · subst hrest
        exact ⟨_, setSegments_singleton new _⟩
      · obtain ⟨made, hmade⟩ := ih hrest
        rw [setSegments_cons hrest (not_pastEnd_object _ _), slot_object_nil, hmade]
        exact ⟨_, rfl⟩

/-- A path beside the written one that reads otherwise than before. -/
def Lost (path : Text) (new node : Json ν) (segments : List Text) : Prop :=
  ∃ node' others, setSegments path new segments node = .ok node' ∧
    (∀ other ∈ others, '/' ∉ other) ∧ Diverges node segments others ∧
    others.foldlM child node' ≠ others.foldlM child node

/-- An array is replaced by an object, and its first element is gone. -/
theorem lost_of_key {path segment : Text} {segments : List Text} {items : List (Json ν)}
    (hkey : parseUsize segment = none) (hne : items ≠ []) (new : Json ν) :
    Lost path new (.array items) (segment :: segments) := by
  have hnone : ∀ items' index, Json.array items = .array items' →
      parseUsize segment = some index → False := by
    intro items' index _ hindex
    rw [hkey] at hindex
    cases hindex
  have hpast : ¬ PastEnd (.array items) segment := by
    rintro ⟨_, index, _, hindex, _⟩
    rw [hkey] at hindex
    cases hindex
  have hzero : parseUsize ['0'] = some 0 := by decide
  obtain ⟨inner, hinner⟩ : ∃ inner, setSegments path new (segment :: segments) (.array items) =
      .ok (setLast inner segment (.array items)) := by
    by_cases hrest : segments = []
    · subst hrest
      exact ⟨new, setSegments_singleton new _⟩
    · obtain ⟨made, hmade⟩ : ∃ made, setSegments path new segments (.object []) = .ok made :=
        setSegments_object_nil hrest new
      have hslot : slot (.array items) segment = .object [] := by simp [slot, child, hkey]
      exact ⟨made, by rw [setSegments_cons hrest hpast, hslot, hmade]; rfl⟩
  have hsegment : segment ≠ ['0'] := by
    rintro rfl
    rw [hkey] at hzero
    cases hzero
  refine ⟨_, [['0']], hinner, by decide, ?_, ?_⟩
  · rintro (rfl | ⟨_, index, _, hindex, _⟩)
    · exact absurd rfl hsegment
    · rw [hkey] at hindex
      cases hindex
  · obtain ⟨item, items, rfl⟩ := List.exists_cons_of_ne_nil hne
    rw [setLast_key hnone]
    simp [child, hzero, Json.get, Json.asObject, asFields, Json.Fields.insert, Json.Fields.get,
      hsegment]

/-- **Where an array is not kept, one half of the promise is broken.** -/
theorem loses_of_not_keepsArrays {path : Text} {segments : List Text} {node : Json ν}
    (hslash : ∀ segment ∈ segments, '/' ∉ segment) (h : ¬ KeepsArrays node segments)
    (new : Json ν) :
    (RunsPastEnd node segments ∧ ∃ node', setSegments path new segments node = .ok node') ∨
      Lost path new node segments := by
  induction segments generalizing node with
  | nil => exact absurd trivial h
  | cons segment segments ih =>
      have hrest : ∀ s ∈ segments, '/' ∉ s := fun s hs => hslash s (List.mem_cons_of_mem _ hs)
      by_cases hpast : PastEnd node segment
      · -- only at the last segment does a write go on past an end
        have hnil : segments = [] := by
          by_contra hne
          obtain ⟨items, index, rfl, hindex, _⟩ := id hpast
          refine h ⟨?_, fun hnot => absurd hpast hnot⟩
          intro _ _
          exact .inl ⟨index, hindex, .inr hne⟩
        subst hnil
        exact .inl ⟨.inl hpast, _, setSegments_singleton new node⟩
      by_cases harray : KeepsArray node segment segments
      · have hbelow : ¬ KeepsArrays (slot node segment) segments := fun hk =>
          h ⟨harray, fun _ => hk⟩
        have hne : segments ≠ [] := by
          rintro rfl
          exact hbelow trivial
        -- an object made on the way has no arrays in it
        obtain ⟨found, hfound⟩ : ∃ found, child node segment = some found := by
          cases hchild : child node segment with
          | some found => exact ⟨found, rfl⟩
          | none =>
              rw [slot, hchild] at hbelow
              exact absurd (keepsArrays_object_nil segments) hbelow
        have hset : ∀ inner, setSegments path new segments (slot node segment) = .ok inner →
            setSegments path new (segment :: segments) node =
              .ok (setLast inner segment node) := by
          intro inner hinner
          rw [setSegments_cons hne hpast, hinner]
          rfl
        rcases ih hrest hbelow with ⟨hruns, inner, hinner⟩ | ⟨inner, others, hinner, hothers, hd, hdiffer⟩
        · exact .inl ⟨.inr hruns, _, hset inner hinner⟩
        · refine .inr ⟨_, segment :: others, hset inner hinner, ?_, fun _ => hd, ?_⟩
          · intro other hother
            rcases List.mem_cons.mp hother with rfl | hother
            · exact hslash _ List.mem_cons_self
            · exact hothers other hother
          · rw [List.foldlM_cons, List.foldlM_cons, child_setLast, hfound]
            rw [slot, hfound] at hdiffer
            exact hdiffer
      · -- the array is there, and the segment is no number
        obtain ⟨items, hnode, hnot⟩ := not_forall₂.mp harray
        subst hnode
        have hkey : parseUsize segment = none := by
          cases hindex : parseUsize segment with
          | none => rfl
          | some index =>
              rw [pastEnd_array hindex] at hpast
              exact absurd (.inl ⟨index, hindex, .inl (by omega)⟩) hnot
        exact .inr (lost_of_key hkey (fun hnil => hnot (.inr ⟨hkey, hnil⟩)) new)

/-- **Exactly when a deep write keeps its promise to the rest.** -/
theorem set_keeps_beside_iff {path : Text} (hpath : path ≠ []) (value new : Json ν) :
    KeepsBeside value path new ↔ KeepsArrays value (path.splitOn '/') := by
  unfold KeepsBeside
  simp only [setAt_eq hpath]
  constructor
  · intro ⟨hframe, hrefused⟩
    by_contra hnot
    have hslash : ∀ segment ∈ path.splitOn '/', '/' ∉ segment := fun _ => notMem_of_mem_splitOn
    have hloses : _ ∨ Lost path new value (path.splitOn '/') :=
      loses_of_not_keepsArrays hslash hnot new
    rcases hloses with
      ⟨hruns, written, hwritten⟩ | ⟨written, others, hwritten, hothers, hd, hdiffer⟩
    · obtain ⟨fault, hfault⟩ := hrefused hruns
      rw [hwritten] at hfault
      cases hfault
    · have hother := List.splitOn_intercalate '/' hothers hd.ne_nil.2
      refine hdiffer ?_
      have := hframe written hwritten (['/'].intercalate others) (by rwa [hother])
      unfold walk at this
      rwa [hother] at this
  · intro hkeeps
    refine ⟨?_, ?_⟩
    · intro written hwritten other hd
      exact frame_setSegments hwritten hkeeps hd
    · intro hruns
      exact refused_of_runsPastEnd hkeeps hruns new

theorem set_keeps_beside_index :
    KeepsBeside fansDocument.json "a/0".toList (.number 2) ↔
      KeepsArrays fansDocument.json ("a/0".toList.splitOn '/') :=
  set_keeps_beside_iff (by decide) fansDocument.json (.number 2)

/-- An index past the end at the last segment takes the array with it. -/
theorem set_past_end_replaces :
    setAt fansDocument.json "a/7".toList (.number 3) =
        .ok (.object [("a".toList, .object [("7".toList, .number 3)])]) ∧
      walk fansDocument.json "a/0".toList = some (.number 1) ∧
      walk (.object [("a".toList, .object [("7".toList, .number 3)])] : Json Nat)
        "a/0".toList = none ∧
      ¬ KeepsBeside fansDocument.json "a/7".toList (.number 3) := by
  have hset : setAt fansDocument.json "a/7".toList (.number 3) =
      .ok (.object [("a".toList, .object [("7".toList, .number 3)])]) := rfl
  have hsplit : "a/7".toList.splitOn '/' = ["a".toList, "7".toList] := by decide
  refine ⟨hset, rfl, rfl, ?_⟩
  rintro ⟨_, hrefused⟩
  have hruns : RunsPastEnd fansDocument.json ("a/7".toList.splitOn '/') := by
    rw [hsplit]
    exact .inr (.inl ⟨[.number 1], 7, rfl, by decide, by decide⟩)
  obtain ⟨fault, hfault⟩ := hrefused hruns
  rw [hset] at hfault
  cases hfault

end RedfishProxy.ScriptUtil
