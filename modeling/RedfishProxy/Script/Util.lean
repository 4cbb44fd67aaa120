import RedfishProxy.Http.Fault
import RedfishProxy.Lib.JsonFits
import RedfishProxy.Script.Patch

/-!
# Paths into a value

`util::at`, `util::set` and `util::segment`. A Rune value that serde can write
is a JSON value here, so the two conversions around a walk are the identity. A
path is split at slashes, and a numeric segment indexes an array where it finds
one.
-/

namespace RedfishProxy.ScriptUtil

open Lib Http

variable {ν : Type}

/-- One step of `walk`. -/
def child (node : Json ν) (segment : Text) : Option (Json ν) :=
  match node with
  | .array items => (parseUsize segment).bind fun index => items[index]?
  | other => other.get segment

def walk (value : Json ν) (path : Text) : Option (Json ν) :=
  (path.splitOn '/').foldlM child value

/-- `util::at`. -/
def valueAt (value : Json ν) (path : Text) : Option (Json ν) := walk value path

/-- The object a parent that is none is replaced by. -/
def asFields (node : Json ν) : Json.Fields ν := node.asObject.getD []

/-- `*slot = new`, or an insertion into the node made an object. -/
def setLast (new : Json ν) (last : Text) (node : Json ν) : Json ν :=
  match parseUsize last, node with
  | some index, .array items =>
    if index < items.length then .array (items.set index new)
    else .object (Json.Fields.insert last new [])
  | _, node => .object (Json.Fields.insert last new (asFields node))

/-- The loop over the parents, and the write at the last segment. -/
def setSegments (path : Text) (new : Json ν) : List Text → Json ν → Except Fault (Json ν)
  | [], _ => .error [.lit "util::set needs a path".toList]
  | [last], node => .ok (setLast new last node)
  | segment :: segments, node =>
    match parseUsize segment, node with
    | some index, .array items =>
      match items[index]? with
      | some item => do
        let item ← setSegments path new segments item
        return .array (items.set index item)
      | none => .error [.lit "util::set: ".toList, .display path,
          .lit " indexes past the end of an array".toList]
    | _, node => do
      let fields := asFields node
      let inner ← setSegments path new segments
        ((Json.Fields.get segment fields).getD (.object []))
      return .object (Json.Fields.insert segment inner fields)

/-- `util::set`. -/
def setAt (value : Json ν) (path : Text) (new : Json ν) : Except Fault (Json ν) :=
  -- The empty path has a segment too, and would write a key named "".
  if path.isEmpty then .error [.lit "util::set needs a path".toList]
  else setSegments path new (path.splitOn '/') value

/-- `util::segment`. -/
def segment (path : Text) (index : Int) : Option Text :=
  let parts := path.splitOn '/'
  if index < 0 then
    if index.natAbs ≤ parts.length then parts[parts.length - index.natAbs]? else none
  else parts[index.toNat]?

theorem notMem_of_mem_splitOn {sep : Char} {text piece : Text} (h : piece ∈ text.splitOn sep) :
    sep ∉ piece := by
  induction text generalizing piece with
  | nil =>
      obtain rfl : piece = [] := by simpa using h
      simp
  | cons c text ih =>
      rw [List.splitOn_cons_eq_if_modifyHead] at h
      split at h
      · rcases List.mem_cons.mp h with rfl | h
        · simp
        · exact ih h
      · rename_i hc
        cases hsplit : text.splitOn sep with
        | nil =>
            rw [hsplit] at h
            cases h
        | cons first others =>
            rw [hsplit] at h ih
            rcases List.mem_cons.mp h with rfl | h
            · intro hmem
              rcases List.mem_cons.mp hmem with heq | hmem
              · rw [heq] at hc
                simp at hc
              · exact ih (by simp) hmem
            · exact ih (by simp [h])

/-- A segment is a piece between two slashes. -/
theorem slash_notMem_segment {path piece : Text} {index : Int}
    (h : segment path index = some piece) : '/' ∉ piece := by
  have hmem : piece ∈ path.splitOn '/' := by
    unfold segment at h
    simp only at h
    split_ifs at h
    all_goals exact List.mem_of_getElem? h
  exact notMem_of_mem_splitOn hmem

/-! ## Text -/

/-- `char::is_whitespace`. -/
def isWhitespace (c : Char) : Bool :=
  let n := c.toNat
  (9 ≤ n && n ≤ 13) || n == 0x20 || n == 0x85 || n == 0xA0 || n == 0x1680 ||
    (0x2000 ≤ n && n ≤ 0x200A) || n == 0x2028 || n == 0x2029 || n == 0x202F || n == 0x205F ||
    n == 0x3000

/-- `str::trim`. -/
def trim (text : Text) : Text := (text.dropWhile isWhitespace).rdropWhile isWhitespace

/-! ## What a walk finds -/

theorem child_fits {d : Nat} {node found : Json ν} {segment : Text} (h : Json.Fits (d + 1) node)
    (hchild : child node segment = some found) : Json.Fits d found := by
  unfold child at hchild
  split at hchild
  · obtain ⟨index, _, hitem⟩ := Option.bind_eq_some_iff.mp hchild
    exact h.item (List.mem_of_getElem? hitem)
  · exact h.get hchild

/-- A scalar has no children. -/
theorem fits_pos_of_child {d : Nat} {node found : Json ν} {segment : Text} (h : Json.Fits d node)
    (hchild : child node segment = some found) : 1 ≤ d := by
  cases h with
  | array _ => omega
  | object _ _ => omega
  | null => cases hchild
  | bool b => cases hchild
  | number n => cases hchild
  | string text => cases hchild

/-- Each segment of the path is a level of nesting. -/
theorem walk_fits {d : Nat} {value found : Json ν} {path : Text} (h : Json.Fits d value)
    (hwalk : walk value path = some found) :
    (path.splitOn '/').length ≤ d ∧ Json.Fits (d - (path.splitOn '/').length) found := by
  unfold walk at hwalk
  generalize path.splitOn '/' = segments at hwalk
  induction segments generalizing d value with
  | nil =>
      obtain rfl := Option.some.inj hwalk
      exact ⟨by simp, by simpa using h⟩
  | cons segment segments ih =>
      rw [List.foldlM_cons] at hwalk
      obtain ⟨next, hchild, hwalk⟩ := Option.bind_eq_some_iff.mp hwalk
      have hpos := fits_pos_of_child h hchild
      obtain ⟨d, rfl⟩ : ∃ k, d = k + 1 := ⟨d - 1, by omega⟩
      obtain ⟨hle, hfound⟩ := ih (child_fits h hchild) hwalk
      rw [List.length_cons]
      exact ⟨by omega, by rwa [Nat.add_sub_add_right]⟩

/-! ## What a write leaves -/

/-- The segment is a key wherever it is used. -/
def IsKeySegment (segment : Text) : Prop := parseUsize segment = none

instance (segment : Text) : Decidable (IsKeySegment segment) :=
  inferInstanceAs (Decidable (_ = none))

/-- A key finds nothing in an array. -/
theorem child_of_key {segment : Text} (h : IsKeySegment segment) (node : Json ν) :
    child node segment = node.get segment := by
  unfold child
  split
  · rw [h]
    rfl
  · rfl

theorem valueAt_of_key {path : Text} (hpath : path.splitOn '/' = [path]) (h : IsKeySegment path)
    (value : Json ν) : valueAt value path = value.get path := by
  unfold valueAt walk
  rw [hpath, List.foldlM_cons, child_of_key h]
  cases value.get path <;> rfl

theorem valueAt_of_keys {path first second : Text} (hpath : path.splitOn '/' = [first, second])
    (hfirst : IsKeySegment first) (hsecond : IsKeySegment second) (value : Json ν) :
    valueAt value path = (value.get first).bind fun inner => inner.get second := by
  unfold valueAt walk
  rw [hpath, List.foldlM_cons, child_of_key hfirst]
  cases value.get first with
  | none => rfl
  | some inner =>
      show (child inner second >>= fun found => some found) = inner.get second
      rw [child_of_key hsecond]
      cases inner.get second <;> rfl

theorem setLast_of_key {last : Text} (h : IsKeySegment last) (new node : Json ν) :
    setLast new last node = .object (Json.Fields.insert last new (asFields node)) := by
  unfold setLast
  rw [h]

theorem setSegments_of_key {segment : Text} (h : IsKeySegment segment) (path : Text) (new : Json ν)
    {segments : List Text} (hne : segments ≠ []) (node : Json ν) :
    setSegments path new (segment :: segments) node =
      (setSegments path new segments
        ((Json.Fields.get segment (asFields node)).getD (.object []))).map fun inner =>
          .object (Json.Fields.insert segment inner (asFields node)) := by
  obtain ⟨next, segments, rfl⟩ := List.exists_cons_of_ne_nil hne
  have hkey : ∀ (index : Nat) (items : List (Json ν)), parseUsize segment = some index →
      node = .array items → False := by
    intro index items hindex
    rw [h] at hindex
    cases hindex
  rw [setSegments]
  · cases setSegments path new (next :: segments)
      ((Json.Fields.get segment (asFields node)).getD (.object [])) <;> rfl
  · intro heq
    cases heq
  · exact hkey

/-- The value with the new one at the keys, objects made along the way. -/
def written (new : Json ν) : List Text → Json ν → Json ν
  | [], _ => new
  | key :: keys, node =>
    .object (Json.Fields.insert key
      (written new keys ((Json.Fields.get key (asFields node)).getD (.object []))) (asFields node))

/-- **A write along keys cannot fail.** -/
theorem setAt_of_keys {path : Text} (hpath : path ≠ [])
    (h : ∀ segment ∈ path.splitOn '/', IsKeySegment segment) (value new : Json ν) :
    setAt value path new = .ok (written new (path.splitOn '/') value) := by
  have hempty : path.isEmpty = false := by simpa using hpath
  unfold setAt
  rw [hempty]
  simp only [Bool.false_eq_true, if_false]
  have hne : path.splitOn '/' ≠ [] := List.splitOn_ne_nil '/' path
  generalize path.splitOn '/' = segments at h hne
  induction segments generalizing value with
  | nil => exact absurd rfl hne
  | cons segment segments ih =>
      have hkey := h segment (by simp)
      cases segments with
      | nil =>
          rw [setSegments, setLast_of_key hkey]
          rfl
      | cons next segments =>
          rw [setSegments_of_key hkey path new (by simp),
            ih _ (fun s hs => h s (List.mem_cons_of_mem _ hs)) (by simp)]
          rfl

theorem fits_asFields {d : Nat} {node : Json ν} (h : Json.Fits d node) (hd : 1 ≤ d) :
    Json.Fits d (.object (asFields node)) := by
  have hempty : Json.Fits d (.object ([] : Json.Fields ν)) := by
    obtain ⟨d, rfl⟩ : ∃ k, d = k + 1 := ⟨d - 1, by omega⟩
    exact .object .nil fun field hfield => absurd hfield (by simp)
  cases node with
  | object fields => exact h
  | null => exact hempty
  | bool b => exact hempty
  | number n => exact hempty
  | string text => exact hempty
  | array items => exact hempty

theorem written_fits {d e : Nat} {value new : Json ν} {keys : List Text} (h : Json.Fits d value)
    (hnew : Json.Fits e new) (hle : e + keys.length ≤ d) : Json.Fits d (written new keys value) := by
  induction keys generalizing d value with
  | nil => exact hnew.mono (by simpa using hle)
  | cons key keys ih =>
      rw [List.length_cons] at hle
      obtain ⟨d, rfl⟩ : ∃ k, d = k + 1 := ⟨d - 1, by omega⟩
      have hfields := fits_asFields h (by omega)
      refine hfields.insert ?_ key
      cases hget : Json.Fields.get key (asFields value) with
      | some found => exact ih (hfields.get hget) (by omega)
      | none =>
          cases keys with
          | nil => exact hnew.mono (by omega)
          | cons next keys =>
              refine ih ?_ (by omega)
              rw [List.length_cons] at hle
              obtain ⟨d, rfl⟩ : ∃ k, d = k + 1 := ⟨d - 1, by omega⟩
              exact .object .nil fun field hfield => absurd hfield (by simp)

@[simp] theorem get_written (new node : Json ν) (key : Text) (keys : List Text) (other : Text) :
    (written new (key :: keys) node).get other =
      if other = key then
        some (written new keys ((Json.Fields.get key (asFields node)).getD (.object [])))
      else Json.Fields.get other (asFields node) :=
  Json.Fields.get_insert ..

theorem get_eq_asFields (node : Json ν) (key : Text) :
    node.get key = Json.Fields.get key (asFields node) := by
  cases node <;> rfl

end RedfishProxy.ScriptUtil
