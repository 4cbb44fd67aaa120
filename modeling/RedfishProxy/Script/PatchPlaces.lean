import RedfishProxy.Lib.JsonFits
import RedfishProxy.Lib.Run
import RedfishProxy.Script.Patch

/-!
# The place a pointer names

`resolve` and `resolve_mut` walk down the same tokens. One level of the walk is
read by `placeIn` and written by `putIn`, which obey the laws of a lens, and so
do the reads and writes along a list of tokens. Whatever is done at a place is a
read of it, and a write back of what came of it (`resolveMut_eq`).
-/

namespace RedfishProxy.ScriptUtil

open Lib

variable {ν : Type} (unprintable : Char → Bool)

/-! ## One level -/

/-- What a token names in a value. -/
def placeIn (node : Json ν) (token : Text) : Option (Json ν) :=
  match node with
  | .array items =>
    match arrayIndex unprintable token items.length false with
    | .ok index => items[index]?
    | .error _ => none
  | .object fields => Json.Fields.get token fields
  | _ => none

/-- Another value at the place a token names. -/
def putIn (new : Json ν) (node : Json ν) (token : Text) : Json ν :=
  match node with
  | .array items =>
    match arrayIndex unprintable token items.length false with
    | .ok index => .array (items.set index new)
    | .error _ => .array items
  | .object fields => .object (Json.Fields.set token new fields)
  | node => node

/-- Only `-` depends on how long the array is. -/
theorem arrayIndex_length (token : Text) (n m : Nat) :
    arrayIndex unprintable token n false = arrayIndex unprintable token m false := rfl

theorem arrayIndex_end {token : Text} (h : token ≠ ['-']) (n m : Nat) (a b : Bool) :
    arrayIndex unprintable token n a = arrayIndex unprintable token m b := by
  unfold arrayIndex
  rw [if_neg h, if_neg h]

section Level

variable {unprintable} {node child new new' : Json ν} {token : Text}

theorem placeIn_putIn (h : placeIn unprintable node token = some child) :
    placeIn unprintable (putIn unprintable new node token) token = some new := by
  cases node with
  | array items =>
      unfold placeIn putIn at *
      dsimp only at *
      cases hindex : arrayIndex unprintable token items.length false with
      | error error =>
          rw [hindex] at h
          cases h
      | ok index =>
          rw [hindex] at h
          obtain ⟨hlt, _⟩ := List.getElem?_eq_some_iff.mp h
          dsimp only
          rw [arrayIndex_length unprintable token _ items.length, hindex]
          exact List.getElem?_set_self hlt
  | object fields => exact Json.Fields.get_set h new
  | null => cases h
  | bool b => cases h
  | number n => cases h
  | string text => cases h

theorem putIn_putIn :
    putIn unprintable new' (putIn unprintable new node token) token =
      putIn unprintable new' node token := by
  cases node with
  | array items =>
      unfold putIn
      dsimp only
      cases hindex : arrayIndex unprintable token items.length false with
      | error error =>
          dsimp only
          rw [hindex]
      | ok index =>
          dsimp only
          rw [arrayIndex_length unprintable token _ items.length, hindex]
          dsimp only
          rw [List.set_set]
  | object fields => exact congrArg Json.object (Json.Fields.set_set ..)
  | null => rfl
  | bool b => rfl
  | number n => rfl
  | string text => rfl

theorem putIn_placeIn (h : placeIn unprintable node token = some child) :
    putIn unprintable child node token = node := by
  cases node with
  | array items =>
      unfold placeIn at h
      unfold putIn
      dsimp only at h ⊢
      cases hindex : arrayIndex unprintable token items.length false with
      | error error => rfl
      | ok index =>
          rw [hindex] at h
          obtain ⟨hlt, rfl⟩ := List.getElem?_eq_some_iff.mp h
          exact congrArg Json.array (List.set_getElem_self hlt)
  | object fields => exact congrArg Json.object (Json.Fields.set_get h)
  | null => cases h
  | bool b => cases h
  | number n => cases h
  | string text => cases h

end Level

/-! ## Along the tokens -/

/-- Another value at the place the tokens name, where there is one. -/
def putAt (new : Json ν) : Json ν → List Text → Json ν
  | _, [] => new
  | node, token :: tokens =>
    match placeIn unprintable node token with
    | some child => putIn unprintable (putAt new child tokens) node token
    | none => node

variable {unprintable} in
theorem putAt_cons {node child : Json ν} {token : Text}
    (h : placeIn unprintable node token = some child) (new : Json ν) (tokens : List Text) :
    putAt unprintable new node (token :: tokens) =
      putIn unprintable (putAt unprintable new child tokens) node token := by
  rw [putAt, h]

theorem resolve_step (node : Json ν) (token : Text) (tokens : List Text) :
    resolve unprintable node (token :: tokens) =
      (placeIn unprintable node token).bind fun child => resolve unprintable child tokens := by
  cases node with
  | array items =>
      rw [resolve, placeIn]
      cases arrayIndex unprintable token items.length false <;> rfl
  | _ => rfl

theorem resolveMut_step {α : Type} (act : Json ν → Except Text (α × Json ν)) (node : Json ν)
    (token : Text) (tokens : List Text) :
    resolveMut unprintable act node (token :: tokens) =
      (placeIn unprintable node token).bind fun child =>
        (resolveMut unprintable act child tokens).map (Except.map fun done =>
          (done.1, putIn unprintable done.2 node token)) := by
  cases node with
  | array items =>
      rw [resolveMut, placeIn]
      unfold putIn
      dsimp only
      cases arrayIndex unprintable token items.length false <;> rfl
  | _ => rfl

/-- **What is done at a place** is a read of it, and a write of what came of it. -/
theorem resolveMut_eq {α : Type} (act : Json ν → Except Text (α × Json ν)) (node : Json ν)
    (tokens : List Text) :
    resolveMut unprintable act node tokens =
      (resolve unprintable node tokens).map fun found =>
        (act found).map fun done => (done.1, putAt unprintable done.2 node tokens) := by
  induction tokens generalizing node with
  | nil =>
      rw [resolveMut, resolve, Option.map_some]
      cases act node <;> rfl
  | cons token tokens ih =>
      rw [resolveMut_step, resolve_step]
      cases hplace : placeIn unprintable node token with
      | none => rfl
      | some child =>
          rw [Option.bind_some, Option.bind_some, ih]
          cases resolve unprintable child tokens with
          | none => rfl
          | some found =>
              rw [Option.map_some, Option.map_some, Option.map_some]
              cases act found with
              | error error => rfl
              | ok done =>
                  simp only [Except.map, putAt_cons hplace]

section Along

variable {unprintable} {node found new new' : Json ν} {tokens : List Text}

theorem resolve_putAt (h : resolve unprintable node tokens = some found) (new : Json ν) :
    resolve unprintable (putAt unprintable new node tokens) tokens = some new := by
  induction tokens generalizing node with
  | nil => rfl
  | cons token tokens ih =>
      rw [resolve_step] at h
      obtain ⟨child, hplace, hfound⟩ := Option.bind_eq_some_iff.mp h
      rw [putAt_cons hplace, resolve_step, placeIn_putIn hplace, Option.bind_some, ih hfound]

theorem putAt_putAt (h : resolve unprintable node tokens = some found) (new new' : Json ν) :
    putAt unprintable new' (putAt unprintable new node tokens) tokens =
      putAt unprintable new' node tokens := by
  induction tokens generalizing node with
  | nil => rfl
  | cons token tokens ih =>
      rw [resolve_step] at h
      obtain ⟨child, hplace, hfound⟩ := Option.bind_eq_some_iff.mp h
      rw [putAt_cons hplace, putAt_cons (placeIn_putIn hplace), putAt_cons hplace, ih hfound,
        putIn_putIn]

theorem putAt_resolve (h : resolve unprintable node tokens = some found) :
    putAt unprintable found node tokens = node := by
  induction tokens generalizing node with
  | nil =>
      obtain rfl : node = found := Option.some.inj h
      rfl
  | cons token tokens ih =>
      rw [resolve_step] at h
      obtain ⟨child, hplace, hfound⟩ := Option.bind_eq_some_iff.mp h
      rw [putAt_cons hplace, ih hfound, putIn_placeIn hplace]

/-- A place below a place of a sorted value is one. -/
theorem fits_placeIn {d : Nat} {token : Text} (h : Json.Fits d node)
    (hplace : placeIn unprintable node token = some found) : Json.Fits d found := by
  cases node with
  | array items =>
      obtain ⟨d, rfl⟩ := h.of_array
      unfold placeIn at hplace
      dsimp only at hplace
      split at hplace
      · exact (h.item (List.mem_of_getElem? hplace)).mono d.le_succ
      · cases hplace
  | object fields =>
      obtain ⟨d, rfl⟩ := h.of_object
      exact (h.field (Json.Fields.mem_of_get hplace)).mono d.le_succ
  | null => cases hplace
  | bool b => cases hplace
  | number n => cases hplace
  | string text => cases hplace

theorem fits_resolve {d : Nat} (h : Json.Fits d node)
    (hfound : resolve unprintable node tokens = some found) : Json.Fits d found := by
  induction tokens generalizing node with
  | nil =>
      obtain rfl : node = found := Option.some.inj hfound
      exact h
  | cons token tokens ih =>
      rw [resolve_step] at hfound
      obtain ⟨child, hplace, hfound⟩ := Option.bind_eq_some_iff.mp hfound
      exact ih (fits_placeIn h hplace) hfound

end Along

/-! ## Additions, removals and replacements -/

section Parent

variable {unprintable} {last : Text} {value parent' : Json ν}

theorem addTo_array_ok {items : List (Json ν)} :
    addTo unprintable last value (.array items) = .ok ((), parent') ↔
      ∃ index, arrayIndex unprintable last items.length true = .ok index ∧
        index ≤ items.length ∧ parent' = .array (items.insertIdx index value) := by
  unfold addTo
  dsimp only
  cases arrayIndex unprintable last items.length true with
  | error error =>
      constructor
      · intro h
        cases h
      · rintro ⟨_, h, _⟩
        cases h
  | ok index =>
      show (if index > items.length then _ else _) = _ ↔ _
      split_ifs with hpast
      · constructor
        · intro h
          cases h
        · rintro ⟨_, h, hle, _⟩
          cases h
          omega
      · constructor
        · intro h
          cases h
          exact ⟨index, rfl, by omega, rfl⟩
        · rintro ⟨_, h, _, rfl⟩
          cases h
          rfl

theorem removeFrom_array_ok {items : List (Json ν)} :
    removeFrom unprintable last (.array items) = .ok (value, parent') ↔
      ∃ index, arrayIndex unprintable last items.length false = .ok index ∧
        items[index]? = some value ∧ parent' = .array (items.eraseIdx index) := by
  unfold removeFrom
  dsimp only
  cases arrayIndex unprintable last items.length false with
  | error error =>
      constructor
      · intro h
        cases h
      · rintro ⟨_, h, _⟩
        cases h
  | ok index =>
      dsimp only [bind, Except.bind]
      cases hitem : items[index]? with
      | none =>
          constructor
          · intro h
            cases h
          · rintro ⟨_, h, hsome, _⟩
            cases h
            rw [hitem] at hsome
            cases hsome
      | some removed =>
          constructor
          · intro h
            cases h
            exact ⟨index, rfl, hitem, rfl⟩
          · rintro ⟨_, h, hsome, rfl⟩
            cases h
            rw [hitem] at hsome
            cases hsome
            rfl

theorem removeFrom_object_ok {fields : Json.Fields ν} :
    removeFrom unprintable last (.object fields) = .ok (value, parent') ↔
      Json.Fields.get last fields = some value ∧
        parent' = .object (Json.Fields.remove last fields) := by
  unfold removeFrom
  dsimp only
  cases Json.Fields.get last fields with
  | none =>
      constructor
      · intro h
        cases h
      · rintro ⟨h, _⟩
        cases h
  | some removed =>
      constructor
      · intro h
        cases h
        exact ⟨rfl, rfl⟩
      · rintro ⟨h, rfl⟩
        cases h
        rfl

end Parent

section Edits

variable {unprintable} {root root' removed : Json ν}

/-- **An addition** is one to the parent, written back. -/
theorem patchAdd_concat_ok {parents : List Text} {last : Text} {value : Json ν} :
    patchAdd unprintable root (parents ++ [last]) value = .ok root' ↔
      ∃ parent parent', resolve unprintable root parents = some parent ∧
        addTo unprintable last value parent = .ok ((), parent') ∧
        root' = putAt unprintable parent' root parents := by
  unfold patchAdd
  rw [List.getLast?_concat, List.dropLast_concat]
  dsimp only
  rw [resolveMut_eq]
  cases resolve unprintable root parents with
  | none => simp
  | some parent =>
      rw [Option.map_some]
      dsimp only
      cases hadd : addTo unprintable last value parent with
      | error error => simp [Except.map, hadd]
      | ok added =>
          obtain ⟨⟨⟩, parent'⟩ := added
          simp [Except.map, hadd, eq_comm]

/-- **A removal** likewise. -/
theorem patchRemove_concat_ok {parents : List Text} {last : Text} :
    patchRemove unprintable root (parents ++ [last]) = .ok (removed, root') ↔
      ∃ parent parent', resolve unprintable root parents = some parent ∧
        removeFrom unprintable last parent = .ok (removed, parent') ∧
        root' = putAt unprintable parent' root parents := by
  unfold patchRemove
  rw [List.getLast?_concat, List.dropLast_concat]
  dsimp only
  rw [resolveMut_eq]
  cases resolve unprintable root parents with
  | none => simp
  | some parent =>
      rw [Option.map_some]
      dsimp only
      cases hremove : removeFrom unprintable last parent with
      | error error => simp [Except.map, hremove]
      | ok gone =>
          obtain ⟨gone, parent'⟩ := gone
          constructor
          · intro h
            cases h
            exact ⟨parent, parent', rfl, hremove, rfl⟩
          · rintro ⟨_, _, hparent, hgone, rfl⟩
            cases hparent
            rw [hremove] at hgone
            cases hgone
            rfl

theorem patchReplace_ok {tokens : List Text} {value : Json ν} :
    patchReplace unprintable root tokens value = .ok root' ↔
      ∃ found, resolve unprintable root tokens = some found ∧
        root' = putAt unprintable value root tokens := by
  unfold patchReplace
  rw [resolveMut_eq]
  cases resolve unprintable root tokens with
  | none => simp
  | some found => simp [Except.map, eq_comm]

end Edits

/-! ## One operation -/

/-- What an operation that succeeds did, by its name. -/
inductive Applied [BEq ν] (target : Json ν) (op : Json.Fields ν) (path : List Text) :
    Text → Json ν → Prop where
  | add {value target' : Json ν} (hvalue : Json.Fields.get "value".toList op = some value)
      (h : patchAdd unprintable target path value = .ok target') :
      Applied target op path "add".toList target'
  | remove {removed target' : Json ν}
      (h : patchRemove unprintable target path = .ok (removed, target')) :
      Applied target op path "remove".toList target'
  | replace {value target' : Json ν} (hvalue : Json.Fields.get "value".toList op = some value)
      (h : patchReplace unprintable target path value = .ok target') :
      Applied target op path "replace".toList target'
  | move {source : List Text} {target' : Json ν}
      (hsource : pointerField unprintable op "from".toList = .ok source)
      (h : patchMove unprintable target source path = .ok target') :
      Applied target op path "move".toList target'
  | copy {source : List Text} {value target' : Json ν}
      (hsource : pointerField unprintable op "from".toList = .ok source)
      (hvalue : resolve unprintable target source = some value)
      (hsize : value.nodes ≤ MAX_COPY_NODES)
      (h : patchAdd unprintable target path value = .ok target') :
      Applied target op path "copy".toList target'
  | test {value found : Json ν} (hvalue : Json.Fields.get "value".toList op = some value)
      (hfound : resolve unprintable target path = some found) (h : (found == value) = true) :
      Applied target op path "test".toList target

section Operations

variable {unprintable}

theorem okOr_ok {α : Type} {found : Option α} {error : Text} {a : α}
    (h : okOr found error = .ok a) : found = some a := by
  cases found with
  | none => cases h
  | some b => exact congrArg some (Except.ok.inj h)

variable {op : Json.Fields ν}

theorem valueField_ok {value : Json ν} (h : valueField op = .ok value) :
    Json.Fields.get "value".toList op = some value := by
  unfold valueField at h
  cases hget : Json.Fields.get "value".toList op with
  | none =>
      rw [hget] at h
      cases h
  | some found =>
      rw [hget] at h
      cases h
      rfl

theorem nameField_ok {name : Text} (h : nameField op = .ok name) :
    Json.Fields.get "op".toList op = some (.string name) := by
  unfold nameField at h
  split at h
  · cases h
    assumption
  · cases h
  · cases h

theorem applyNamed_ok [BEq ν] {target target' : Json ν} {name : Text} {path : List Text}
    (h : applyNamed unprintable target op name path = .ok target') :
    Applied unprintable target op path name target' := by
  unfold applyNamed at h
  split_ifs at h with hadd hremove hreplace hmove hcopy htest
  · obtain ⟨value, hvalue, h⟩ := bind_ok h
    exact hadd ▸ .add (valueField_ok hvalue) h
  · obtain ⟨⟨removed, rest⟩, hgone, rfl⟩ := map_ok h
    exact hremove ▸ .remove hgone
  · obtain ⟨value, hvalue, h⟩ := bind_ok h
    exact hreplace ▸ .replace (valueField_ok hvalue) h
  · obtain ⟨source, hsource, h⟩ := bind_ok h
    exact hmove ▸ .move hsource h
  · obtain ⟨source, hsource, h⟩ := bind_ok h
    obtain ⟨value, hvalue, h⟩ := bind_ok h
    split_ifs at h with hsize
    exact hcopy ▸ .copy hsource (okOr_ok hvalue) (by omega) h
  · obtain ⟨value, hvalue, h⟩ := bind_ok h
    obtain ⟨found, hfound, h⟩ := bind_ok h
    split_ifs at h with heq
    cases h
    exact htest ▸ .test (valueField_ok hvalue) (okOr_ok hfound) heq

/-- **An operation that succeeds** is an object with a name and a path. -/
theorem applyOne_ok [BEq ν] {target op target' : Json ν}
    (h : applyOne unprintable target op = .ok target') :
    ∃ fields name path, op = .object fields ∧
      Json.Fields.get "op".toList fields = some (.string name) ∧
      pointerField unprintable fields "path".toList = .ok path ∧
      Applied unprintable target fields path name target' := by
  cases op with
  | object fields =>
      obtain ⟨name, hname, h⟩ := bind_ok h
      obtain ⟨path, hpath, h⟩ := bind_ok h
      exact ⟨fields, name, path, rfl, nameField_ok hname, hpath, applyNamed_ok h⟩
  | null => cases h
  | bool b => cases h
  | number n => cases h
  | string text => cases h
  | array items => cases h

end Operations

end RedfishProxy.ScriptUtil
