import RedfishProxy.Lib.JsonSize
import RedfishProxy.Script.PatchPlaces

/-!
# A patch cannot blow up a document

What an edit of one place does to the number of nodes, what an operation does,
and from it what a whole patch does. An operation is charged for the nodes it
can bring in: its own value, or the limit of a copy.
-/

namespace RedfishProxy.ScriptUtil

open Lib

variable {ν : Type} {unprintable : Char → Bool}

/-! ## One place -/

section Place

variable {node child found root root' : Json ν} {token last : Text} {tokens : List Text}

theorem nodes_putIn (h : placeIn unprintable node token = some child) (new : Json ν) :
    (putIn unprintable new node token).nodes + child.nodes = node.nodes + new.nodes := by
  cases node with
  | array items =>
      unfold placeIn at h
      unfold putIn
      dsimp only at h ⊢
      cases hindex : arrayIndex unprintable token items.length false with
      | error error =>
          rw [hindex] at h
          cases h
      | ok index =>
          rw [hindex] at h
          have hset := Json.nodesItems_set h new
          show 1 + _ + _ = 1 + _ + _
          omega
  | object fields =>
      have hset := Json.nodesFields_set h new
      show 1 + _ + _ = 1 + _ + _
      omega
  | null => cases h
  | bool b => cases h
  | number n => cases h
  | string text => cases h

/-- A write trades what was at the place for what is put there. -/
theorem nodes_putAt (h : resolve unprintable node tokens = some found) (new : Json ν) :
    (putAt unprintable new node tokens).nodes + found.nodes = node.nodes + new.nodes := by
  induction tokens generalizing node with
  | nil =>
      obtain rfl : node = found := Option.some.inj h
      rw [putAt]
      omega
  | cons token tokens ih =>
      rw [resolve_step] at h
      obtain ⟨child, hplace, hfound⟩ := Option.bind_eq_some_iff.mp h
      have hbelow := ih hfound
      have hlevel := nodes_putIn hplace (putAt unprintable new child tokens)
      rw [putAt_cons hplace]
      omega

/-! ## Edits -/

theorem nodes_addTo {value parent parent' : Json ν}
    (h : addTo unprintable last value parent = .ok ((), parent')) :
    parent'.nodes ≤ parent.nodes + value.nodes := by
  cases parent with
  | array items =>
      obtain ⟨index, _, hle, rfl⟩ := addTo_array_ok.mp h
      have hinsert := Json.nodesItems_insertIdx hle value
      show 1 + _ ≤ 1 + _ + _
      omega
  | object fields =>
      cases h
      have hinsert := Json.nodesFields_insert_le last value fields
      show 1 + _ ≤ 1 + _ + _
      omega
  | null => cases h
  | bool b => cases h
  | number n => cases h
  | string text => cases h

theorem nodes_removeFrom {removed parent parent' : Json ν}
    (h : removeFrom unprintable last parent = .ok (removed, parent')) :
    parent'.nodes + removed.nodes = parent.nodes := by
  cases parent with
  | array items =>
      obtain ⟨index, _, hitem, rfl⟩ := removeFrom_array_ok.mp h
      have herase := Json.nodesItems_eraseIdx hitem
      show 1 + _ + _ = 1 + _
      omega
  | object fields =>
      obtain ⟨hget, rfl⟩ := removeFrom_object_ok.mp h
      have hremove := Json.nodesFields_remove hget
      show 1 + _ + _ = 1 + _
      omega
  | null => cases h
  | bool b => cases h
  | number n => cases h
  | string text => cases h

theorem nodes_patchAdd {value : Json ν}
    (h : patchAdd unprintable root tokens value = .ok root') :
    root'.nodes ≤ root.nodes + value.nodes := by
  cases tokens using List.reverseRecOn with
  | nil =>
      cases h
      omega
  | append_singleton parents last =>
      obtain ⟨parent, parent', hparent, hinto, rfl⟩ := patchAdd_concat_ok.mp h
      have hadded := nodes_addTo hinto
      have hput := nodes_putAt hparent parent'
      omega

theorem nodes_patchRemove {removed : Json ν}
    (h : patchRemove unprintable root tokens = .ok (removed, root')) :
    root'.nodes + removed.nodes = root.nodes := by
  cases tokens using List.reverseRecOn with
  | nil => cases h
  | append_singleton parents last =>
      obtain ⟨parent, parent', hparent, houtOf, rfl⟩ := patchRemove_concat_ok.mp h
      have hremoved := nodes_removeFrom houtOf
      have hput := nodes_putAt hparent parent'
      omega

theorem nodes_patchReplace {value : Json ν}
    (h : patchReplace unprintable root tokens value = .ok root') :
    root'.nodes ≤ root.nodes + value.nodes := by
  obtain ⟨found, hfound, rfl⟩ := patchReplace_ok.mp h
  have hput := nodes_putAt hfound value
  omega

/-- What `move` puts down is what it took up. -/
theorem nodes_patchMove {source : List Text}
    (h : patchMove unprintable root source tokens = .ok root') : root'.nodes ≤ root.nodes := by
  unfold patchMove at h
  split_ifs at h
  obtain ⟨⟨value, rest⟩, hremove, hadd⟩ := bind_ok h
  have htaken := nodes_patchRemove hremove
  have hput := nodes_patchAdd hadd
  omega

end Place

/-! ## Operations -/

/-- The nodes an operation may bring into a document. -/
def charge (op : Json ν) : Nat :=
  match op.get "op".toList with
  | some (.string name) =>
    if name = "add".toList ∨ name = "replace".toList then
      ((op.get "value".toList).map Json.nodes).getD 0
    else if name = "copy".toList then 65536
    else 0
  | _ => 0

theorem charge_named {fields : Json.Fields ν} {name : Text}
    (h : Json.Fields.get "op".toList fields = some (.string name)) :
    charge (.object fields) =
      if name = "add".toList ∨ name = "replace".toList then
        ((Json.Fields.get "value".toList fields).map Json.nodes).getD 0
      else if name = "copy".toList then 65536 else 0 := by
  unfold charge
  rw [show (Json.object fields).get "op".toList = some (.string name) from h]
  rfl

section Operations

variable [BEq ν] {target op target' : Json ν}

/-- **One operation** brings in no more than it is charged. -/
theorem nodes_applyOne (h : applyOne unprintable target op = .ok target') :
    target'.nodes ≤ target.nodes + charge op := by
  obtain ⟨fields, name, path, rfl, hname, _, happlied⟩ := applyOne_ok h
  rw [charge_named hname]
  cases happlied with
  | add hvalue hadd =>
      rw [if_pos (Or.inl rfl), hvalue]
      exact nodes_patchAdd hadd
  | remove hremove =>
      have hnodes := nodes_patchRemove hremove
      omega
  | replace hvalue hreplace =>
      rw [if_pos (Or.inr rfl), hvalue]
      exact nodes_patchReplace hreplace
  | move _ hmove =>
      have hnodes := nodes_patchMove hmove
      omega
  | copy _ _ hsize hadd =>
      have hnodes := nodes_patchAdd hadd
      rw [if_neg (by decide), if_pos rfl]
      rw [MAX_COPY_NODES] at hsize
      omega
  | test _ _ _ => omega

theorem nodes_applyFrom {ops : List (Json ν)} {index : Nat}
    (h : applyFrom unprintable index target ops = .ok target') :
    target'.nodes ≤ target.nodes + (ops.map charge).sum := by
  induction ops generalizing index target with
  | nil =>
      cases h
      omega
  | cons op ops ih =>
      rw [applyFrom] at h
      cases hop : applyOne unprintable target op with
      | error error =>
          rw [hop] at h
          cases h
      | ok next =>
          rw [hop] at h
          have hstep := nodes_applyOne hop
          have hrest := ih h
          rw [List.map_cons, List.sum_cons]
          omega

/-- **A patch cannot blow up a document.** -/
theorem patch_size (unprintable : Char → Bool) :
    (∀ d ops d' : Json ν, applyPatch unprintable d ops = .ok d' →
      ∃ list, ops = .array list ∧ list.length ≤ 1024 ∧
        d'.nodes ≤ d.nodes + (list.map charge).sum) ∧
    ∀ target op target' : Json ν, applyOne unprintable target op = .ok target' →
      (op.get "op".toList = some (.string "move".toList) ∨
        op.get "op".toList = some (.string "remove".toList) ∨
        op.get "op".toList = some (.string "test".toList)) →
      target'.nodes ≤ target.nodes := by
  constructor
  · intro d ops d' h
    cases ops with
    | array list =>
        rw [applyPatch] at h
        split_ifs at h with hlong
        rw [MAX_PATCH_OPS] at hlong
        exact ⟨list, rfl, by omega, nodes_applyFrom h⟩
    | null => cases h
    | bool b => cases h
    | number n => cases h
    | string text => cases h
    | object fields => cases h
  · intro target op target' h hname
    have hnodes := nodes_applyOne h
    obtain ⟨fields, _, _, rfl, _⟩ := applyOne_ok h
    have hfree : charge (.object fields) = 0 := by
      rcases hname with hname | hname | hname <;>
        rw [charge_named hname, if_neg (by decide), if_neg (by decide)]
    omega

/-- A value appended to a list. -/
def appendTwo : Json Nat :=
  .object [("op".toList, .string "add".toList), ("path".toList, .string "/-".toList),
    ("value".toList, .number 2)]

theorem patch_size_append :
    (∃ list, Json.array [appendTwo] = .array list ∧ list.length ≤ 1024 ∧
      (Json.array [.number 1, .number 2] : Json Nat).nodes ≤
        (Json.array [.number 1] : Json Nat).nodes + (list.map charge).sum) ∧
    (Json.array [] : Json Nat).nodes ≤ (Json.array [.number 1] : Json Nat).nodes := by
  let removeFirst : Json Nat :=
    .object [("op".toList, .string "remove".toList), ("path".toList, .string "/0".toList)]
  constructor
  · exact (patch_size fun _ => false).1 _ _ _ rfl
  · exact (patch_size fun _ => false).2 _ removeFirst _ rfl (.inr (.inl rfl))

end Operations

end RedfishProxy.ScriptUtil
