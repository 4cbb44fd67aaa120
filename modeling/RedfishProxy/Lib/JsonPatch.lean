import RedfishProxy.Lib.Json
import RedfishProxy.Lib.JsonPointer

/-!
# JSON Pointer and JSON Patch

RFC 6901 and RFC 6902 on JSON values. An operation works down the tokens of its
path and acts on the container the last one is about.
-/

namespace Lib

variable {ν : Type}

namespace Rfc6901

/-- An array index: digits without a leading zero. -/
def index (token : Text) : Option Nat :=
  match token with
  | [] => none
  | d :: ds =>
    if (d :: ds).all Char.isDigit ∧ (d = '0' → ds = []) then
      some (Nat.ofDigitChars 10 (d :: ds) 0)
    else none

theorem digitChar_of_isDigit {d : Char} (h : d.isDigit = true) :
    (d.toNat - 48).digitChar = d := by
  have hall : ∀ n : Fin 128, (Char.ofNat n).isDigit = true →
      ((Char.ofNat n).toNat - 48).digitChar = Char.ofNat n := by decide
  have hascii : d.toNat < 128 := by
    have := Text.isDigit_toNat h
    omega
  have hspelt : d.isDigit = true → (d.toNat - 48).digitChar = d := by
    apply Text.ascii_cases hall hascii
  exact hspelt h

/-- Digits without a leading zero are what their number is written with. -/
theorem toDigits_ofDigitChars {digits : Text} (hdigits : ∀ d ∈ digits, d.isDigit = true)
    (hne : digits ≠ []) (hlead : digits.head? ≠ some '0') :
    0 < Nat.ofDigitChars 10 digits 0 ∧
      Nat.toDigits 10 (Nat.ofDigitChars 10 digits 0) = digits := by
  induction digits using List.reverseRecOn with
  | nil => exact absurd rfl hne
  | append_singleton front d ih =>
      have hd := hdigits d (by simp)
      have hchar := digitChar_of_isDigit hd
      have hsize : d.toNat - 48 < 10 := by
        have := Text.isDigit_toNat hd
        omega
      have hread : Nat.ofDigitChars 10 (front ++ [d]) 0 =
          10 * Nat.ofDigitChars 10 front 0 + (d.toNat - 48) := by
        rw [Nat.ofDigitChars_append, Nat.ofDigitChars_cons, Nat.ofDigitChars_nil]
        rfl
      by_cases hfront : front = []
      · have hzero : d.toNat - 48 ≠ 0 := by
          intro hzero
          rw [hzero] at hchar
          exact hlead (by rw [hfront, ← hchar]; rfl)
        rw [hread, hfront, Nat.ofDigitChars_nil, Nat.mul_zero, Nat.zero_add,
          Nat.toDigits_of_lt_base hsize, hchar]
        exact ⟨by omega, rfl⟩
      · rw [List.head?_append_of_ne_nil _ hfront] at hlead
        obtain ⟨hpos, hback⟩ := ih (fun c hc => hdigits c (List.mem_append_left _ hc)) hfront hlead
        rw [hread, ← Nat.toDigits_append_toDigits (by decide) hpos hsize, hback,
          Nat.toDigits_of_lt_base hsize, hchar]
        exact ⟨by omega, rfl⟩

/-- **An index is written one way only.** -/
theorem toDigits_of_index {token : Text} {i : Nat} (h : index token = some i) :
    Nat.toDigits 10 i = token := by
  cases token with
  | nil => cases h
  | cons d ds =>
      obtain ⟨⟨hdigits, hzero⟩, hread⟩ := Option.ite_none_right_eq_some.mp h
      obtain rfl := Option.some.inj hread
      by_cases hlead : d = '0'
      · rw [hlead, hzero hlead]
        rfl
      · refine (toDigits_ofDigitChars (List.all_eq_true.mp hdigits) (List.cons_ne_nil _ _) ?_).2
        exact fun hhead => hlead (Option.some.inj hhead)

/-- What a token names inside a value. -/
def child (value : Json ν) (token : Text) : Option (Json ν) :=
  match value with
  | .object fields => Json.Fields.get token fields
  | .array items => (index token).bind fun i => items[i]?
  | _ => none

/-- What the tokens name. -/
def eval (value : Json ν) : List Text → Option (Json ν)
  | [] => some value
  | token :: rest => (child value token).bind fun c => eval c rest

end Rfc6901

namespace Rfc6902

open Rfc6901

/-- The value with another one where the token points. -/
def putChild (value : Json ν) (token : Text) (c : Json ν) : Json ν :=
  match value with
  | .object fields => .object (Json.Fields.set token c fields)
  | .array items => .array (items.set ((index token).getD items.length) c)
  | other => other

/-- `add` to a container: a member is set, an element inserted, and `-` is the
place behind the last. -/
def addMember (token : Text) (new : Json ν) : Json ν → Option (Json ν)
  | .object fields => some (.object (Json.Fields.insert token new fields))
  | .array items =>
    if token = ['-'] then some (.array (items ++ [new]))
    else do
      let i ← index token
      if i ≤ items.length then some (.array (items.take i ++ new :: items.drop i)) else none
  | _ => none

def add : List Text → Json ν → Json ν → Option (Json ν)
  | [], new, _ => some new
  | [token], new, value => addMember token new value
  | token :: next :: rest, new, value => do
    let c ← child value token
    let c ← add (next :: rest) new c
    return putChild value token c

/-- `remove` from a container, of what is there. -/
def removeMember (token : Text) : Json ν → Option (Json ν)
  | .object fields =>
    if (Json.Fields.get token fields).isSome then some (.object (Json.Fields.remove token fields))
    else none
  | .array items => do
    let i ← index token
    if i < items.length then some (.array (items.take i ++ items.drop (i + 1))) else none
  | _ => none

/-- The whole document cannot be removed. -/
def remove : List Text → Json ν → Option (Json ν)
  | [], _ => none
  | [token], value => removeMember token value
  | token :: next :: rest, value => do
    let c ← child value token
    let c ← remove (next :: rest) c
    return putChild value token c

def replace : List Text → Json ν → Json ν → Option (Json ν)
  | [], new, _ => some new
  | token :: rest, new, value => do
    let c ← child value token
    let c ← replace rest new c
    return putChild value token c

inductive Operation (ν : Type) where
  | add (path : List Text) (value : Json ν)
  | remove (path : List Text)
  | replace (path : List Text) (value : Json ν)
  | move (source path : List Text)
  | copy (source path : List Text)
  | test (path : List Text) (value : Json ν)

/-- A pointer that an operation has under a name. -/
def pointerMember (fields : Json.Fields ν) (key : Text) : Option (List Text) := do
  let pointer ← Json.Fields.get key fields
  parse (← pointer.asStr)

/-- The operation of a name, with the members it needs. -/
def Operation.named (fields : Json.Fields ν) (path : List Text) (name : Text) :
    Option (Operation ν) :=
  if name = "add".toList then (Json.Fields.get "value".toList fields).map (.add path)
  else if name = "remove".toList then some (.remove path)
  else if name = "replace".toList then (Json.Fields.get "value".toList fields).map (.replace path)
  else if name = "move".toList then (pointerMember fields "from".toList).map (.move · path)
  else if name = "copy".toList then (pointerMember fields "from".toList).map (.copy · path)
  else if name = "test".toList then (Json.Fields.get "value".toList fields).map (.test path)
  else none

/-- The operation an object stands for. -/
def Operation.ofJson (op : Json ν) : Option (Operation ν) := do
  let fields ← op.asObject
  let name ← (Json.Fields.get "op".toList fields).bind Json.asStr
  let path ← pointerMember fields "path".toList
  Operation.named fields path name

/-- One operation. A move goes nowhere below where it comes from, and is a
removal followed by an addition of what was removed. -/
def Operation.apply [BEq ν] (value : Json ν) : Operation ν → Option (Json ν)
  | .add path new => Rfc6902.add path new value
  | .remove path => Rfc6902.remove path value
  | .replace path new => Rfc6902.replace path new value
  | .move source path =>
    if source <+: path ∧ source ≠ path then none
    else do
      let moved ← eval value source
      Rfc6902.add path moved (← Rfc6902.remove source value)
  | .copy source path => do
    let copied ← eval value source
    Rfc6902.add path copied value
  | .test path wanted => do
    let found ← eval value path
    if found == wanted then some value else none

/-- A patch: the operations in order, to the first that fails. -/
def apply [BEq ν] (value : Json ν) : List (Json ν) → Option (Json ν)
  | [] => some value
  | op :: ops => do
    let op ← Operation.ofJson op
    apply (← op.apply value) ops

/-! ## Below the first token -/

section Below

variable {value new : Json ν} {token : Text} {tokens : List Text}

theorem add_cons (h : tokens ≠ []) :
    add (token :: tokens) new value =
      (child value token).bind fun c => (add tokens new c).map (putChild value token) := by
  cases tokens with
  | nil => exact absurd rfl h
  | cons next rest =>
      rw [add]
      apply Option.bind_congr
      intro c _
      cases add (next :: rest) new c <;> rfl

theorem remove_cons (h : tokens ≠ []) :
    remove (token :: tokens) value =
      (child value token).bind fun c => (remove tokens c).map (putChild value token) := by
  cases tokens with
  | nil => exact absurd rfl h
  | cons next rest =>
      rw [remove]
      apply Option.bind_congr
      intro c _
      cases remove (next :: rest) c <;> rfl

theorem replace_cons :
    replace (token :: tokens) new value =
      (child value token).bind fun c => (replace tokens new c).map (putChild value token) := by
  rw [replace]
  apply Option.bind_congr
  intro c _
  cases replace tokens new c <;> rfl

theorem exists_child_of_removeMember {result : Json ν} (h : removeMember token value = some result) :
    ∃ removed, child value token = some removed := by
  cases value with
  | object fields =>
      rw [removeMember] at h
      split_ifs at h with hget
      exact Option.isSome_iff_exists.1 hget
  | array items =>
      obtain ⟨i, hindex, h⟩ := Option.bind_eq_some_iff.1 h
      split_ifs at h with hi
      exact ⟨items[i], Option.bind_eq_some_iff.2 ⟨i, hindex, List.getElem?_eq_getElem hi⟩⟩
  | _ => cases h

/-- Only what is there is removed. -/
theorem exists_eval_of_remove {result : Json ν} (h : remove tokens value = some result) :
    ∃ removed, eval value tokens = some removed := by
  fun_induction remove tokens value generalizing result with
  | case1 => cases h
  | case2 =>
      obtain ⟨removed, hchild⟩ := exists_child_of_removeMember h
      exact ⟨removed, Option.bind_eq_some_iff.2 ⟨removed, hchild, rfl⟩⟩
  | case3 token next rest value ih =>
      obtain ⟨c, hc, h⟩ := Option.bind_eq_some_iff.1 h
      obtain ⟨c', hc', -⟩ := Option.bind_eq_some_iff.1 h
      obtain ⟨removed, heval⟩ := ih c hc'
      exact ⟨removed, Option.bind_eq_some_iff.2 ⟨c, hc, heval⟩⟩

end Below

/-! ## How far arrays grow -/

section Growth

open Json

variable {n : Nat} {value new result : Json ν} {token : Text} {tokens : List Text}

theorem arraysLe_child (h : ArraysLe n value) (hchild : child value token = some result) :
    ArraysLe n result := by
  cases value with
  | object fields => exact fieldsLe_iff.1 h _ (Fields.mem_of_get hchild)
  | array items =>
      obtain ⟨i, -, hi⟩ := Option.bind_eq_some_iff.1 hchild
      exact itemsLe_iff.1 h.2 _ (List.mem_of_getElem? hi)
  | _ => simp [child] at hchild

theorem arraysLe_eval (h : ArraysLe n value) (heval : eval value tokens = some result) :
    ArraysLe n result := by
  induction tokens generalizing value with
  | nil =>
      cases heval
      exact h
  | cons token tokens ih =>
      obtain ⟨c, hc, heval⟩ := Option.bind_eq_some_iff.1 heval
      exact ih (arraysLe_child h hc) heval

theorem arraysLe_putChild (h : ArraysLe n value) (hnew : ArraysLe n new) :
    ArraysLe n (putChild value token new) := by
  cases value with
  | object fields =>
      apply fieldsLe_iff.2
      intro field hfield
      obtain rfl | hfield := Fields.mem_set hfield
      · exact hnew
      · exact fieldsLe_iff.1 h _ hfield
  | array items =>
      refine ⟨by simpa using h.1, itemsLe_iff.2 fun item hitem => ?_⟩
      obtain hitem | rfl := List.mem_or_eq_of_mem_set hitem
      · exact itemsLe_iff.1 h.2 _ hitem
      · exact hnew
  | _ => exact h

/-- The one array that an addition makes longer gains one element. -/
theorem arraysLe_addMember (h : ArraysLe n value) (hnew : ArraysLe n new)
    (hadd : addMember token new value = some result) : ArraysLe (n + 1) result := by
  have hnew := hnew.mono (n.le_succ)
  cases value with
  | object fields =>
      cases hadd
      apply fieldsLe_iff.2
      intro field hfield
      obtain rfl | hfield := Fields.mem_insert hfield
      · exact hnew
      · exact (fieldsLe_iff.1 h _ hfield).mono n.le_succ
  | array items =>
      have hitems (item) (hitem : item ∈ items) : ArraysLe (n + 1) item :=
        (itemsLe_iff.1 h.2 item hitem).mono n.le_succ
      rw [addMember] at hadd
      split_ifs at hadd with hend
      · cases hadd
        refine ⟨by simpa using h.1, itemsLe_iff.2 ?_⟩
        simpa [or_imp, forall_and] using ⟨hitems, hnew⟩
      · obtain ⟨i, -, hadd⟩ := Option.bind_eq_some_iff.1 hadd
        split_ifs at hadd
        cases hadd
        refine ⟨?_, itemsLe_iff.2 fun item hitem => ?_⟩
        · have := h.1
          simp only [List.length_append, List.length_take, List.length_cons, List.length_drop]
          omega
        · obtain hitem | hitem := List.mem_append.1 hitem
          · exact hitems _ (List.mem_of_mem_take hitem)
          · obtain rfl | hitem := List.mem_cons.1 hitem
            · exact hnew
            · exact hitems _ (List.mem_of_mem_drop hitem)
  | _ => cases hadd

theorem arraysLe_add (h : ArraysLe n value) (hnew : ArraysLe n new)
    (hadd : add tokens new value = some result) : ArraysLe (n + 1) result := by
  fun_induction add tokens new value generalizing result with
  | case1 new => 
      cases hadd
      exact hnew.mono n.le_succ
  | case2 => exact arraysLe_addMember h hnew hadd
  | case3 token next rest new value ih =>
      obtain ⟨c, hc, hadd⟩ := Option.bind_eq_some_iff.1 hadd
      obtain ⟨c', hc', hadd⟩ := Option.bind_eq_some_iff.1 hadd
      cases hadd
      exact arraysLe_putChild (h.mono n.le_succ) (ih c (arraysLe_child h hc) hnew hc')

theorem arraysLe_removeMember (h : ArraysLe n value)
    (hremove : removeMember token value = some result) : ArraysLe n result := by
  cases value with
  | object fields =>
      rw [removeMember] at hremove
      split_ifs at hremove
      cases hremove
      apply fieldsLe_iff.2
      intro field hfield
      exact fieldsLe_iff.1 h _ (Fields.mem_of_mem_remove hfield)
  | array items =>
      obtain ⟨i, -, hremove⟩ := Option.bind_eq_some_iff.1 hremove
      split_ifs at hremove
      cases hremove
      refine ⟨?_, itemsLe_iff.2 fun item hitem => itemsLe_iff.1 h.2 _ ?_⟩
      · have := h.1
        simp only [List.length_append, List.length_take, List.length_drop]
        omega
      · exact (List.mem_append.1 hitem).elim List.mem_of_mem_take List.mem_of_mem_drop
  | _ => cases hremove

theorem arraysLe_remove (h : ArraysLe n value) (hremove : remove tokens value = some result) :
    ArraysLe n result := by
  fun_induction remove tokens value generalizing result with
  | case1 => cases hremove
  | case2 => exact arraysLe_removeMember h hremove
  | case3 token next rest value ih =>
      obtain ⟨c, hc, hremove⟩ := Option.bind_eq_some_iff.1 hremove
      obtain ⟨c', hc', hremove⟩ := Option.bind_eq_some_iff.1 hremove
      cases hremove
      exact arraysLe_putChild h (ih c (arraysLe_child h hc) hc')

theorem arraysLe_replace (h : ArraysLe n value) (hnew : ArraysLe n new)
    (hreplace : replace tokens new value = some result) : ArraysLe n result := by
  induction tokens generalizing value result with
  | nil =>
      cases hreplace
      exact hnew
  | cons token tokens ih =>
      obtain ⟨c, hc, hreplace⟩ := Option.bind_eq_some_iff.1 hreplace
      obtain ⟨c', hc', hreplace⟩ := Option.bind_eq_some_iff.1 hreplace
      cases hreplace
      exact arraysLe_putChild h (ih (arraysLe_child h hc) hc')

/-- The value an operation carries keeps to the bound. -/
def Operation.ArraysLe (n : Nat) : Operation ν → Prop
  | .add _ new | .replace _ new => new.ArraysLe n
  | _ => True

theorem arraysLe_ofJson {op : Json ν} {read : Operation ν} (h : op.ArraysLe n)
    (hread : Operation.ofJson op = some read) : read.ArraysLe n := by
  obtain ⟨fields, hfields, hread⟩ := Option.bind_eq_some_iff.1 hread
  obtain ⟨name, -, hread⟩ := Option.bind_eq_some_iff.1 hread
  obtain ⟨path, -, hnamed⟩ := Option.bind_eq_some_iff.1 hread
  obtain rfl : op = .object fields := by
    cases op <;> cases hfields
    rfl
  have hvalue (new) (hnew : Fields.get "value".toList fields = some new) : new.ArraysLe n :=
    fieldsLe_iff.1 h _ (Fields.mem_of_get hnew)
  unfold Operation.named at hnamed
  split_ifs at hnamed
  all_goals first
    | cases hnamed
      trivial
    | obtain ⟨member, hmember, rfl⟩ := Option.map_eq_some_iff.1 hnamed
      first | exact hvalue member hmember | trivial

theorem arraysLe_apply [BEq ν] {op : Operation ν} (h : value.ArraysLe n) (hop : op.ArraysLe n)
    (happly : op.apply value = some result) : result.ArraysLe (n + 1) := by
  cases op with
  | add path new => exact arraysLe_add h hop happly
  | remove path => exact (arraysLe_remove h happly).mono n.le_succ
  | replace path new => exact (arraysLe_replace h hop happly).mono n.le_succ
  | move source path =>
      rw [Operation.apply] at happly
      split_ifs at happly
      obtain ⟨moved, hmoved, happly⟩ := Option.bind_eq_some_iff.1 happly
      obtain ⟨rest, hrest, happly⟩ := Option.bind_eq_some_iff.1 happly
      exact arraysLe_add (arraysLe_remove h hrest) (arraysLe_eval h hmoved) happly
  | copy source path =>
      obtain ⟨copied, hcopied, happly⟩ := Option.bind_eq_some_iff.1 happly
      exact arraysLe_add h (arraysLe_eval h hcopied) happly
  | test path wanted =>
      obtain ⟨found, -, happly⟩ := Option.bind_eq_some_iff.1 happly
      split_ifs at happly
      cases happly
      exact h.mono n.le_succ

end Growth

end Rfc6902
end Lib
