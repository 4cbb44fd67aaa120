import Mathlib.Data.List.Forall2
import RedfishProxy.Http.Rewrite
import RedfishProxy.Script.Util

/-!
# A rewritten document has the shape it had

`rewrite_value` changes string leaves and nothing around them, so a path finds
in the rewritten document what it found before, rewritten. Both path languages
go one level at a time, and one level commutes with the rewrite
(`child_rewriteValue`); the rest is induction on the path.
-/

namespace RedfishProxy.ScriptUtil

open Lib Http

variable {ν : Type}

/-- The same document but for its strings, which are related by `R`. -/
inductive SameShape (R : Text → Text → Prop) : Json ν → Json ν → Prop where
  | null : SameShape R .null .null
  | bool (b : Bool) : SameShape R (.bool b) (.bool b)
  | number (n : ν) : SameShape R (.number n) (.number n)
  | string {s s' : Text} (h : R s s') : SameShape R (.string s) (.string s')
  | array {items items' : List (Json ν)} (h : List.Forall₂ (SameShape R) items items') :
      SameShape R (.array items) (.array items')
  | object {fields fields' : Json.Fields ν}
      (hkeys : fields'.map Prod.fst = fields.map Prod.fst)
      (h : List.Forall₂ (SameShape R) (fields.map Prod.snd) (fields'.map Prod.snd)) :
      SameShape R (.object fields) (.object fields')

variable (target : SocketAddrV4) (base : Text)

theorem sameShape_rewriteValue (value : Json ν) :
    SameShape (fun s s' => swapAuthorities base s (isTarget · target) = some s') value
      (rewriteValue target base value) := by
  induction value using Json.induction with
  | null => exact .null
  | bool b => exact .bool b
  | number n => exact .number n
  | string text =>
      rw [rewriteValue_string]
      exact .string (swapAuthorities_eq_swapped ..)
  | array items ih =>
      rw [rewriteValue, rewriteItems_eq]
      exact .array (List.forall₂_map_right_iff.mpr (List.forall₂_same.mpr ih))
  | object fields ih =>
      rw [rewriteValue, rewriteFields_eq]
      refine .object (by simp) ?_
      rw [List.map_map, List.forall₂_map_left_iff, List.forall₂_map_right_iff]
      exact List.forall₂_same.mpr ih

/-! ## Paths -/

theorem get_rewriteFields (fields : Json.Fields ν) (key : Text) :
    Json.Fields.get key (rewriteFields target base fields) =
      (Json.Fields.get key fields).map (rewriteValue target base) := by
  rw [rewriteFields_eq]
  exact Json.Fields.get_map ..

/-- One level of a walk. -/
theorem child_rewriteValue (value : Json ν) (segment : Text) :
    child (rewriteValue target base value) segment =
      (child value segment).map (rewriteValue target base) := by
  cases value with
  | array items =>
      simp only [rewriteValue, rewriteItems_eq, child, List.getElem?_map]
      cases parseUsize segment <;> rfl
  | object fields => exact get_rewriteFields target base fields segment
  | null => rfl
  | bool b => rfl
  | number n => rfl
  | string text => rfl

theorem walk_rewriteValue (value : Json ν) (path : Text) :
    walk (rewriteValue target base value) path =
      (walk value path).map (rewriteValue target base) := by
  unfold walk
  induction path.splitOn '/' generalizing value with
  | nil => rfl
  | cons segment segments ih =>
      rw [List.foldlM_cons, List.foldlM_cons, child_rewriteValue]
      cases child value segment with
      | none => rfl
      | some found => exact ih found

theorem resolve_rewriteValue (unprintable : Char → Bool) (value : Json ν) (tokens : List Text) :
    resolve unprintable (rewriteValue target base value) tokens =
      (resolve unprintable value tokens).map (rewriteValue target base) := by
  induction tokens generalizing value with
  | nil => simp only [resolve, Option.map_some]
  | cons token tokens ih =>
      cases value with
      | array items =>
          simp only [rewriteValue, rewriteItems_eq, resolve, List.length_map, List.getElem?_map]
          cases arrayIndex unprintable token items.length false with
          | error refused => rfl
          | ok index =>
              cases hitem : items[index]? with
              | none => simp [hitem]
              | some item => simpa [hitem] using ih item
      | object fields =>
          simp only [rewriteValue, resolve, get_rewriteFields]
          cases Json.Fields.get token fields with
          | none => rfl
          | some found => exact ih found
      | null => rfl
      | bool b => rfl
      | number n => rfl
      | string text => rfl

/-- **Rewriting preserves the shape of a document**, and a path into it. -/
theorem rewriteValue_preserves_shape (value : Json ν) :
    SameShape (fun s s' => swapAuthorities base s (isTarget · target) = some s') value
        (rewriteValue target base value) ∧
      (∀ text, rewriteText target base text = swapAuthorities base text (isTarget · target)) ∧
      (∀ path, walk (rewriteValue target base value) path =
        (walk value path).map (rewriteValue target base)) ∧
      ∀ unprintable tokens, resolve unprintable (rewriteValue target base value) tokens =
        (resolve unprintable value tokens).map (rewriteValue target base) := by
  refine ⟨sameShape_rewriteValue target base value, ?_, walk_rewriteValue target base value, ?_⟩
  · intro text
    rw [rewriteText_eq, swapAuthorities_eq]
  · intro unprintable tokens
    exact resolve_rewriteValue target base unprintable value tokens

end RedfishProxy.ScriptUtil
