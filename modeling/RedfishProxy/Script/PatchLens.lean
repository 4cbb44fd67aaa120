import RedfishProxy.Script.PatchPlaces
import RedfishProxy.Script.PatchRfc

/-!
# The two walkers of a pointer

`resolve` reads the place the tokens name and `resolve_mut` hands it out to be
written. They find the same places, and what is written at one is read there and
at no place beside it: two tokens that differ name different members of an
object, and different items of an array, since an index is written one way only.

Main result:
* `resolveMut_lens`: `resolve_mut` finds what `resolve` does, and is a lens.
-/

namespace RedfishProxy.ScriptUtil

open Lib

variable {ν : Type} {unprintable : Char → Bool}

/-- Neither list of tokens is the beginning of the other. -/
def TokensDiverge (tokens others : List Text) : Prop := ¬ tokens <+: others ∧ ¬ others <+: tokens

/-- Two tokens that name the same index are the same. -/
theorem arrayIndex_inj {token token' : Text} {n m index : Nat}
    (h : arrayIndex unprintable token n false = .ok index)
    (h' : arrayIndex unprintable token' m false = .ok index) : token = token' := by
  have hspelt : ∀ {t : Text} {k : Nat}, arrayIndex unprintable t k false = .ok index →
      Nat.toDigits 10 index = t := by
    intro t k ht
    have hread := arrayIndex_toOption unprintable t k
    rw [ht] at hread
    exact Rfc6901.toDigits_of_index (Option.mem_filter_iff.mp hread.symm).1
  rw [← hspelt h, ← hspelt h']

section Level

variable {node new : Json ν} {token token' : Text}

/-- Another token names what it named before. -/
theorem placeIn_putIn_of_ne (hne : token' ≠ token) :
    placeIn unprintable (putIn unprintable new node token) token' =
      placeIn unprintable node token' := by
  cases node with
  | array items =>
      unfold placeIn putIn
      dsimp only
      cases hindex : arrayIndex unprintable token items.length false with
      | error error => rfl
      | ok index =>
          dsimp only
          rw [arrayIndex_length unprintable token' _ items.length]
          cases hindex' : arrayIndex unprintable token' items.length false with
          | error error => rfl
          | ok index' =>
              have hother : index ≠ index' := by
                rintro rfl
                exact hne (arrayIndex_inj hindex' hindex)
              dsimp only
              rw [List.getElem?_set_ne hother]
  | object fields => exact Json.Fields.get_set_of_ne hne new fields
  | null => rfl
  | bool b => rfl
  | number n => rfl
  | string text => rfl

end Level

/-- A write leaves every place beside it as it is. -/
theorem resolve_putAt_of_diverge (new node : Json ν) {tokens others : List Text}
    (h : TokensDiverge tokens others) :
    resolve unprintable (putAt unprintable new node tokens) others =
      resolve unprintable node others := by
  induction tokens generalizing node others with
  | nil => exact absurd List.nil_prefix h.1
  | cons token tokens ih =>
      cases others with
      | nil => exact absurd List.nil_prefix h.2
      | cons other others =>
          cases hplace : placeIn unprintable node token with
          | none => rw [putAt, hplace]
          | some child =>
              rw [putAt_cons hplace, resolve_step, resolve_step]
              by_cases hsame : other = token
              · rw [hsame, placeIn_putIn hplace, hplace]
                refine ih child ⟨fun hpre => h.1 ?_, fun hpre => h.2 ?_⟩
                · exact List.cons_prefix_cons.mpr ⟨hsame.symm, hpre⟩
                · exact List.cons_prefix_cons.mpr ⟨hsame, hpre⟩
              · rw [placeIn_putIn_of_ne hsame]

/-- **The walkers agree, and the mutable one is a lens.** `resolve_mut` finds a
place exactly where `resolve` does, with the same value at it; written back, that
value gives the document, and another one is read at the place, and nowhere
beside it. -/
theorem resolveMut_lens (unprintable : Char → Bool) (d : Json ν) (ts : List Text) :
    (∀ {α : Type} (act : Json ν → Except Text (α × Json ν)),
      (resolveMut unprintable act d ts).isSome = (resolve unprintable d ts).isSome) ∧
    ∀ found, resolve unprintable d ts = some found →
      resolveMut unprintable (fun held => .ok (held, held)) d ts = some (.ok (found, d)) ∧
      ∀ w, ∃ d', resolveMut unprintable (fun held => .ok (held, w)) d ts = some (.ok (found, d')) ∧
        resolve unprintable d' ts = some w ∧
        ∀ us, TokensDiverge ts us → resolve unprintable d' us = resolve unprintable d us := by
  refine ⟨fun act => ?_, fun found hfound => ⟨?_, fun w => ?_⟩⟩
  · rw [resolveMut_eq, Option.isSome_map]
  · rw [resolveMut_eq, hfound, Option.map_some, Except.map, putAt_resolve hfound]
  · refine ⟨putAt unprintable w d ts, ?_, resolve_putAt hfound w,
      fun us h => resolve_putAt_of_diverge w d h⟩
    rw [resolveMut_eq, hfound, Option.map_some, Except.map]

end RedfishProxy.ScriptUtil
