import RedfishProxy.Lib.JsonPointer
import RedfishProxy.Script.PatchPlaces
import RedfishProxy.Script.PatchRfc

/-!
# Which texts are read as pointers

`pointer_tokens` looks at the first character alone and unescapes by two
replacements, which leave a tilde they do not know as it is. It is the grammar
on the texts whose tildes are closed, and takes every other text behind a slash
for a pointer too.
-/

namespace RedfishProxy.ScriptUtil

open Lib

variable (unprintable : Char → Bool)

theorem pointerTokens_ok_iff {s : Text} :
    (∃ tokens, pointerTokens unprintable s = .ok tokens) ↔ s = [] ∨ s.head? = some '/' := by
  unfold pointerTokens
  split
  · exact ⟨fun _ => .inl rfl, fun _ => ⟨[], rfl⟩⟩
  · exact ⟨fun _ => .inr rfl, fun _ => ⟨_, rfl⟩⟩
  · rename_i hempty hslash
    constructor
    · rintro ⟨_, h⟩
      cases h
    · rintro (h | h)
      · exact absurd h hempty
      · cases s with
        | nil => cases h
        | cons c rest => exact absurd (congrArg (· :: rest) (Option.some.inj h)) (hslash rest)

/-- Where a slash stands in front, only the tildes decide. -/
theorem pointerTokens_grammar_iff {s : Text} :
    ((∃ tokens, pointerTokens unprintable s = .ok tokens) ↔ Rfc6901.IsPointer s) ↔
      (s.head? = some '/' → Rfc6901.Closed s) := by
  rw [pointerTokens_ok_iff, Rfc6901.isPointer_iff]
  constructor
  · intro h hslash
    exact (h.mp (.inr hslash)).2
  · intro h
    refine ⟨fun hstart => ⟨hstart, ?_⟩, And.left⟩
    rcases hstart with rfl | hslash
    · exact Rfc6901.Closed.nil
    · exact h hslash

/-! ## Escaped tokens -/

/-- `str::replace` of a character by a text. -/
def replaceChar (c : Char) (by' : Text) (text : Text) : Text :=
  text.flatMap fun d => if d = c then by' else [d]

/-- A token escaped: `~` becomes `~0`, and only then `/` becomes `~1`. -/
def escape (token : Text) : Text :=
  replaceChar '/' "~1".toList (replaceChar '~' "~0".toList token)

/-- No replacement meets what the other one wrote. -/
theorem escape_eq (token : Text) : escape token = Rfc6901.write token := by
  unfold escape replaceChar Rfc6901.write
  rw [List.flatMap_assoc]
  refine List.flatMap_congr fun c _ => ?_
  unfold Rfc6901.escapeChar
  split_ifs with htilde hslash
  · rfl
  · rw [hslash]
    rfl
  · rw [List.flatMap_singleton, if_neg hslash]

/-- **Escaping and parsing are inverse**: the tokens of a pointer put together
from escaped tokens are those tokens, and no tokens are the empty pointer. -/
theorem pointerTokens_escape (tokens : List Text) :
    pointerTokens unprintable (tokens.flatMap fun token => '/' :: escape token) = .ok tokens ∧
      ((tokens.flatMap fun token => '/' :: escape token) = [] ↔ tokens = []) := by
  have hwrite : (tokens.flatMap fun token => '/' :: escape token) =
      tokens.flatMap fun token => '/' :: Rfc6901.write token :=
    List.flatMap_congr fun token _ => by rw [escape_eq]
  constructor
  · rw [hwrite]
    exact pointerTokens_of_parse unprintable (Rfc6901.parse_write tokens)
  · cases tokens with
    | nil => exact iff_of_true rfl rfl
    | cons token tokens =>
        rw [List.flatMap_cons, List.cons_append]
        exact iff_of_false (List.cons_ne_nil _ _) (List.cons_ne_nil _ _)

section Operations

variable {ν : Type}

variable {unprintable} in
theorem pointerField_string {fields : Json.Fields ν} {key s : Text}
    (h : Json.Fields.get key fields = some (.string s)) :
    pointerField unprintable fields key = pointerTokens unprintable s := by
  unfold pointerField
  rw [h]

variable [BEq ν]

/-- A text an operation reads as a pointer: its path, and the source of a move
or a copy. -/
def Reads (op : Json ν) (s : Text) : Prop :=
  op.get "path".toList = some (.string s) ∨
    op.get "from".toList = some (.string s) ∧
      (op.get "op".toList = some (.string "move".toList) ∨
        op.get "op".toList = some (.string "copy".toList))

variable {unprintable} {op : Json ν} {s : Text}

/-- An operation that succeeds read all its pointers. -/
theorem pointerTokens_of_applyOne (hreads : Reads op s) {target target' : Json ν}
    (h : applyOne unprintable target op = .ok target') :
    ∃ tokens, pointerTokens unprintable s = .ok tokens := by
  obtain ⟨fields, name, path, rfl, hname, hpath, happlied⟩ := applyOne_ok h
  rcases hreads with hread | ⟨hread, hop⟩
  · exact ⟨path, by rw [← hpath, pointerField_string hread]⟩
  · have hnamed : name = "move".toList ∨ name = "copy".toList := by
      rcases hop with hop | hop
      · cases hname.symm.trans hop
        exact .inl rfl
      · cases hname.symm.trans hop
        exact .inr rfl
    cases happlied with
    | move hsource _ => exact ⟨_, by rw [← hsource, pointerField_string hread]⟩
    | copy hsource _ _ _ => exact ⟨_, by rw [← hsource, pointerField_string hread]⟩
    | add _ _ => rcases hnamed with h | h <;> cases h
    | remove _ => rcases hnamed with h | h <;> cases h
    | replace _ _ => rcases hnamed with h | h <;> cases h
    | test _ _ _ => rcases hnamed with h | h <;> cases h

end Operations

/-- **Pointers are parsed by the grammar** on just the texts that do not start
with a slash or have their tildes closed. -/
theorem pointer_grammar {ν : Type} [BEq ν] (texts : Set Text) :
    ((∀ s ∈ texts, (∃ tokens, pointerTokens unprintable s = .ok tokens) ↔ Rfc6901.IsPointer s) ∧
      (∀ s ∈ texts, ¬ Rfc6901.IsPointer s → ∀ target op : Json ν, Reads op s →
        ∃ error, applyOne unprintable target op = .error error) ∧
      ∀ s ∈ texts, ∀ s' ∈ texts, ∀ tokens, pointerTokens unprintable s = .ok tokens →
        pointerTokens unprintable s' = .ok tokens → s = s') ↔
      ∀ s ∈ texts, s.head? = some '/' → Rfc6901.Closed s := by
  constructor
  · intro h s hs
    exact (pointerTokens_grammar_iff unprintable).mp (h.1 s hs)
  · intro h
    have hgrammar : ∀ s ∈ texts,
        (∃ tokens, pointerTokens unprintable s = .ok tokens) ↔ Rfc6901.IsPointer s :=
      fun s hs => (pointerTokens_grammar_iff unprintable).mpr (h s hs)
    -- a text that was taken is read as the grammar reads it
    have hparse : ∀ s ∈ texts, ∀ tokens, pointerTokens unprintable s = .ok tokens →
        s = tokens.flatMap fun token => '/' :: Rfc6901.write token := by
      intro s hs tokens htokens
      obtain ⟨read, hread⟩ := Rfc6901.exists_parse_iff.mpr ((hgrammar s hs).mp ⟨tokens, htokens⟩)
      have hsame := pointerTokens_of_parse unprintable hread
      rw [htokens] at hsame
      cases hsame
      exact Rfc6901.write_parse hread
    refine ⟨hgrammar, ?_, ?_⟩
    · intro s hs hnot target op hreads
      cases hresult : applyOne unprintable target op with
      | error error => exact ⟨error, rfl⟩
      | ok target' =>
          have hread := pointerTokens_of_applyOne hreads hresult
          exact absurd ((hgrammar s hs).mp hread) hnot
    · intro s hs s' hs' tokens htokens htokens'
      rw [hparse s hs tokens htokens, hparse s' hs' tokens htokens']

/-- A tilde in front of a 2 is taken for itself, and so is one at the end, where
its escape gives the same token. -/
theorem pointer_grammar_tilde :
    pointerTokens (fun _ => false) "/~2".toList = .ok ["~2".toList] ∧
      ¬ Rfc6901.IsPointer "/~2".toList ∧
      applyOne (fun _ => false) (.object [("~2".toList, .number 1)] : Json Nat)
          (.object [("op".toList, .string "remove".toList),
            ("path".toList, .string "/~2".toList)]) = .ok (.object []) ∧
      pointerTokens (fun _ => false) "/~".toList =
        pointerTokens (fun _ => false) "/~0".toList := by
  refine ⟨rfl, ?_, rfl, rfl⟩
  intro h
  rcases Rfc6901.closed_of_isPointer h ['/'] ['2'] rfl with h | h <;> cases h

end RedfishProxy.ScriptUtil
