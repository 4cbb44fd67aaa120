import RedfishProxy.Lib.Text

/-!
# The grammar of a JSON Pointer

RFC 6901, section 3, as a parser, which reads a pointer character by character
and unescapes on the way, and as a predicate on the text. `write` is the way
back from the tokens, so no two pointers have the same ones.
-/

namespace Lib.Rfc6901

/-- The reference tokens from inside a token on: the rest of this one, and the
ones behind it. A tilde stands only before a 0 or a 1. -/
def scan : Text → Option (Text × List Text)
  | [] => some ([], [])
  | '/' :: rest => (scan rest).map fun p => ([], p.1 :: p.2)
  | '~' :: '0' :: rest => (scan rest).map fun p => ('~' :: p.1, p.2)
  | '~' :: '1' :: rest => (scan rest).map fun p => ('/' :: p.1, p.2)
  | '~' :: _ => none
  | c :: rest => (scan rest).map fun p => (c :: p.1, p.2)

/-- The tokens of a pointer; `none` where the text is not one. -/
def parse : Text → Option (List Text)
  | [] => some []
  | '/' :: rest => (scan rest).map fun p => p.1 :: p.2
  | _ => none

/-- Every tilde of the text stands before a 0 or a 1. -/
def Closed (text : Text) : Prop :=
  ∀ before after, text = before ++ '~' :: after →
    after.head? = some '0' ∨ after.head? = some '1'

/-- A reference token as it is written. -/
structure IsToken (token : Text) : Prop where
  no_slash : '/' ∉ token
  closed : Closed token

/-- Reference tokens, with a slash in front of each. -/
def IsPointer (text : Text) : Prop :=
  ∃ tokens : List Text, (∀ token ∈ tokens, IsToken token) ∧
    text = tokens.flatMap fun token => '/' :: token

namespace Closed

variable {a b : Text} {c : Char}

theorem nil : Closed [] := by
  intro before after h
  cases before <;> cases h

theorem tail (h : Closed (c :: a)) : Closed a := fun before after heq =>
  h (c :: before) after (by rw [heq, List.cons_append])

/-- A tilde at the end of a text would not be closed in it. -/
theorem append (ha : Closed a) (hb : Closed b) : Closed (a ++ b) := by
  intro before after h
  rcases List.append_eq_append_iff.mp h with ⟨middle, _, hin⟩ | ⟨middle, hin, hout⟩
  · exact hb middle after hin
  · cases middle with
    | nil => exact hb [] after hout.symm
    | cons tilde middle =>
        obtain ⟨rfl, rfl⟩ := List.cons.inj hout
        have hnext := ha before middle hin
        cases middle with
        | nil => rcases hnext with hnext | hnext <;> cases hnext
        | cons d middle => exact hnext

theorem cons (hc : c ≠ '~') (h : Closed a) : Closed (c :: a) := by
  refine append (a := [c]) ?_ h
  intro before after heq
  cases before with
  | nil => exact absurd (List.cons.inj heq).1 hc
  | cons d before => cases before <;> cases (List.cons.inj heq).2

theorem flatMap {α : Type} {items : List α} {f : α → Text} (h : ∀ item ∈ items, Closed (f item)) :
    Closed (items.flatMap f) := by
  induction items with
  | nil => exact nil
  | cons item items ih =>
      rw [List.flatMap_cons]
      exact append (h item (by simp)) (ih fun other hother => h other (by simp [hother]))

end Closed

/-! ## The way back -/

/-- How a character of a token is written. -/
def escapeChar (c : Char) : Text :=
  if c = '~' then ['~', '0'] else if c = '/' then ['~', '1'] else [c]

def write (token : Text) : Text := token.flatMap escapeChar

theorem write_cons (c : Char) (token : Text) : write (c :: token) = escapeChar c ++ write token :=
  rfl

theorem isToken_escapeChar (c : Char) : IsToken (escapeChar c) := by
  have hpair : ∀ d, d = '0' ∨ d = '1' → Closed ['~', d] := by
    intro d hd before after h
    match before with
    | [] =>
        cases h
        rcases hd with rfl | rfl
        · exact .inl rfl
        · exact .inr rfl
    | [_] =>
        cases h
        rcases hd with hd | hd <;> cases hd
    | _ :: _ :: before => cases before <;> cases h
  unfold escapeChar
  split_ifs with htilde hslash
  · exact ⟨by decide, hpair _ (.inl rfl)⟩
  · exact ⟨by decide, hpair _ (.inr rfl)⟩
  · exact ⟨by simpa using Ne.symm hslash, Closed.nil.cons htilde⟩

theorem isToken_write (token : Text) : IsToken (write token) where
  no_slash := by
    intro h
    obtain ⟨c, _, hc⟩ := List.mem_flatMap.mp h
    exact (isToken_escapeChar c).no_slash hc
  closed := Closed.flatMap fun c _ => (isToken_escapeChar c).closed

/-- Writing the tokens that were read gives back the text. -/
theorem write_scan {t first : Text} {others : List Text} (h : scan t = some (first, others)) :
    t = write first ++ others.flatMap fun token => '/' :: write token := by
  fun_induction scan t generalizing first others with
  | case1 =>
      cases h
      rfl
  | case2 rest ih =>
      obtain ⟨⟨next, behind⟩, hrest, h⟩ := Option.map_eq_some_iff.1 h
      cases h
      rw [List.flatMap_cons, List.cons_append, ← ih hrest]
      rfl
  -- the two escapes
  | case3 rest ih =>
      obtain ⟨⟨next, behind⟩, hrest, h⟩ := Option.map_eq_some_iff.1 h
      cases h
      rw [write_cons, List.append_assoc, ← ih hrest]
      rfl
  | case4 rest ih =>
      obtain ⟨⟨next, behind⟩, hrest, h⟩ := Option.map_eq_some_iff.1 h
      cases h
      rw [write_cons, List.append_assoc, ← ih hrest]
      rfl
  | case5 => cases h
  | case6 c rest hslash _ _ htilde ih =>
      obtain ⟨⟨next, behind⟩, hrest, h⟩ := Option.map_eq_some_iff.1 h
      cases h
      rw [write_cons, List.append_assoc, ← ih hrest, escapeChar, if_neg htilde, if_neg hslash]
      rfl

theorem write_parse {text : Text} {tokens : List Text} (h : parse text = some tokens) :
    text = tokens.flatMap fun token => '/' :: write token := by
  unfold parse at h
  split at h
  · cases h
    rfl
  · obtain ⟨⟨first, others⟩, hscan, h⟩ := Option.map_eq_some_iff.1 h
    cases h
    rw [List.flatMap_cons, List.cons_append, ← write_scan hscan]
  · cases h

/-- Reading what was written gives back the tokens. -/
theorem scan_write_append {rest first : Text} {others : List Text}
    (hrest : scan rest = some (first, others)) (token : Text) :
    scan (write token ++ rest) = some (token ++ first, others) := by
  induction token with
  | nil => exact hrest
  | cons c token ih =>
      rw [write_cons, List.append_assoc, escapeChar]
      split_ifs with htilde hslash
      · rw [htilde, List.cons_append, List.cons_append, List.nil_append, scan, ih]
        rfl
      · rw [hslash, List.cons_append, List.cons_append, List.nil_append, scan, ih]
        rfl
      · rw [List.cons_append, List.nil_append, scan, ih]
        · rfl
        · exact hslash
        · exact fun _ h _ => htilde h
        · exact fun _ h _ => htilde h
        · exact htilde

theorem scan_write (first : Text) (others : List Text) :
    scan (write first ++ others.flatMap fun token => '/' :: write token) =
      some (first, others) := by
  induction others generalizing first with
  | nil =>
      have hread : scan (write first ++ []) = some (first ++ [], []) :=
        scan_write_append rfl first
      rw [List.append_nil first] at hread
      exact hread
  | cons next others ih =>
      have hslash : scan ('/' :: (write next ++ others.flatMap fun token => '/' :: write token)) =
          some ([], next :: others) := by
        rw [scan, ih]
        rfl
      have hread := scan_write_append hslash first
      rw [List.append_nil] at hread
      exact hread

/-- **Written tokens parse** to themselves. -/
theorem parse_write (tokens : List Text) :
    parse (tokens.flatMap fun token => '/' :: write token) = some tokens := by
  cases tokens with
  | nil => rfl
  | cons first others =>
      rw [List.flatMap_cons, List.cons_append, parse, scan_write]
      rfl

/-! ## The parser is the grammar -/

theorem exists_scan {t : Text} (h : Closed t) : ∃ read, scan t = some read := by
  fun_induction scan t with
  | case1 => exact ⟨_, rfl⟩
  | case2 rest ih =>
      obtain ⟨read, hread⟩ := ih h.tail
      exact ⟨_, by rw [hread, Option.map_some]⟩
  | case3 rest ih =>
      obtain ⟨read, hread⟩ := ih h.tail.tail
      exact ⟨_, by rw [hread, Option.map_some]⟩
  | case4 rest ih =>
      obtain ⟨read, hread⟩ := ih h.tail.tail
      exact ⟨_, by rw [hread, Option.map_some]⟩
  | case5 rest hzero hone =>
      -- the tilde at the front is not closed
      cases rest with
      | nil => rcases h [] [] rfl with h | h <;> cases h
      | cons c rest =>
          rcases h [] _ rfl with h | h
          · exact absurd (congrArg (· :: rest) (Option.some.inj h)) (hzero rest)
          · exact absurd (congrArg (· :: rest) (Option.some.inj h)) (hone rest)
  | case6 c rest _ _ _ _ ih =>
      obtain ⟨read, hread⟩ := ih h.tail
      exact ⟨_, by rw [hread, Option.map_some]⟩

theorem closed_of_isPointer {text : Text} (h : IsPointer text) : Closed text := by
  obtain ⟨tokens, htokens, rfl⟩ := h
  exact Closed.flatMap fun token htoken => (htokens token htoken).closed.cons (by decide)

theorem start_of_isPointer {text : Text} (h : IsPointer text) :
    text = [] ∨ text.head? = some '/' := by
  obtain ⟨tokens, _, rfl⟩ := h
  cases tokens with
  | nil => exact .inl rfl
  | cons token tokens => exact .inr rfl

theorem exists_parse {text : Text} (hstart : text = [] ∨ text.head? = some '/')
    (hclosed : Closed text) : ∃ tokens, parse text = some tokens := by
  cases text with
  | nil => exact ⟨[], rfl⟩
  | cons c rest =>
      rcases hstart with h | h
      · cases h
      · obtain rfl : c = '/' := Option.some.inj h
        obtain ⟨read, hread⟩ := exists_scan hclosed.tail
        exact ⟨_, by rw [parse, hread, Option.map_some]⟩

/-- **A text parses** exactly where it is a pointer. -/
theorem exists_parse_iff {text : Text} : (∃ tokens, parse text = some tokens) ↔ IsPointer text := by
  constructor
  · rintro ⟨tokens, h⟩
    refine ⟨tokens.map write, ?_, ?_⟩
    · intro token htoken
      obtain ⟨read, _, rfl⟩ := List.mem_map.mp htoken
      exact isToken_write read
    · rw [List.flatMap_map]
      exact write_parse h
  · intro h
    exact exists_parse (start_of_isPointer h) (closed_of_isPointer h)

/-- A pointer is nothing, or starts with a slash, and all its tildes are closed. -/
theorem isPointer_iff {text : Text} :
    IsPointer text ↔ (text = [] ∨ text.head? = some '/') ∧ Closed text :=
  ⟨fun h => ⟨start_of_isPointer h, closed_of_isPointer h⟩,
    fun h => exists_parse_iff.mp (exists_parse h.1 h.2)⟩

end Lib.Rfc6901
