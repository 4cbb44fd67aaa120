import RedfishProxy.Http.Base

/-!
# Where the swap lets the target through

`Leaks host text` says that a text still shows a host behind a `://`: a letter,
`://`, an optional userinfo, the host, an optional port, and then the end or a
character that continues neither a host nor a port.

The swap works separator by separator, so the proof does too. `LeaksAt` is a
leak whose separator meets a condition; it splits at the first separator of a
text (`leaksAt_sep`) and at the end of an authority (`leaksAt_authority`).
-/

namespace RedfishProxy.Http

open Lib

/-! ## The pattern -/

/-- The characters of a userinfo: unreserved, escaped, sub-delimiters, colon. -/
def isUserinfoChar (c : Char) : Bool :=
  c.isAlphanum || c ∈ ['-', '.', '_', '~', '%', '!', '$', '&', '\'', '(', ')', '*', '+', ',',
    ';', '=', ':']

/-- The characters that continue a host or a port. -/
def continuesHost (c : Char) : Bool := c.isAlphanum || c ∈ ['.', '-', ':', '@', '%']

/-- Nothing, or a userinfo and its `@`. -/
def IsUserinfo (user : Text) : Prop :=
  user = [] ∨ ∃ name, user = name ++ ['@'] ∧ ∀ c ∈ name, isUserinfoChar c = true

/-- Nothing, or a colon and zero or more digits. -/
def IsPort (port : Text) : Prop :=
  port = [] ∨ ∃ digits, port = ':' :: digits ∧ ∀ d ∈ digits, d.isDigit = true

/-- The end, or a character that continues neither a host nor a port. -/
def EndsHost (rest : Text) : Prop := ∀ c, rest.head? = some c → continuesHost c = false

/-- An authority of `host`, with its optional userinfo and port. -/
def IsAuthorityOf (host text : Text) : Prop :=
  ∃ user port, text = user ++ host ++ port ∧ IsUserinfo user ∧ IsPort port

/-- What stands behind a `://` names `host`. -/
def NamesHost (host after : Text) : Prop :=
  ∃ authority rest, after = authority ++ rest ∧ IsAuthorityOf host authority ∧ EndsHost rest

/-- The last character is an ASCII letter. -/
def EndsAlpha (before : Text) : Prop :=
  ∃ front letter, before = front ++ [letter] ∧ letter.isAlpha = true

/-- A leak whose separator, given by the text before it, meets `P`. -/
def LeaksAt (P : Text → Prop) (host text : Text) : Prop :=
  ∃ before after, text = before ++ sep ++ after ∧ EndsAlpha before ∧ NamesHost host after ∧
    P before

/-- The text shows `host` behind some `://`. -/
def Leaks (host text : Text) : Prop :=
  ∃ before after, text = before ++ sep ++ after ∧ EndsAlpha before ∧ NamesHost host after

theorem leaks_iff (host text : Text) : Leaks host text ↔ LeaksAt (fun _ => True) host text := by
  simp [Leaks, LeaksAt]

/-! ## Separators of a text -/

/-- No `://` in it. -/
def NoSep (text : Text) : Prop := ∀ before after, text ≠ before ++ sep ++ after

theorem NoSep.of_splitOnce {text before after : Text}
    (h : text.splitOnce sep = some (before, after)) : NoSep before := by
  intro a b heq
  have hocc : text = a ++ sep ++ (b ++ sep ++ after) := by
    rw [Text.splitOnce_eq_some h, heq]
    simp
  have hle := Text.splitOnce_first h hocc
  have hsep : sep.length = 3 := rfl
  rw [heq, List.length_append, List.length_append, hsep] at hle
  omega

/-- The separators of `x ++ "://" ++ y` are that one and those of `y`. -/
theorem NoSep.cases {x y before after : Text} (hx : NoSep x)
    (h : x ++ sep ++ y = before ++ sep ++ after) :
    (before = x ∧ after = y) ∨
      ∃ front, before = x ++ sep ++ front ∧ y = front ++ sep ++ after := by
  rw [List.append_assoc, List.append_assoc] at h
  rcases List.append_eq_append_iff.mp h with ⟨z, hbefore, hz⟩ | ⟨z, hxz, hz⟩
  · -- `before` reaches past `x`: by nothing, or by the whole separator.
    match z, hz with
    | [], hz => exact .inl ⟨by simpa using hbefore, by simpa using hz.symm⟩
    | [c], hz => simp at hz
    | [c, d], hz => simp at hz
    | c :: d :: e :: front, hz =>
        obtain ⟨rfl, rfl, rfl, hy⟩ : ':' = c ∧ '/' = d ∧ '/' = e ∧
            y = front ++ (sep ++ after) := by simpa using hz
        exact .inr ⟨front, by simp [hbefore], by simp [hy]⟩
  · -- `before` stops inside `x`: a separator inside `x`, or none.
    match z, hz with
    | [], hz => exact .inl ⟨by simpa using hxz.symm, by simpa using hz⟩
    | [c], hz => simp at hz
    | [c, d], hz => simp at hz
    | c :: d :: e :: front, hz =>
        obtain ⟨rfl, rfl, rfl, _⟩ : ':' = c ∧ '/' = d ∧ '/' = e ∧
            after = front ++ (sep ++ y) := by simpa using hz
        exact absurd hxz (by simpa using hx before front)

/-- An authority holds no separator, and can only swallow its colon. -/
theorem authority_cases {x y before after : Text} (hx : '/' ∉ x)
    (h : x ++ y = before ++ sep ++ after) :
    (∃ front, before = x ++ front ∧ y = front ++ sep ++ after) ∨
      (x = before ++ [':'] ∧ y = '/' :: '/' :: after) := by
  rw [List.append_assoc] at h
  rcases List.append_eq_append_iff.mp h with ⟨z, hbefore, hz⟩ | ⟨z, hxz, hz⟩
  · exact .inl ⟨z, hbefore, by simpa using hz⟩
  · match z, hz with
    | [], hz => exact .inl ⟨[], by simpa using hxz.symm, by simpa using hz.symm⟩
    | [c], hz =>
        obtain ⟨rfl, hy⟩ : ':' = c ∧ '/' :: '/' :: after = y := by simpa using hz
        exact .inr ⟨hxz, hy.symm⟩
    | c :: d :: front, hz =>
        obtain ⟨rfl, rfl, _⟩ : ':' = c ∧ '/' = d ∧ '/' :: after = front ++ y := by
          simpa using hz
        exact absurd (by simp [hxz]) hx

theorem endsAlpha_append {x y : Text} (hy : y ≠ []) : EndsAlpha (x ++ y) ↔ EndsAlpha y := by
  obtain ⟨front, last, rfl⟩ := List.eq_nil_or_concat y |>.resolve_left hy
  constructor
  · intro h
    obtain ⟨f, letter, heq, hletter⟩ := h
    rw [List.concat_eq_append, ← List.append_assoc] at heq
    have := List.append_inj_right' heq rfl
    obtain rfl : last = letter := by simpa using this
    exact ⟨front, last, List.concat_eq_append, hletter⟩
  · intro h
    obtain ⟨f, letter, heq, hletter⟩ := h
    exact ⟨x ++ f, letter, by rw [heq, List.append_assoc], hletter⟩

theorem endsAlpha_sep (x front : Text) : EndsAlpha (x ++ sep ++ front) ↔ EndsAlpha front := by
  cases front with
  | nil =>
      constructor
      · intro h
        obtain ⟨f, letter, heq, hletter⟩ := h
        rw [List.append_nil, show sep = [':', '/'] ++ ['/'] from rfl, ← List.append_assoc] at heq
        obtain rfl : '/' = letter := by simpa using List.append_inj_right' heq rfl
        exact absurd hletter (by decide)
      · intro h
        obtain ⟨f, letter, heq, _⟩ := h
        simp at heq
  | cons c front => exact endsAlpha_append (by simp)

/-! ## Leaks, separator by separator -/

theorem leaksAt_sep {P : Text → Prop} {host x : Text} (hx : NoSep x) (y : Text) :
    LeaksAt P host (x ++ sep ++ y) ↔
      (EndsAlpha x ∧ NamesHost host y ∧ P x) ∨
        LeaksAt (fun before => P (x ++ sep ++ before)) host y := by
  constructor
  · intro h
    obtain ⟨before, after, heq, halpha, hnames, hP⟩ := h
    rcases hx.cases heq with ⟨rfl, rfl⟩ | ⟨front, rfl, rfl⟩
    · exact .inl ⟨halpha, hnames, hP⟩
    · exact .inr ⟨front, after, rfl, (endsAlpha_sep x front).mp halpha, hnames, hP⟩
  · intro h
    obtain ⟨halpha, hnames, hP⟩ | ⟨front, after, rfl, halpha, hnames, hP⟩ := h
    · exact ⟨x, y, rfl, halpha, hnames, hP⟩
    · exact ⟨x ++ sep ++ front, after, by simp, (endsAlpha_sep x front).mpr halpha, hnames, hP⟩

/-- A separator whose colon ends the authority `x`. -/
def SwallowedAt (P : Text → Prop) (host x y : Text) : Prop :=
  ∃ front after, x = front ++ [':'] ∧ y = '/' :: '/' :: after ∧ EndsAlpha front ∧
    NamesHost host after ∧ P front

theorem leaksAt_authority {P : Text → Prop} {host x y : Text} (hx : '/' ∉ x)
    (hy : ∀ c, y.head? = some c → c ≠ ':') :
    LeaksAt P host (x ++ y) ↔
      SwallowedAt P host x y ∨ LeaksAt (fun before => P (x ++ before)) host y := by
  constructor
  · intro h
    obtain ⟨before, after, heq, halpha, hnames, hP⟩ := h
    rcases authority_cases hx heq with ⟨front, rfl, rfl⟩ | ⟨rfl, rfl⟩
    · have hne : front ≠ [] := by
        rintro rfl
        exact hy ':' rfl rfl
      exact .inr ⟨front, after, rfl, (endsAlpha_append hne).mp halpha, hnames, hP⟩
    · exact .inl ⟨before, after, rfl, rfl, halpha, hnames, hP⟩
  · intro h
    obtain ⟨front, after, rfl, rfl, halpha, hnames, hP⟩ | ⟨front, after, rfl, halpha, hnames, hP⟩ := h
    · exact ⟨front, after, by simp, halpha, hnames, hP⟩
    · have hne : front ≠ [] := by
        rintro rfl
        exact hy ':' rfl rfl
      exact ⟨x ++ front, after, by simp, (endsAlpha_append hne).mpr halpha, hnames, hP⟩

theorem leaksAt_noSep {P : Text → Prop} {host x : Text} (hx : NoSep x) :
    ¬ LeaksAt P host x := by
  intro h
  obtain ⟨before, after, heq, _⟩ := h
  exact hx before after heq

end RedfishProxy.Http
