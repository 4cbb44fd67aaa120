import RedfishProxy.Http.Scan

/-!
# The external base

The URL every link is rewritten to, in the form `scheme://host[:port]` the
configuration asks for: no userinfo, no path beyond a slash. The fields carry
their well-formedness, so what the swap splices in has one `://` and ends
neither in a slash nor in a colon.
-/

namespace RedfishProxy.Http

open Lib

/-- The characters of a host as `Url` writes it: printable, and no forbidden
host code point. -/
def isHostChar (c : Char) : Bool :=
  32 < c.toNat && c.toNat < 127 &&
    !(c ∈ ['#', '/', ':', '<', '>', '?', '@', '[', '\\', ']', '^', '|'])

/-- A name or an IPv4 address. -/
def IsRegName (host : Text) : Prop := host ≠ [] ∧ ∀ c ∈ host, isHostChar c = true

/-- A bracketed IPv6 address. -/
def IsIpLiteral (host : Text) : Prop :=
  ∃ inner, host = '[' :: inner ++ [']'] ∧ ∀ c ∈ inner, c.isAlphanum = true ∨ c = ':' ∨ c = '.'

/-- `scheme://host[:port]`, with or without the trailing slash `Url` writes. -/
structure Base where
  scheme : Text
  host : Text
  port : Option Text
  slash : Bool
  schemeOk : ∃ first rest, scheme = first :: rest ∧ first.isAlpha = true ∧
    ∀ c ∈ rest, isSchemeChar c = true
  hostOk : IsRegName host ∨ IsIpLiteral host
  portOk : ∀ digits, port = some digits → digits ≠ [] ∧ ∀ d ∈ digits, d.isDigit = true

namespace Base

/-- `:port`, or nothing. -/
def portText (base : Base) : Text := base.port.elim [] fun digits => ':' :: digits

/-- `host[:port]`. -/
def authority (base : Base) : Text := base.host ++ base.portText

/-- `scheme://host[:port]`. -/
def text (base : Base) : Text := base.scheme ++ sep ++ base.authority

/-- `Url::as_str`. -/
def asStr (base : Base) : Text := base.text ++ if base.slash then ['/'] else []

theorem mem_scheme {base : Base} {c : Char} (h : c ∈ base.scheme) : isSchemeChar c = true := by
  obtain ⟨first, rest, heq, hfirst, hrest⟩ := base.schemeOk
  rw [heq] at h
  rcases List.mem_cons.mp h with rfl | h
  · simp [isSchemeChar, Char.isAlphanum, hfirst]
  · exact hrest c h

theorem host_ne_nil (base : Base) : base.host ≠ [] := by
  rcases base.hostOk with ⟨hne, _⟩ | ⟨inner, heq, _⟩
  · exact hne
  · simp [heq]

theorem slash_notMem_authority (base : Base) : '/' ∉ base.authority := by
  intro hmem
  rcases List.mem_append.mp hmem with hmem | hmem
  · rcases base.hostOk with ⟨_, hall⟩ | ⟨inner, heq, hall⟩
    · exact absurd (hall _ hmem) (by decide)
    · rw [heq] at hmem
      simp only [List.cons_append, List.mem_cons, List.mem_append, List.not_mem_nil,
        or_false] at hmem
      rcases hmem with h | h | h
      · exact absurd h (by decide)
      · exact absurd (hall _ h) (by decide)
      · exact absurd h (by decide)
  · unfold portText at hmem
    cases hport : base.port with
    | none => simp [hport] at hmem
    | some digits =>
        rw [hport] at hmem
        rcases List.mem_cons.mp hmem with h | h
        · exact absurd h (by decide)
        · exact absurd ((base.portOk digits hport).2 _ h) (by decide)

/-- The authority does not end in a colon. -/
theorem authority_ne_concat_colon (base : Base) (front : Text) :
    base.authority ≠ front ++ [':'] := by
  intro heq
  unfold authority portText at heq
  cases hport : base.port with
  | none =>
      rw [hport] at heq
      have hmem : ':' ∈ base.host := by
        have : base.host = front ++ [':'] := by simpa using heq
        simp [this]
      rcases base.hostOk with ⟨_, hall⟩ | ⟨inner, hlit, _⟩
      · exact absurd (hall _ hmem) (by decide)
      · have hends : '[' :: inner ++ [']'] = front ++ [':'] := by
          simpa [← hlit] using heq
        exact absurd (List.append_inj_right' hends rfl) (by decide)
  | some digits =>
      obtain ⟨hne, hall⟩ := base.portOk digits hport
      rw [hport] at heq
      have hlast := congrArg List.getLast? heq
      rw [Option.elim_some, List.getLast?_append, List.getLast?_cons,
        List.getLast?_eq_some_getLast hne] at hlast
      have hdigit := hall _ (List.getLast_mem hne)
      have hcolon : digits.getLast hne = ':' := by simpa using hlast
      rw [hcolon] at hdigit
      exact absurd hdigit (by decide)

/-- What is left of `as_str` once the trailing slashes are trimmed. -/
theorem asStr_trimEndMatches (base : Base) :
    base.asStr.trimEndMatches '/' = base.text := by
  have hne : base.authority ≠ [] := by
    simp [authority, base.host_ne_nil]
  have htext : base.text.rdropWhile (· == '/') = base.text := by
    rw [List.rdropWhile_eq_self_iff]
    intro hnil hlast
    have hauth : base.text.getLast hnil = base.authority.getLast hne := by
      simp only [text]
      exact List.getLast_append_of_ne_nil _ hne
    refine base.slash_notMem_authority ?_
    rw [← beq_iff_eq.mp hlast, hauth]
    exact List.getLast_mem hne
  unfold asStr Text.trimEndMatches
  cases base.slash with
  | false => simpa using htext
  | true => simpa [List.rdropWhile_concat_pos] using htext

end Base

/-- `https://proxy/`, as `Url` writes it. -/
def proxyBase : Base where
  scheme := "https".toList
  host := "proxy".toList
  port := none
  slash := true
  schemeOk := ⟨'h', "ttps".toList, rfl, by decide, by decide⟩
  hostOk := .inl ⟨by decide, by decide⟩
  portOk := by simp

/-- `10.0.0.1:8000`. -/
def bmcTarget : SocketAddrV4 := { ip := ⟨10, 0, 0, 1⟩, port := 8000 }

end RedfishProxy.Http
