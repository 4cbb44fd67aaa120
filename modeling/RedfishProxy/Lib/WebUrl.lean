import RedfishProxy.Lib.Whatwg

/-!
# The WHATWG parser on any absolute URL

The states of the URL standard without a base URL: special URLs, `file` URLs and
all the others, their authority, path, query and fragment. The host parser is a
parameter with the laws of its serialiser.

Main results:
* `parse_formed`: what a parsed URL is made of can be parsed again.
* `parse_link`: behind an authority the rest alone decides path and query.
* `Formed.parse_splice`: a parsed URL in front of a rest keeps what it names.
-/

namespace Lib.WebUrl

open Whatwg

/-! ## Schemes -/

def isSchemeChar (c : Char) : Bool := c.isAlphanum || c == '+' || c == '-' || c == '.'

def IsScheme (scheme : Text) : Prop :=
  ∃ first more, scheme = first :: more ∧ first.isAlpha = true ∧
    ∀ c ∈ more, isSchemeChar c = true

/-- The default port of a special scheme. -/
def defaultPort (scheme : Text) : Option Nat :=
  if scheme = "http".toList ∨ scheme = "ws".toList then some 80
  else if scheme = "https".toList ∨ scheme = "wss".toList then some 443
  else if scheme = "ftp".toList then some 21
  else none

/-- How what stands behind a scheme is parsed. -/
inductive Kind where
  | special
  | file
  | other
  deriving DecidableEq

def kindOf (scheme : Text) : Kind :=
  if scheme = "file".toList then .file
  else if (defaultPort scheme).isSome then .special
  else .other

/-- What ends an authority, and a segment of a path. -/
def isSlash (kind : Kind) (c : Char) : Bool := c == '/' || (kind != .other && c == '\\')

/-! ## Percent-encode sets -/

def c0ControlSet (c : Char) : Bool := c.toNat ≤ 31 || 126 < c.toNat

def querySet (c : Char) : Bool := c0ControlSet c || c ∈ [' ', '"', '#', '<', '>']

def specialQuerySet (c : Char) : Bool := querySet c || c == '\''

def fragmentSet (c : Char) : Bool := c0ControlSet c || c ∈ [' ', '"', '<', '>', '\x60']

def pathSet (c : Char) : Bool := querySet c || c ∈ ['?', '^', '\x60', '\x7b', '\x7d']

def userinfoSet (c : Char) : Bool :=
  pathSet c || c ∈ ['/', ':', ';', '=', '@', '[', '\\', ']', '|']

def encodeText (set : Char → Bool) (text : Text) : Text := text.flatMap (encode set)

/-! ## Paths -/

/-- A path is opaque or has segments. -/
inductive Path where
  | whole (text : Text)
  | segments (list : List Text)
  deriving DecidableEq

def Path.text : Path → Text
  | .whole text => text
  | .segments list => serialize list

/-- A letter and a colon or a bar. -/
def isDriveLetter : Text → Bool
  | [letter, mark] => letter.isAlpha && (mark == ':' || mark == '|')
  | _ => false

def isNormalizedDrive : Text → Bool
  | [letter, mark] => letter.isAlpha && mark == ':'
  | _ => false

def normalizeDrive : Text → Text
  | [letter, _] => [letter, ':']
  | text => text

/-- A drive letter is not gone back on. -/
def shorten (kind : Kind) (path : List Text) : List Text :=
  if kind = .file ∧ path.length = 1 ∧ path.all isNormalizedDrive = true then path
  else path.dropLast

def pushSegment (kind : Kind) (path : List Text) (buffer : Text) : List Text :=
  if kind = .file ∧ path = [] ∧ isDriveLetter buffer = true then [normalizeDrive buffer]
  else path ++ [buffer]

/-- The path state at the end of a segment, which may be the last. -/
def closeSegment (kind : Kind) (last : Bool) (path : List Text) (buffer : Text) : List Text :=
  if isDoubleDot buffer then
    if last then shorten kind path ++ [[]] else shorten kind path
  else if isSingleDot buffer then
    if last then path ++ [[]] else path
  else pushSegment kind path buffer

/-- The path state. -/
def pathState (kind : Kind) : List Text → Text → Text → List Text
  | path, buffer, [] => closeSegment kind true path buffer
  | path, buffer, c :: t =>
    if isSlash kind c then pathState kind (closeSegment kind false path buffer) [] t
    else pathState kind path (buffer ++ encode pathSet c) t

/-- The path start state, behind an authority. -/
def pathStart (kind : Kind) : Text → List Text
  | [] => if kind = .other then [] else pathState kind [] [] []
  | c :: t => if isSlash kind c then pathState kind [] [] t else pathState kind [] [] (c :: t)

/-! ## Authorities -/

/-- Printable, and nothing that is forbidden in a host. -/
def IsPlainHost (host : Text) : Prop :=
  ∀ c ∈ host, 32 < c.toNat ∧ c ∉ ['/', '\\', '?', '#', '@', ':', '[', ']', '|']

def IsBracketed (host : Text) : Prop :=
  ∃ inner, host = '[' :: inner ++ [']'] ∧ ∀ c ∈ inner, c.isAlphanum = true ∨ c = ':' ∨ c = '.'

/-- The host parser, with what its serialiser writes. Hosts of URLs that are not
special are opaque. -/
structure HostParser where
  parse : Bool → Text → Option Text
  reparse : ∀ {isOther text host}, parse isOther text = some host →
    parse isOther host = some host
  shape : ∀ {isOther text host}, parse isOther text = some host →
    IsPlainHost host ∨ IsBracketed host

/-- Up to the first mark, and from there. -/
def cutAt (mark : Char) (text : Text) : Text × Option Text :=
  (text.takeWhile (· != mark), (text.dropWhile (· != mark)).tail?)

structure Authority where
  username : Text
  password : Text
  host : Text
  port : Option Nat
  deriving DecidableEq

/-- The port state. A default port is the null port. -/
def parsePort (default : Option Nat) (digits : Text) : Option (Option Nat) :=
  if digits = [] then some none
  else if digits.all Char.isDigit then
    let port := Nat.ofDigitChars 10 digits 0
    if port ≤ 65535 then some (if default = some port then none else some port) else none
  else none

section Parse

variable (hosts : HostParser)

/-- The authority, host and port states. -/
def parseAuthority (scheme authority : Text) : Option Authority :=
  let split := (Text.rsplitOnce '@' authority).map fun pair => (some pair.1, pair.2)
  let (userinfo, hostPort) := split.getD (none, authority)
  let (hostText, portText) := splitPort false hostPort
  let (username, password) := cutAt ':' (userinfo.getD [])
  if hostText = [] ∧ (kindOf scheme ≠ .other ∨ userinfo.isSome = true ∨ portText.isSome = true) then
    none
  else do
    let host ← hosts.parse (kindOf scheme == .other) hostText
    let port ← parsePort (defaultPort scheme) (portText.getD [])
    return {
      username := encodeText userinfoSet username
      password := encodeText userinfoSet (password.getD [])
      host, port }

/-- The file host state. -/
def parseFileHost (text : Text) : Option Authority :=
  if text = [] then some { username := [], password := [], host := [], port := none }
  else do
    let host ← hosts.parse false text
    return {
      username := [], password := []
      host := if host = "localhost".toList then [] else host
      port := none }

/-- What is parsed behind the scheme. -/
structure Body where
  authority : Option Authority
  path : Path
  deriving DecidableEq

def parseBehind (scheme rest : Text) : Option Body := do
  let kind := kindOf scheme
  let authority ← parseAuthority hosts scheme (rest.takeWhile fun c => !isSlash kind c)
  return {
    authority := some authority
    path := .segments (pathStart kind (rest.dropWhile fun c => !isSlash kind c)) }

def hostless : Authority where
  username := []
  password := []
  host := []
  port := none

/-- The file state. -/
def parseFile : Text → Option Body
  | c :: d :: rest =>
    if isSeparator c && isSeparator d then
      let host := rest.takeWhile fun c => !isSeparator c
      let behind := rest.dropWhile fun c => !isSeparator c
      if isDriveLetter host then
        some { authority := some hostless, path := .segments (pathState .file [] host behind) }
      else do
        let authority ← parseFileHost hosts host
        return { authority := some authority, path := .segments (pathStart .file behind) }
    else if isSeparator c then
      some { authority := some hostless, path := .segments (pathState .file [] [] (d :: rest)) }
    else
      some {
        authority := some hostless
        path := .segments (pathState .file [] [] (c :: d :: rest)) }
  | [c] => some {
      authority := some hostless
      path := .segments (pathState .file [] [] (if isSeparator c then [] else [c])) }
  | [] => some { authority := some hostless, path := .segments (pathState .file [] [] []) }

/-- The path or authority state, and the opaque path state. -/
def parseOther (scheme : Text) : Text → Option Body
  | '/' :: '/' :: rest => parseBehind hosts scheme rest
  | '/' :: rest => some { authority := none, path := .segments (pathState .other [] [] rest) }
  | rest => some { authority := none, path := .whole (encodeText c0ControlSet rest) }

def parseBody (scheme rest : Text) : Option Body :=
  match kindOf scheme with
  | .special => parseBehind hosts scheme (rest.dropWhile isSeparator)
  | .file => parseFile hosts rest
  | .other => parseOther hosts scheme rest

/-- The scheme state: the scheme, in lower case, and what stands behind it. -/
def parseScheme (text : Text) : Option (Text × Text) :=
  match cutAt ':' text with
  | (first :: more, some rest) =>
    if first.isAlpha && more.all isSchemeChar then
      some ((first :: more).map Char.toLower, rest)
    else none
  | _ => none

structure Url where
  scheme : Text
  username : Text
  password : Text
  host : Option Text
  port : Option Nat
  path : Path
  query : Option Text
  fragment : Option Text
  deriving DecidableEq

/-- The parser. Nothing before them is past a `?` or a `#`. -/
def parse (input : Text) : Option Url := do
  let (front, fragment) := cutAt '#' (clean input)
  let (front, query) := cutAt '?' front
  let (scheme, rest) ← parseScheme front
  let body ← parseBody hosts scheme rest
  let authority := body.authority.getD hostless
  return {
    scheme
    username := authority.username
    password := authority.password
    host := body.authority.map Authority.host
    port := authority.port
    path := body.path
    query := query.map (encodeText (if kindOf scheme = .other then querySet else specialQuerySet))
    fragment := fragment.map (encodeText fragmentSet) }

/-- A URL, which nothing but the parser makes. -/
structure Parsed where
  url : Url
  parsed : ∃ input, parse hosts input = some url

end Parse

/-! ## The serialiser -/

namespace Url

/-- `user:password@`, or nothing. -/
def userinfo (url : Url) : Text :=
  if url.username = [] ∧ url.password = [] then []
  else url.username ++ (if url.password = [] then [] else ':' :: url.password) ++ ['@']

def portText (url : Url) : Text := url.port.elim [] fun port => ':' :: decimal port

/-- What stands between the scheme and the path. -/
def front (url : Url) : Text :=
  match url.host with
  | some host => "//".toList ++ url.userinfo ++ host ++ url.portText
  | none =>
    match url.path with
    | .segments ([] :: _ :: _) => "/.".toList
    | _ => []

/-- `Url::as_str`. -/
def asStr (url : Url) : Text :=
  url.scheme ++ [':'] ++ url.front ++ url.path.text ++
    (url.query.elim [] fun query => '?' :: query) ++
    url.fragment.elim [] fun fragment => '#' :: fragment

end Url

/-! ## Cutting -/

theorem cutAt_append {mark : Char} {front : Text} (h : mark ∉ front) (text : Text) :
    cutAt mark (front ++ text) = (front ++ (cutAt mark text).1, (cutAt mark text).2) := by
  have hall : ∀ c ∈ front, (c != mark) = true := by
    intro c hc
    rw [bne_iff_ne]
    intro heq
    exact h (heq ▸ hc)
  unfold cutAt
  rw [List.takeWhile_append_of_pos hall, List.dropWhile_append_of_pos hall]

theorem cutAt_mark {mark : Char} {front : Text} (h : mark ∉ front) (text : Text) :
    cutAt mark (front ++ mark :: text) = (front, some text) := by
  rw [cutAt_append h]
  simp [cutAt]

/-- What is cut off starts as the text does. -/
theorem head?_cutAt {mark : Char} {text : Text} {c : Char}
    (h : (cutAt mark text).1.head? = some c) : text.head? = some c := by
  unfold cutAt at h
  cases text with
  | nil => cases h
  | cons d text =>
      rw [List.takeWhile_cons] at h
      split at h
      · exact h
      · cases h

/-! ## Hosts -/

theorem splitPort_plain {host : Text} (h : IsPlainHost host) :
    splitPort false host = (host, none) ∧
      ∀ port, splitPort false (host ++ ':' :: port) = (host, some port) := by
  have hcolon : ':' ∉ host := fun hmem => (h _ hmem).2 (by simp)
  have hopen : '[' ∉ host := fun hmem => (h _ hmem).2 (by simp)
  refine ⟨?_, splitPort_colon hcolon hopen⟩
  clear h
  induction host with
  | nil => rfl
  | cons c host ih =>
      have hc : c ≠ ':' := fun heq => hcolon (by simp [heq])
      have hb : (c == '[') = false := by simpa using fun heq : c = '[' => hopen (by simp [heq])
      rw [splitPort, if_neg (by simp [hc])]
      simp only [hb, Bool.false_and, Bool.or_false]
      rw [ih (fun hmem => hcolon (by simp [hmem])) (fun hmem => hopen (by simp [hmem]))]

/-- Inside brackets a colon is part of the host. -/
theorem splitPort_inside {inner : Text} (h : ']' ∉ inner) (rest : Text) :
    splitPort true (inner ++ ']' :: rest) =
      (inner ++ ']' :: (splitPort false rest).1, (splitPort false rest).2) := by
  induction inner with
  | nil =>
      show splitPort true (']' :: rest) = _
      rw [splitPort]
      simp
  | cons c inner ih =>
      have hc : (c != ']') = true := by
        rw [bne_iff_ne]
        intro heq
        exact h (by simp [heq])
      rw [List.cons_append, splitPort, if_neg (by simp)]
      simp only [hc, Bool.and_true, Bool.or_true]
      rw [ih fun hmem => h (by simp [hmem])]
      rfl

theorem splitPort_bracketed {host : Text} (h : IsBracketed host) :
    splitPort false host = (host, none) ∧
      ∀ port, splitPort false (host ++ ':' :: port) = (host, some port) := by
  obtain ⟨inner, rfl, hinner⟩ := h
  have hclose : ']' ∉ inner := by
    intro hmem
    rcases hinner _ hmem with h | h | h
    · exact absurd h (by decide)
    · cases h
    · cases h
  have hopen : ∀ rest, splitPort false ('[' :: (inner ++ ']' :: rest)) =
      ('[' :: (inner ++ ']' :: (splitPort false rest).1), (splitPort false rest).2) := by
    intro rest
    rw [splitPort, if_neg (by simp)]
    simp only [beq_self_eq_true, Bool.true_or]
    rw [splitPort_inside hclose]
  constructor
  · exact hopen []
  · intro port
    have hport := hopen (':' :: port)
    have hcolon : splitPort false (':' :: port) = ([], some port) := by
      rw [splitPort, if_pos ⟨rfl, rfl⟩]
    rw [hcolon] at hport
    simpa using hport

/-- A host is read up to its port. -/
theorem splitPort_host {host : Text} (h : IsPlainHost host ∨ IsBracketed host) :
    splitPort false host = (host, none) ∧
      ∀ port, splitPort false (host ++ ':' :: port) = (host, some port) := by
  rcases h with h | h
  · exact splitPort_plain h
  · exact splitPort_bracketed h

/-! ## What an authority is made of -/

/-- A character that neither ends an authority nor is cleaned away. -/
def IsAuthorityChar (c : Char) : Prop := 32 < c.toNat ∧ c ∉ ['/', '\\', '?', '#']

instance : DecidablePred IsAuthorityChar := fun _ => inferInstanceAs (Decidable (_ ∧ _))

theorem isAuthorityChar_alphanum {c : Char} (h : c.isAlphanum = true) :
    IsAuthorityChar c ∧ c ≠ '@' ∧ c ≠ ':' := by
  refine Text.ascii_cases (P := fun c => c.isAlphanum = true →
    IsAuthorityChar c ∧ c ≠ '@' ∧ c ≠ ':') ?_ (Text.toNat_of_isAlphanum h) h
  decide

theorem isAuthorityChar_scheme {c : Char} (h : isSchemeChar c = true) :
    IsAuthorityChar c ∧ c ≠ ':' := by
  unfold isSchemeChar at h
  rw [Bool.or_eq_true, Bool.or_eq_true, Bool.or_eq_true, beq_iff_eq, beq_iff_eq, beq_iff_eq] at h
  rcases h with ((halnum | rfl) | rfl) | rfl
  · obtain ⟨hplain, _, hcolon⟩ := isAuthorityChar_alphanum halnum
    exact ⟨hplain, hcolon⟩
  · decide
  · decide
  · decide

theorem IsScheme.isSchemeChar {scheme : Text} (h : IsScheme scheme) {c : Char} (hc : c ∈ scheme) :
    WebUrl.isSchemeChar c = true := by
  obtain ⟨first, more, rfl, hfirst, hmore⟩ := h
  rcases List.mem_cons.mp hc with rfl | hc
  · unfold WebUrl.isSchemeChar Char.isAlphanum
    rw [hfirst]
    rfl
  · exact hmore c hc

theorem isAuthorityChar_of_userinfoSet {c : Char} (h : userinfoSet c = false) :
    IsAuthorityChar c := by
  simp only [userinfoSet, pathSet, querySet, c0ControlSet, Bool.or_eq_false_iff,
    decide_eq_false_iff_not, List.mem_cons, List.not_mem_nil, or_false, not_or] at h
  obtain ⟨⟨⟨⟨hlow, _⟩, hspace, _, hhash, _⟩, hquestion, _⟩, hslash, _, _, _, _, _, hback, _⟩ := h
  refine ⟨?_, by simp [hslash, hback, hquestion, hhash]⟩
  have hne : c.toNat ≠ 32 := fun heq => hspace (Char.toNat_inj.mp heq)
  omega

theorem mem_encodeText_userinfo {text : Text} {c : Char} (h : c ∈ encodeText userinfoSet text) :
    IsAuthorityChar c := by
  obtain ⟨d, _, hc⟩ := List.mem_flatMap.mp h
  unfold encode at hc
  split at hc
  · obtain ⟨b, _, hc⟩ := List.mem_flatMap.mp hc
    have hhex : ∀ n : Fin 16, IsAuthorityChar (hexDigit n) := by decide
    have hlt := b.toNat_lt
    simp only [List.mem_cons, List.not_mem_nil, or_false] at hc
    rcases hc with rfl | rfl | rfl
    · decide
    · exact hhex ⟨b.toNat / 16, by omega⟩
    · exact hhex ⟨b.toNat % 16, by omega⟩
  · rename_i hset
    obtain rfl := List.mem_singleton.mp hc
    exact isAuthorityChar_of_userinfoSet (Bool.eq_false_iff.mpr hset)

theorem mem_decimal {n : Nat} {c : Char} (h : c ∈ decimal n) : IsAuthorityChar c ∧ c ≠ '@' := by
  have halnum : c.isAlphanum = true := by
    unfold Char.isAlphanum
    rw [isDigit_of_mem_decimal h, Bool.or_true]
  obtain ⟨hplain, hat, _⟩ := isAuthorityChar_alphanum halnum
  exact ⟨hplain, hat⟩

theorem mem_host {host : Text} (h : IsPlainHost host ∨ IsBracketed host) {c : Char}
    (hc : c ∈ host) : IsAuthorityChar c ∧ c ≠ '@' := by
  rcases h with h | ⟨inner, rfl, hinner⟩
  · obtain ⟨hgt, hnot⟩ := h c hc
    simp only [List.mem_cons, List.not_mem_nil, or_false, not_or] at hnot
    exact ⟨⟨hgt, by simp [hnot]⟩, hnot.2.2.2.2.1⟩
  · rw [List.cons_append, List.mem_cons, List.mem_append, List.mem_singleton] at hc
    rcases hc with rfl | hc | rfl
    · exact ⟨⟨by decide, by decide⟩, by decide⟩
    · rcases hinner c hc with halnum | rfl | rfl
      · obtain ⟨hplain, hat, _⟩ := isAuthorityChar_alphanum halnum
        exact ⟨hplain, hat⟩
      · exact ⟨⟨by decide, by decide⟩, by decide⟩
      · exact ⟨⟨by decide, by decide⟩, by decide⟩
    · exact ⟨⟨by decide, by decide⟩, by decide⟩

/-! ## What a parsed URL is made of -/

theorem IsScheme.map_toLower {scheme : Text} (h : IsScheme scheme) :
    IsScheme (scheme.map Char.toLower) ∧
      (scheme.map Char.toLower).map Char.toLower = scheme.map Char.toLower := by
  have hchar : ∀ c : Char, WebUrl.isSchemeChar c = true →
      WebUrl.isSchemeChar c.toLower = true ∧ c.toLower.toLower = c.toLower := by
    intro c hc
    obtain ⟨hgt, _⟩ := (isAuthorityChar_scheme hc).1
    by_cases hascii : c.toNat < 128
    · refine Text.ascii_cases (P := fun c => WebUrl.isSchemeChar c = true →
        WebUrl.isSchemeChar c.toLower = true ∧ c.toLower.toLower = c.toLower) ?_ hascii hc
      decide
    · unfold WebUrl.isSchemeChar at hc
      rw [Bool.or_eq_true, Bool.or_eq_true, Bool.or_eq_true, beq_iff_eq, beq_iff_eq,
        beq_iff_eq] at hc
      rcases hc with ((halnum | rfl) | rfl) | rfl
      · exact absurd (Text.toNat_of_isAlphanum halnum) hascii
      · exact absurd (by decide) hascii
      · exact absurd (by decide) hascii
      · exact absurd (by decide) hascii
  refine ⟨?_, ?_⟩
  · obtain ⟨first, more, rfl, hfirst, hmore⟩ := h
    refine ⟨first.toLower, more.map Char.toLower, rfl, ?_, ?_⟩
    · have hlt : first.toNat < 128 := Text.toNat_of_isAlphanum (by simp [Char.isAlphanum, hfirst])
      refine Text.ascii_cases (P := fun c => c.isAlpha = true → c.toLower.isAlpha = true) ?_
        hlt hfirst
      decide
    · intro c hc
      obtain ⟨d, hd, rfl⟩ := List.mem_map.mp hc
      exact (hchar d (hmore d hd)).1
  · rw [List.map_map]
    refine List.map_congr_left fun c hc => ?_
    exact (hchar c (h.isSchemeChar hc)).2

variable {hosts : HostParser}

theorem parseScheme_formed {text scheme rest : Text} (h : parseScheme text = some (scheme, rest)) :
    IsScheme scheme ∧ scheme.map Char.toLower = scheme := by
  unfold parseScheme at h
  split at h
  · split at h
    · rename_i first more _ _ hok
      obtain ⟨hfirst, hmore⟩ := Bool.and_eq_true_iff.mp hok
      obtain rfl := (Prod.mk.inj (Option.some.inj h)).1
      exact IsScheme.map_toLower ⟨first, more, rfl, hfirst, List.all_eq_true.mp hmore⟩
    · cases h
  · cases h

/-- What is written of an authority can be parsed again. -/
structure FormedAuthority (hosts : HostParser) (scheme : Text) (authority : Authority) : Prop where
  userinfo : ∀ c ∈ authority.username ++ authority.password, IsAuthorityChar c
  host : authority.host ≠ [] →
    hosts.parse (kindOf scheme == .other) authority.host = some authority.host
  port : ∀ port, authority.port = some port → port ≤ 65535 ∧ defaultPort scheme ≠ some port
  file : kindOf scheme = .file → authority.username = [] ∧ authority.password = [] ∧
    authority.port = none ∧ authority.host ≠ "localhost".toList

theorem formed_hostless (scheme : Text) : FormedAuthority hosts scheme hostless where
  userinfo c hc := nomatch hc
  host hne := absurd rfl hne
  port port hport := nomatch hport
  file _ := ⟨rfl, rfl, rfl, by decide⟩

theorem parsePort_formed {default port : Option Nat} {digits : Text}
    (h : parsePort default digits = some port) {n : Nat} (hn : port = some n) :
    n ≤ 65535 ∧ default ≠ some n := by
  subst hn
  unfold parsePort at h
  split at h
  · cases h
  · split at h
    · dsimp only at h
      split at h
      · rename_i hle
        split at h
        · cases h
        · rename_i hdefault
          obtain rfl := Option.some.inj (Option.some.inj h)
          exact ⟨hle, hdefault⟩
      · cases h
    · cases h

theorem parseAuthority_formed {scheme text : Text} {authority : Authority}
    (hkind : kindOf scheme ≠ .file) (h : parseAuthority hosts scheme text = some authority) :
    FormedAuthority hosts scheme authority := by
  unfold parseAuthority at h
  dsimp only at h
  split at h
  · cases h
  · obtain ⟨host, hhost, h⟩ := Option.bind_eq_some_iff.mp h
    obtain ⟨port, hport, h⟩ := Option.bind_eq_some_iff.mp h
    obtain rfl := Option.some.inj h
    refine ⟨?_, fun _ => hosts.reparse hhost, fun n hn => parsePort_formed hport hn,
      fun hfile => absurd hfile hkind⟩
    intro c hc
    rcases List.mem_append.mp hc with hc | hc
    · exact mem_encodeText_userinfo hc
    · exact mem_encodeText_userinfo hc

theorem parseFileHost_formed {scheme text : Text} {authority : Authority}
    (hkind : kindOf scheme = .file) (h : parseFileHost hosts text = some authority) :
    FormedAuthority hosts scheme authority := by
  unfold parseFileHost at h
  split at h
  · obtain rfl := Option.some.inj h
    exact formed_hostless scheme
  · obtain ⟨host, hhost, h⟩ := Option.bind_eq_some_iff.mp h
    obtain rfl := Option.some.inj h
    have hflag : (kindOf scheme == .other) = false := by rw [hkind]; rfl
    by_cases hlocal : host = "localhost".toList
    · rw [if_pos hlocal]
      exact formed_hostless scheme
    · rw [if_neg hlocal]
      refine ⟨fun c hc => (nomatch hc), fun _ => ?_, fun n hn => (nomatch hn),
        fun _ => ⟨rfl, rfl, rfl, hlocal⟩⟩
      rw [hflag]
      exact hosts.reparse hhost

theorem parseBehind_formed {scheme rest : Text} {body : Body} (hkind : kindOf scheme ≠ .file)
    (h : parseBehind hosts scheme rest = some body) :
    FormedAuthority hosts scheme (body.authority.getD hostless) := by
  unfold parseBehind at h
  obtain ⟨authority, hauthority, h⟩ := Option.bind_eq_some_iff.mp h
  obtain rfl := Option.some.inj h
  exact parseAuthority_formed hkind hauthority

theorem parseBody_formed {scheme rest : Text} {body : Body}
    (h : parseBody hosts scheme rest = some body) :
    FormedAuthority hosts scheme (body.authority.getD hostless) := by
  unfold parseBody at h
  split at h
  · rename_i hkind
    exact parseBehind_formed (by rw [hkind]; decide) h
  · rename_i hkind
    unfold parseFile at h
    split at h
    · split at h
      · dsimp only at h
        split at h
        · obtain rfl := Option.some.inj h
          exact formed_hostless scheme
        · obtain ⟨authority, hauthority, h⟩ := Option.bind_eq_some_iff.mp h
          obtain rfl := Option.some.inj h
          exact parseFileHost_formed hkind hauthority
      · split at h
        · obtain rfl := Option.some.inj h
          exact formed_hostless scheme
        · obtain rfl := Option.some.inj h
          exact formed_hostless scheme
    · obtain rfl := Option.some.inj h
      exact formed_hostless scheme
    · obtain rfl := Option.some.inj h
      exact formed_hostless scheme
  · rename_i hkind
    unfold parseOther at h
    split at h
    · exact parseBehind_formed (by rw [hkind]; decide) h
    · obtain rfl := Option.some.inj h
      exact formed_hostless scheme
    · obtain rfl := Option.some.inj h
      exact formed_hostless scheme

/-- The authority of a URL, with no host if it has none. -/
def Url.authority (url : Url) : Authority where
  username := url.username
  password := url.password
  host := url.host.getD []
  port := url.port

structure Formed (hosts : HostParser) (url : Url) : Prop where
  scheme : IsScheme url.scheme ∧ url.scheme.map Char.toLower = url.scheme
  authority : FormedAuthority hosts url.scheme url.authority

/-- **What a parsed URL is made of can be parsed again.** -/
theorem parse_formed {input : Text} {url : Url} (h : parse hosts input = some url) :
    Formed hosts url := by
  unfold parse at h
  dsimp only at h
  obtain ⟨⟨scheme, rest⟩, hscheme, h⟩ := Option.bind_eq_some_iff.mp h
  obtain ⟨body, hbody, h⟩ := Option.bind_eq_some_iff.mp h
  obtain rfl := Option.some.inj h
  refine ⟨parseScheme_formed hscheme, ?_⟩
  have hformed := parseBody_formed hbody
  cases hauthority : body.authority with
  | none =>
      rw [hauthority] at hformed
      exact hformed
  | some authority =>
      rw [hauthority] at hformed
      exact hformed

/-! ## An authority, and what stands behind it -/

/-- An authority, read as its scheme has it. -/
def readAuthority (hosts : HostParser) (scheme text : Text) : Option Authority :=
  if kindOf scheme = .file then parseFileHost hosts text else parseAuthority hosts scheme text

/-- `user:password@host:port`. -/
def Url.authorityText (url : Url) : Text := url.userinfo ++ url.host.getD [] ++ url.portText

theorem mem_portText {url : Url} {c : Char} (h : c ∈ url.portText) :
    IsAuthorityChar c ∧ c ≠ '@' := by
  unfold Url.portText at h
  cases hport : url.port with
  | none =>
      rw [hport] at h
      cases h
  | some port =>
      rw [hport] at h
      rcases List.mem_cons.mp h with rfl | h
      · exact ⟨by decide, by decide⟩
      · exact mem_decimal h

section Reread

variable {url : Url} {host : Text}

theorem Formed.hostShape (h : Formed hosts url) (hhost : url.host = some host) (hne : host ≠ []) :
    hosts.parse (kindOf url.scheme == .other) host = some host ∧
      (IsPlainHost host ∨ IsBracketed host) := by
  have hauthority : url.authority.host = host := by
    show url.host.getD [] = host
    rw [hhost, Option.getD_some]
  have hparse := h.authority.host (by rw [hauthority]; exact hne)
  rw [hauthority] at hparse
  exact ⟨hparse, hosts.shape hparse⟩

/-- What is written of an authority does not end it. -/
theorem Formed.mem_authorityText (h : Formed hosts url) (hhost : url.host = some host)
    (hne : host ≠ []) {c : Char} (hc : c ∈ url.authorityText) : IsAuthorityChar c := by
  unfold Url.authorityText at hc
  rw [hhost, Option.getD_some, List.mem_append, List.mem_append] at hc
  rcases hc with (hc | hc) | hc
  · unfold Url.userinfo at hc
    split at hc
    · cases hc
    · rw [List.mem_append, List.mem_append, List.mem_singleton] at hc
      rcases hc with (hc | hc) | rfl
      · exact h.authority.userinfo c (List.mem_append_left _ hc)
      · split at hc
        · cases hc
        · rcases List.mem_cons.mp hc with rfl | hc
          · decide
          · exact h.authority.userinfo c (List.mem_append_right _ hc)
      · decide
  · exact (mem_host (h.hostShape hhost hne).2 hc).1
  · exact (mem_portText hc).1

theorem parsePort_decimal {default : Option Nat} {port : Nat} (hle : port ≤ 65535)
    (hdefault : default ≠ some port) : parsePort default (decimal port) = some (some port) := by
  have hall : (decimal port).all Char.isDigit = true :=
    List.all_eq_true.mpr fun c hc => isDigit_of_mem_decimal hc
  have hvalue : Nat.ofDigitChars 10 (decimal port) 0 = port :=
    Nat.ofDigitChars_toDigits (by decide) (by decide)
  unfold parsePort
  rw [if_neg (decimal_ne_nil _), if_pos hall, hvalue, if_pos hle, if_neg hdefault]

/-- The host and the port of a URL are split off as they are. -/
theorem Formed.splitPort_hostPort (h : Formed hosts url) (hhost : url.host = some host)
    (hne : host ≠ []) : ∃ portText, splitPort false (host ++ url.portText) = (host, portText) ∧
      parsePort (defaultPort url.scheme) (portText.getD []) = some url.port := by
  obtain ⟨hbare, hwith⟩ := splitPort_host (h.hostShape hhost hne).2
  unfold Url.portText
  cases hport : url.port with
  | none =>
      rw [Option.elim_none, List.append_nil]
      exact ⟨none, hbare, rfl⟩
  | some port =>
      obtain ⟨hle, hdefault⟩ := h.authority.port port hport
      exact ⟨some (decimal port), hwith _, parsePort_decimal hle hdefault⟩

theorem Url.at_notMem_hostPort (url : Url) (h : IsPlainHost host ∨ IsBracketed host) :
    '@' ∉ host ++ url.portText := by
  intro hmem
  rcases List.mem_append.mp hmem with hmem | hmem
  · exact (mem_host h hmem).2 rfl
  · exact (mem_portText hmem).2 rfl

/-- The last `@` is the one behind the credentials. -/
theorem Url.split_userinfo (hhost : url.host = some host)
    (hshape : IsPlainHost host ∨ IsBracketed host) : ∃ userinfo,
      ((Text.rsplitOnce '@' url.authorityText).map fun pair => (some pair.1, pair.2)).getD
        (none, url.authorityText) = (userinfo, host ++ url.portText) := by
  have hnone := url.at_notMem_hostPort hshape
  have htext : url.authorityText = url.userinfo ++ (host ++ url.portText) := by
    unfold Url.authorityText
    rw [hhost, Option.getD_some, List.append_assoc]
  rw [htext]
  unfold Url.userinfo
  split
  · refine ⟨none, ?_⟩
    rw [List.nil_append, Text.rsplitOnce_eq_none hnone]
    rfl
  · rw [List.append_assoc, List.singleton_append, Text.rsplitOnce_append hnone]
    exact ⟨_, rfl⟩

/-- A `file` URL has a host alone. -/
theorem Formed.authorityText_file (h : Formed hosts url) (hhost : url.host = some host)
    (hfile : kindOf url.scheme = .file) : url.port = none ∧ url.authorityText = host := by
  obtain ⟨husername, hpassword, hport, _⟩ := h.authority.file hfile
  have husername : url.username = [] := husername
  have hpassword : url.password = [] := hpassword
  have hport : url.port = none := hport
  refine ⟨hport, ?_⟩
  unfold Url.authorityText Url.userinfo Url.portText
  rw [if_pos ⟨husername, hpassword⟩, hhost, hport]
  simp

/-- **An authority is read back**, with other credentials perhaps. -/
theorem Formed.readAuthority (h : Formed hosts url) (hhost : url.host = some host)
    (hne : host ≠ []) : ∃ username password,
      WebUrl.readAuthority hosts url.scheme url.authorityText =
        some { username, password, host, port := url.port } := by
  obtain ⟨hparse, hshape⟩ := h.hostShape hhost hne
  unfold WebUrl.readAuthority
  by_cases hfile : kindOf url.scheme = .file
  · obtain ⟨hport, htext⟩ := h.authorityText_file hhost hfile
    have hflag : (kindOf url.scheme == .other) = false := by rw [hfile]; rfl
    have hnot : host ≠ "localhost".toList := by
      have hsame : url.authority.host = host := by
        show url.host.getD [] = host
        rw [hhost, Option.getD_some]
      rw [← hsame]
      exact (h.authority.file hfile).2.2.2
    rw [hflag] at hparse
    refine ⟨[], [], ?_⟩
    rw [if_pos hfile, htext, hport]
    unfold parseFileHost
    rw [if_neg hne, hparse]
    show some _ = _
    rw [if_neg hnot]
  · obtain ⟨portText, hsplit, hport⟩ := h.splitPort_hostPort hhost hne
    rw [if_neg hfile]
    unfold parseAuthority
    obtain ⟨userinfo, huserinfo⟩ := Url.split_userinfo hhost hshape
    dsimp only
    rw [huserinfo]
    dsimp only
    rw [hsplit]
    dsimp only
    rw [if_neg fun hand => hne hand.1, hparse, hport]
    exact ⟨_, _, rfl⟩

end Reread

/-! ## A link -/

section Link

variable {scheme authority rest : Text}

/-- The path of what stands behind an authority. -/
def pathBehind (kind : Kind) (rest : Text) : Path :=
  .segments (pathStart kind (cutAt '?' (cutAt '#' (cleanTail rest)).1).1)

/-- And the query. -/
def queryBehind (kind : Kind) (rest : Text) : Option Text :=
  (cutAt '?' (cutAt '#' (cleanTail rest)).1).2.map
    (encodeText (if kind = .other then querySet else specialQuerySet))

/-- Nothing, or from a slash on. -/
def IsRest (rest : Text) : Prop := ∀ c, rest.head? = some c → c = '/'

theorem isRest_slash (more : Text) : IsRest ('/' :: more) := fun _ hc => (Option.some.inj hc).symm

theorem IsRest.cleanTail (h : IsRest rest) : IsRest (Whatwg.cleanTail rest) := by
  cases rest with
  | nil => exact h
  | cons c rest =>
      obtain rfl : c = '/' := h c rfl
      rw [cleanTail_cons (by decide)]
      exact h

theorem IsRest.cutAt (h : IsRest rest) (mark : Char) : IsRest (WebUrl.cutAt mark rest).1 :=
  fun c hc => h c (head?_cutAt hc)

/-- The authority ends where the rest starts. -/
theorem take_authority {ends : Char → Bool} (hslash : ends '/' = true)
    (hauthority : ∀ c ∈ authority, ends c = false) (hrest : IsRest rest) :
    (authority ++ rest).takeWhile (fun c => !ends c) = authority ∧
      (authority ++ rest).dropWhile (fun c => !ends c) = rest := by
  have hall : ∀ c ∈ authority, (!ends c) = true := by
    intro c hc
    rw [hauthority c hc]
    rfl
  rw [List.takeWhile_append_of_pos hall, List.dropWhile_append_of_pos hall]
  cases rest with
  | nil => exact ⟨List.append_nil _, rfl⟩
  | cons c rest =>
      obtain rfl : c = '/' := hrest c rfl
      rw [List.takeWhile_cons, List.dropWhile_cons, hslash]
      exact ⟨List.append_nil _, rfl⟩

theorem isSlash_authority {kind : Kind} {c : Char} (h : IsAuthorityChar c) :
    isSlash kind c = false := by
  have hslash : (c == '/') = false := beq_eq_false_iff_ne.mpr fun heq => h.2 (by simp [heq])
  have hback : (c == '\\') = false := beq_eq_false_iff_ne.mpr fun heq => h.2 (by simp [heq])
  unfold isSlash
  rw [hslash, hback, Bool.and_false]
  rfl

theorem isSeparator_authority {c : Char} (h : IsAuthorityChar c) : isSeparator c = false := by
  unfold isSeparator
  rw [decide_eq_false_iff_not]
  intro hmem
  apply h.2
  rw [List.mem_cons, List.mem_singleton] at hmem
  rcases hmem with rfl | rfl
  · simp
  · simp

theorem parseBehind_append (hauthority : ∀ c ∈ authority, IsAuthorityChar c)
    (hrest : IsRest rest) : parseBehind hosts scheme (authority ++ rest) =
      (parseAuthority hosts scheme authority).map fun a =>
        { authority := some a, path := .segments (pathStart (kindOf scheme) rest) } := by
  have hslash : isSlash (kindOf scheme) '/' = true := rfl
  obtain ⟨htake, hdrop⟩ := take_authority hslash
    (fun c hc => isSlash_authority (hauthority c hc)) hrest
  unfold parseBehind
  simp only [htake, hdrop]
  cases parseAuthority hosts scheme authority <;> rfl

/-- **Behind `scheme://authority` the rest is the path.** -/
theorem parseBody_append (hne : authority ≠ []) (hauthority : ∀ c ∈ authority, IsAuthorityChar c)
    (hdrive : kindOf scheme = .file → isDriveLetter authority = false) (hrest : IsRest rest) :
    parseBody hosts scheme ("//".toList ++ (authority ++ rest)) =
      (readAuthority hosts scheme authority).map fun a =>
        { authority := some a, path := .segments (pathStart (kindOf scheme) rest) } := by
  unfold parseBody readAuthority
  cases hkind : kindOf scheme with
  | special =>
      have hdropped : ("//".toList ++ (authority ++ rest)).dropWhile isSeparator =
          authority ++ rest := by
        obtain ⟨first, more, rfl⟩ := List.exists_cons_of_ne_nil hne
        have hfirst := isSeparator_authority (hauthority first List.mem_cons_self)
        show (first :: (more ++ rest)).dropWhile isSeparator = _
        rw [List.dropWhile_cons, hfirst]
        rfl
      dsimp only
      rw [hdropped, parseBehind_append hauthority hrest, hkind, if_neg (by decide)]
  | file =>
      have hslash : isSeparator '/' = true := by decide
      obtain ⟨htake, hdrop⟩ := take_authority hslash
        (fun c hc => isSeparator_authority (hauthority c hc)) hrest
      dsimp only
      rw [if_pos rfl]
      show parseFile hosts ('/' :: '/' :: (authority ++ rest)) = _
      unfold parseFile
      dsimp only
      rw [hslash, Bool.and_self, if_pos rfl, htake, hdrop, hdrive hkind, if_neg Bool.false_ne_true]
      cases parseFileHost hosts authority <;> rfl
  | other =>
      dsimp only
      rw [if_neg (by decide)]
      show parseOther hosts scheme ('/' :: '/' :: (authority ++ rest)) = _
      rw [parseOther, parseBehind_append hauthority hrest, hkind]

/-- **A link**: behind the authority the rest alone decides path and query. -/
theorem parse_link (hscheme : IsScheme scheme) (hne : authority ≠ [])
    (hauthority : ∀ c ∈ authority, IsAuthorityChar c)
    (hdrive : kindOf (scheme.map Char.toLower) = .file → isDriveLetter authority = false)
    (hrest : IsRest rest) :
    ∃ fragment, parse hosts (scheme ++ "://".toList ++ authority ++ rest) =
      (readAuthority hosts (scheme.map Char.toLower) authority).map fun a =>
        { scheme := scheme.map Char.toLower
          username := a.username, password := a.password
          host := some a.host, port := a.port
          path := pathBehind (kindOf (scheme.map Char.toLower)) rest
          query := queryBehind (kindOf (scheme.map Char.toLower)) rest
          fragment } := by
  have hfront : ∀ c ∈ scheme ++ "://".toList ++ authority,
      32 < c.toNat ∧ c ≠ '?' ∧ c ≠ '#' := by
    have hplain : ∀ {c : Char}, IsAuthorityChar c → 32 < c.toNat ∧ c ≠ '?' ∧ c ≠ '#' := by
      intro c hc
      refine ⟨hc.1, ?_, ?_⟩
      · rintro rfl
        exact hc.2 (by simp)
      · rintro rfl
        exact hc.2 (by simp)
    have hsep : ∀ c ∈ "://".toList, 32 < c.toNat ∧ c ≠ '?' ∧ c ≠ '#' := by decide
    intro c hc
    rcases List.mem_append.mp hc with hc | hc
    · rcases List.mem_append.mp hc with hc | hc
      · exact hplain (isAuthorityChar_scheme (hscheme.isSchemeChar hc)).1
      · exact hsep c hc
    · exact hplain (hauthority c hc)
  have hclean : clean (scheme ++ "://".toList ++ authority ++ rest) =
      scheme ++ "://".toList ++ authority ++ Whatwg.cleanTail rest :=
    clean_append (by simp) (fun c hc => (hfront c hc).1) rest
  have hhash := @cutAt_append '#' _ (fun hmem => (hfront _ hmem).2.2 rfl)
    (Whatwg.cleanTail rest)
  have hquery := @cutAt_append '?' _ (fun hmem => (hfront _ hmem).2.1 rfl)
    (WebUrl.cutAt '#' (Whatwg.cleanTail rest)).1
  have hpath := (hrest.cleanTail.cutAt '#').cutAt '?'
  have hparts : ∀ path, parseScheme (scheme ++ "://".toList ++ authority ++ path) =
      some (scheme.map Char.toLower, "//".toList ++ (authority ++ path)) := by
    intro path
    have hcolon : ':' ∉ scheme := fun hmem =>
      (isAuthorityChar_scheme (hscheme.isSchemeChar hmem)).2 rfl
    have hshape : scheme ++ "://".toList ++ authority ++ path =
        scheme ++ ':' :: ("//".toList ++ (authority ++ path)) := by
      rw [List.append_assoc, List.append_assoc]
      rfl
    obtain ⟨first, more, heq, hfirst, hmore⟩ := hscheme
    unfold parseScheme
    rw [hshape, cutAt_mark hcolon, heq]
    dsimp only
    rw [hfirst, List.all_eq_true.mpr hmore, Bool.and_self, if_pos rfl]
  refine ⟨(WebUrl.cutAt '#' (Whatwg.cleanTail rest)).2.map (encodeText fragmentSet), ?_⟩
  unfold parse
  rw [hclean]
  dsimp only
  rw [hhash]
  dsimp only
  rw [hquery]
  dsimp only
  rw [hparts, Option.bind_eq_bind, Option.bind_some]
  dsimp only
  rw [parseBody_append hne hauthority hdrive hpath]
  cases readAuthority hosts (scheme.map Char.toLower) authority <;> rfl

end Link

/-! ## Rests that every kind reads alike -/

section Neutral

variable {kind kind' : Kind} {rest : Text}

/-- Where the kinds differ: in backslashes and quotes, in drive letters, and in a
rest that is empty. -/
structure IsNeutral (rest : Text) : Prop where
  ne_nil : rest ≠ []
  plain : ∀ c ∈ rest, c ∉ ['\\', '\'', ':', '|']

/-- No drive letter. -/
def Undriven (text : Text) : Prop := ':' ∉ text ∧ '|' ∉ text

theorem Undriven.append {a b : Text} (ha : Undriven a) (hb : Undriven b) : Undriven (a ++ b) := by
  constructor
  · intro h
    rcases List.mem_append.mp h with h | h
    · exact ha.1 h
    · exact hb.1 h
  · intro h
    rcases List.mem_append.mp h with h | h
    · exact ha.2 h
    · exact hb.2 h

theorem undriven_encode {c : Char} (h : c ∉ ['\\', '\'', ':', '|']) (set : Char → Bool) :
    Undriven (encode set c) := by
  have hmem : ∀ d ∈ encode set c, d ≠ ':' ∧ d ≠ '|' := by
    intro d hd
    unfold encode at hd
    split at hd
    · obtain ⟨b, _, hd⟩ := List.mem_flatMap.mp hd
      have hhex : ∀ n : Fin 16, hexDigit n ≠ ':' ∧ hexDigit n ≠ '|' := by decide
      have hlt := b.toNat_lt
      simp only [List.mem_cons, List.not_mem_nil, or_false] at hd
      rcases hd with rfl | rfl | rfl
      · decide
      · exact hhex ⟨b.toNat / 16, by omega⟩
      · exact hhex ⟨b.toNat % 16, by omega⟩
    · obtain rfl := List.mem_singleton.mp hd
      refine ⟨?_, ?_⟩
      · rintro rfl
        exact h (by simp)
      · rintro rfl
        exact h (by simp)
  exact ⟨fun hc => (hmem _ hc).1 rfl, fun hc => (hmem _ hc).2 rfl⟩

theorem Undriven.not_drive {text : Text} (h : Undriven text) :
    isDriveLetter text = false ∧ isNormalizedDrive text = false := by
  match text with
  | [] => exact ⟨rfl, rfl⟩
  | [letter] => exact ⟨rfl, rfl⟩
  | [letter, mark] =>
      have hcolon : (mark == ':') = false := by
        rw [beq_eq_false_iff_ne]
        rintro rfl
        exact h.1 (by simp)
      have hbar : (mark == '|') = false := by
        rw [beq_eq_false_iff_ne]
        rintro rfl
        exact h.2 (by simp)
      unfold isDriveLetter isNormalizedDrive
      dsimp only
      rw [hcolon, hbar, Bool.or_self, Bool.and_false]
      exact ⟨rfl, rfl⟩
  | a :: b :: c :: more => exact ⟨rfl, rfl⟩

/-- Without drive letters a segment is closed alike. -/
theorem closeSegment_undriven {path : List Text} {buffer : Text} (hpath : ∀ s ∈ path, Undriven s)
    (hbuffer : Undriven buffer) (kind : Kind) (last : Bool) :
    closeSegment kind last path buffer = closeSegment .special last path buffer := by
  have hpush : pushSegment kind path buffer = pushSegment .special path buffer := by
    unfold pushSegment
    rw [hbuffer.not_drive.1]
    simp
  have hshorten : shorten kind path = shorten .special path := by
    unfold shorten
    rw [if_neg (c := Kind.special = .file ∧ _) (by simp)]
    refine if_neg ?_
    rintro ⟨_, hlength, hall⟩
    obtain ⟨segment, rfl⟩ := List.length_eq_one_iff.mp hlength
    have hdrive := List.all_eq_true.mp hall segment List.mem_cons_self
    rw [(hpath segment List.mem_cons_self).not_drive.2] at hdrive
    cases hdrive
  unfold closeSegment
  rw [hpush, hshorten]

theorem closeSegment_undriven_mem {path : List Text} {buffer : Text}
    (hpath : ∀ s ∈ path, Undriven s) (hbuffer : Undriven buffer) (last : Bool) :
    ∀ s ∈ closeSegment .special last path buffer, Undriven s := by
  have hnil : Undriven [] := ⟨List.not_mem_nil, List.not_mem_nil⟩
  have hconcat : ∀ {path : List Text} {segment : Text}, (∀ s ∈ path, Undriven s) →
      Undriven segment → ∀ s ∈ path ++ [segment], Undriven s := by
    intro path segment hpath hsegment s hs
    rcases List.mem_append.mp hs with hs | hs
    · exact hpath s hs
    · rw [List.mem_singleton.mp hs]
      exact hsegment
  have hshorten : ∀ s ∈ shorten .special path, Undriven s := by
    intro s hs
    unfold shorten at hs
    rw [if_neg (by simp)] at hs
    exact hpath s (List.dropLast_subset _ hs)
  have hpush : pushSegment .special path buffer = path ++ [buffer] := if_neg (by simp)
  unfold closeSegment
  rw [hpush]
  split
  · split
    · exact hconcat hshorten hnil
    · exact hshorten
  · split
    · split
      · exact hconcat hpath hnil
      · exact hpath
    · exact hconcat hpath hbuffer

theorem pathState_neutral {text : Text} (h : ∀ c ∈ text, c ∉ ['\\', '\'', ':', '|'])
    {path : List Text} {buffer : Text} (hpath : ∀ s ∈ path, Undriven s)
    (hbuffer : Undriven buffer) (kind : Kind) :
    pathState kind path buffer text = pathState .special path buffer text := by
  induction text generalizing path buffer with
  | nil => exact closeSegment_undriven hpath hbuffer kind true
  | cons c text ih =>
      have hc := h c List.mem_cons_self
      have htext : ∀ d ∈ text, d ∉ ['\\', '\'', ':', '|'] :=
        fun d hd => h d (List.mem_cons_of_mem _ hd)
      have hback : (c == '\\') = false := by
        rw [beq_eq_false_iff_ne]
        rintro rfl
        exact hc (by simp)
      have hslash : ∀ kind, isSlash kind c = (c == '/') := by
        intro kind
        unfold isSlash
        rw [hback, Bool.and_false, Bool.or_false]
      rw [pathState, pathState, hslash, hslash]
      split
      · rw [closeSegment_undriven hpath hbuffer kind]
        exact ih htext (closeSegment_undriven_mem hpath hbuffer false)
          ⟨List.not_mem_nil, List.not_mem_nil⟩
      · exact ih htext hpath (hbuffer.append (undriven_encode hc _))

theorem mem_of_mem_cutAt {mark c : Char} {text : Text} (h : c ∈ (cutAt mark text).1) : c ∈ text :=
  (List.takeWhile_sublist _).mem h

theorem mem_of_mem_query {mark c : Char} {text query : Text} (h : (cutAt mark text).2 = some query)
    (hc : c ∈ query) : c ∈ text := by
  unfold cutAt at h
  cases hdrop : text.dropWhile (· != mark) with
  | nil =>
      rw [hdrop] at h
      cases h
  | cons d more =>
      rw [hdrop] at h
      obtain rfl : more = query := Option.some.inj h
      refine (List.dropWhile_sublist (· != mark)).mem ?_
      rw [hdrop]
      exact List.mem_cons_of_mem _ hc

theorem mem_of_mem_cleanTail {c : Char} {text : Text} (h : c ∈ cleanTail text) : c ∈ text := by
  unfold cleanTail at h
  exact (List.rdropWhile_prefix _ _).sublist.mem (List.mem_of_mem_filter h)

/-- **A neutral rest has one path and one query.** -/
theorem behind_neutral (hrest : IsRest rest) (h : IsNeutral rest) (kind kind' : Kind) :
    pathBehind kind rest = pathBehind kind' rest ∧
      queryBehind kind rest = queryBehind kind' rest := by
  have hclean : ∀ c ∈ (cutAt '#' (cleanTail rest)).1, c ∉ ['\\', '\'', ':', '|'] :=
    fun c hc => h.plain c (mem_of_mem_cleanTail (mem_of_mem_cutAt hc))
  obtain ⟨first, more, hcons⟩ := List.exists_cons_of_ne_nil h.ne_nil
  obtain rfl : first = '/' := hrest first (by rw [hcons]; rfl)
  -- the slash it starts with is not cut away
  obtain ⟨t, ht⟩ : ∃ t, (cutAt '?' (cutAt '#' (cleanTail rest)).1).1 = '/' :: t := by
    rw [hcons, cleanTail_cons (by decide)]
    exact ⟨_, rfl⟩
  have hnil : Undriven [] := ⟨List.not_mem_nil, List.not_mem_nil⟩
  have hpath : ∀ kind, pathStart kind ('/' :: t) = pathState .special [] [] t := by
    intro kind
    have hplain : ∀ c ∈ t, c ∉ ['\\', '\'', ':', '|'] := by
      intro c hc
      refine hclean c (@mem_of_mem_cutAt '?' c _ ?_)
      rw [ht]
      exact List.mem_cons_of_mem _ hc
    exact pathState_neutral hplain (fun _ hs => absurd hs List.not_mem_nil) hnil kind
  have hquery : ∀ kind, queryBehind kind rest =
      (cutAt '?' (cutAt '#' (cleanTail rest)).1).2.map (encodeText querySet) := by
    intro kind
    unfold queryBehind
    cases hcut : (cutAt '?' (cutAt '#' (cleanTail rest)).1).2 with
    | none => rfl
    | some query =>
        refine congrArg some ?_
        split
        · rfl
        · refine List.flatMap_congr fun c hc => ?_
          have hquote : (c == '\'') = false := by
            rw [beq_eq_false_iff_ne]
            rintro rfl
            exact hclean _ (mem_of_mem_query hcut hc) (by simp)
          unfold encode specialQuerySet
          rw [hquote, Bool.or_false]
  unfold pathBehind
  rw [ht, hpath kind, hpath kind', hquery kind, hquery kind']
  exact ⟨rfl, rfl⟩

end Neutral

/-! ## A URL that is a scheme and an authority -/

theorem trimEndMatches_authority {front authority path : Text} (hne : authority ≠ [])
    (hslash : '/' ∉ authority) (hpath : path = [] ∨ path = ['/']) :
    (front ++ authority ++ path).trimEndMatches '/' = front ++ authority := by
  have hkeep : (front ++ authority).rdropWhile (· == '/') = front ++ authority := by
    rw [List.rdropWhile_eq_self_iff]
    intro hnil hlast
    apply hslash
    rw [List.getLast_append_of_ne_nil hnil hne] at hlast
    rw [← beq_iff_eq.mp hlast]
    exact List.getLast_mem hne
  unfold Text.trimEndMatches
  rcases hpath with rfl | rfl
  · rw [List.append_nil, hkeep]
  · rw [List.rdropWhile_concat_pos _ _ _ (by simp), hkeep]

theorem Url.asStr_bare {url : Url} {host : Text} (hhost : url.host = some host)
    (hquery : url.query = none) (hfragment : url.fragment = none) :
    url.asStr = url.scheme ++ "://".toList ++ url.authorityText ++ url.path.text := by
  unfold Url.asStr Url.front Url.authorityText
  rw [hhost, hquery, hfragment, Option.getD_some, Option.elim_none, Option.elim_none]
  simp

section Splice

variable {hosts : HostParser} {url : Url} {host rest : Text}

/-- The authority of a `file` URL is not read as a drive letter. -/
theorem Formed.not_drive (h : Formed hosts url) (hhost : url.host = some host) (hne : host ≠ [])
    (hfile : kindOf url.scheme = .file) : isDriveLetter url.authorityText = false := by
  rw [(h.authorityText_file hhost hfile).2]
  rcases (h.hostShape hhost hne).2 with hplain | ⟨inner, rfl, _⟩
  · have hundriven : Undriven host :=
      ⟨fun hmem => (hplain _ hmem).2 (by simp), fun hmem => (hplain _ hmem).2 (by simp)⟩
    exact hundriven.not_drive.1
  · have hopen : '['.isAlpha = false := by decide
    unfold isDriveLetter
    split
    · rename_i heq
      rw [← (List.cons.inj heq).1, hopen, Bool.false_and]
    · rfl

theorem Formed.authorityText_ne_nil (hhost : url.host = some host) (hne : host ≠ []) :
    url.authorityText ≠ [] := by
  unfold Url.authorityText
  rw [hhost, Option.getD_some]
  intro hnil
  exact hne (List.append_eq_nil_iff.mp (List.append_eq_nil_iff.mp hnil).1).2

/-- **A URL spliced in front of a rest** keeps scheme, host and port, and takes
path and query from the rest. -/
theorem Formed.parse_splice (h : Formed hosts url) (hhost : url.host = some host) (hne : host ≠ [])
    (hrest : IsRest rest) :
    ∃ spliced,
      parse hosts (url.scheme ++ "://".toList ++ url.authorityText ++ rest) = some spliced ∧
      spliced.scheme = url.scheme ∧ spliced.host = url.host ∧ spliced.port = url.port ∧
      spliced.path = pathBehind (kindOf url.scheme) rest ∧
      spliced.query = queryBehind (kindOf url.scheme) rest := by
  obtain ⟨hscheme, hlower⟩ := h.scheme
  obtain ⟨username, password, hread⟩ := h.readAuthority hhost hne
  obtain ⟨fragment, hparse⟩ := @parse_link hosts url.scheme url.authorityText rest hscheme
    (Formed.authorityText_ne_nil hhost hne) (fun c hc => h.mem_authorityText hhost hne hc)
    (by rw [hlower]; exact h.not_drive hhost hne) hrest
  rw [hlower, hread, Option.map_some] at hparse
  exact ⟨_, hparse, rfl, hhost.symm, rfl, rfl, rfl⟩

/-- Behind an authority that parses, every rest does. -/
theorem parse_behind {scheme authority rest' : Text} (hscheme : IsScheme scheme)
    (hne : authority ≠ []) (hauthority : ∀ c ∈ authority, IsAuthorityChar c)
    (hdrive : isDriveLetter authority = false) (hrest : IsRest rest) (hrest' : IsRest rest')
    (h : parse hosts (scheme ++ "://".toList ++ authority ++ rest) = some url) :
    url.scheme = scheme.map Char.toLower ∧
      ∃ other, parse hosts (scheme ++ "://".toList ++ authority ++ rest') = some other ∧
        other.path = pathBehind (kindOf url.scheme) rest' ∧
        other.query = queryBehind (kindOf url.scheme) rest' := by
  obtain ⟨_, hparse⟩ := @parse_link hosts scheme authority rest hscheme hne hauthority
    (fun _ => hdrive) hrest
  obtain ⟨_, hparse'⟩ := @parse_link hosts scheme authority rest' hscheme hne hauthority
    (fun _ => hdrive) hrest'
  rw [hparse] at h
  obtain ⟨a, ha, rfl⟩ := Option.map_eq_some_iff.mp h
  rw [ha, Option.map_some] at hparse'
  exact ⟨rfl, _, hparse', rfl, rfl⟩

end Splice

end Lib.WebUrl
