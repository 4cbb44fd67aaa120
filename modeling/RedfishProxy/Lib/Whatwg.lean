import RedfishProxy.Lib.Net

/-!
# The WHATWG parser on `https` URLs

The states of the URL standard that an absolute `https` URL goes through:
cleaning, scheme, authority, host, port and path. The host parser and the path
percent-encode set are parameters, so the results hold of every version of the
set.

Main results:
* `parse_relayed`: `https://ip:port` and a path parse to that address and port.
* `parse_asterisk`: the request target `*` does not.
* `isNormalPath_parsePath`: what the path state serialises has no dot segment,
  no backslash and nothing left to encode.
* `parsePath_eq_self_iff`: exactly such a path is left as it is.
-/

namespace Lib.Whatwg

/-! ## The parser -/

def isC0OrSpace (c : Char) : Bool := c.toNat ≤ 32

def isTabOrNewline (c : Char) : Bool := c ∈ ['\t', '\n', '\r']

/-- Leading and trailing C0 controls and spaces go, and every tab and newline. -/
def clean (input : Text) : Text :=
  ((input.dropWhile isC0OrSpace).rdropWhile isC0OrSpace).filter fun c => !isTabOrNewline c

/-- In a special URL a backslash is a slash. -/
def isSeparator (c : Char) : Bool := c ∈ ['/', '\\']

def endsAuthority (c : Char) : Bool := c ∈ ['/', '\\', '?', '#']

def endsPath (c : Char) : Bool := c ∈ ['?', '#']

/-- The host state: up to the first colon outside brackets. -/
def splitPort : Bool → Text → Text × Option Text
  | _, [] => ([], none)
  | inside, c :: t =>
    if c = ':' ∧ inside = false then ([], some t)
    else
      let rest := splitPort (c == '[' || (inside && c != ']')) t
      (c :: rest.1, rest.2)

/-- The port state. The default port of `https` is the null port. -/
def parsePort (digits : Text) : Option (Option Nat) :=
  if digits = [] then some none
  else if digits.all Char.isDigit then
    let port := Nat.ofDigitChars 10 digits 0
    if port ≤ 65535 then some (if port = 443 then none else some port) else none
  else none

def isSingleDot (segment : Text) : Bool :=
  segment.map Char.toLower ∈ [".".toList, "%2e".toList]

def isDoubleDot (segment : Text) : Bool :=
  segment.map Char.toLower ∈
    ["..".toList, ".%2e".toList, "%2e.".toList, "%2e%2e".toList]

/-- An upper-case hexadecimal digit. -/
def hexDigit (n : Nat) : Char := if n < 10 then Char.ofNat (48 + n) else Char.ofNat (55 + n)

/-- UTF-8 percent-encoding with a set. -/
def encode (set : Char → Bool) (c : Char) : Text :=
  if set c then
    (String.utf8EncodeChar c).flatMap fun b => ['%', hexDigit (b.toNat / 16), hexDigit (b.toNat % 16)]
  else [c]

/-- The path state at a slash. -/
def closeSegment (path : List Text) (buffer : Text) : List Text :=
  if isDoubleDot buffer then path.dropLast
  else if isSingleDot buffer then path
  else path ++ [buffer]

/-- The path state at the end of the path. -/
def closePath (path : List Text) (buffer : Text) : List Text :=
  if isDoubleDot buffer then path.dropLast ++ [[]]
  else if isSingleDot buffer then path ++ [[]]
  else path ++ [buffer]

/-- The path state. -/
def pathState (set : Char → Bool) : List Text → Text → Text → List Text
  | path, buffer, [] => closePath path buffer
  | path, buffer, c :: t =>
    if isSeparator c then pathState set (closeSegment path buffer) [] t
    else pathState set path (buffer ++ encode set c) t

/-- The path start state drops the first slash. -/
def parsePath (set : Char → Bool) : Text → List Text
  | [] => pathState set [] [] []
  | c :: t => if isSeparator c then pathState set [] [] t else pathState set [] [] (c :: t)

/-- The URL path serialiser. -/
def serialize (path : List Text) : Text := path.flatMap fun segment => '/' :: segment

structure Url where
  /-- Username and password, as written. -/
  credentials : Option Text
  host : Text
  port : Option Nat
  path : Text
  deriving DecidableEq

/-- The port a connection is made to. -/
def Url.portOrDefault (url : Url) : Nat := url.port.getD 443

/-- The URL serialiser, up to the path. -/
def Url.display (url : Url) : Text :=
  "https://".toList ++ ((url.credentials.elim [] fun user => user ++ ['@']) ++
    (url.host ++ ((url.port.elim [] fun port => ':' :: decimal port) ++ url.path)))

/-- The authority, host and port states. -/
def parseAuthority (parseHost : Text → Option Text) (authority path : Text) : Option Url :=
  let (credentials, hostPort) :=
    match Text.rsplitOnce '@' authority with
    | some (credentials, hostPort) => (some credentials, hostPort)
    | none => (none, authority)
  let (hostText, portText) := splitPort false hostPort
  if hostText = [] then none
  else do
    let host ← parseHost hostText
    let port ← parsePort (portText.getD [])
    return { credentials, host, port, path }

/-- The parser on an absolute `https` URL. `parseHost` answers the serialised
host, or fails. -/
def parse (parseHost : Text → Option Text) (set : Char → Bool) (input : Text) : Option Url :=
  let text := clean input
  if Text.eqIgnoreAsciiCase (text.take 6) "https:".toList then
    let rest := (text.drop 6).dropWhile isSeparator
    let authority := rest.takeWhile fun c => !endsAuthority c
    let path := (rest.dropWhile fun c => !endsAuthority c).takeWhile fun c => !endsPath c
    parseAuthority parseHost authority (serialize (parsePath set path))
  else none

/-! ## The authority of a relayed URL -/

/-- What cleaning leaves of the end of a URL. -/
def cleanTail (back : Text) : Text :=
  (back.rdropWhile isC0OrSpace).filter fun c => !isTabOrNewline c

theorem cleanTail_cons {c : Char} (hc : 32 < c.toNat) (t : Text) :
    cleanTail (c :: t) = c :: cleanTail t := by
  have hspace : isC0OrSpace c = false := by simpa [isC0OrSpace] using hc
  have htab : isTabOrNewline c = false := by
    by_contra htab
    simp only [isTabOrNewline, List.mem_cons, List.not_mem_nil, or_false, decide_eq_true_eq,
      Bool.not_eq_false] at htab
    rcases htab with rfl | rfl | rfl <;> exact absurd hc (by decide)
  unfold cleanTail
  rw [show c :: t = [] ++ c :: t from rfl, Text.rdropWhile_stop hspace]
  simp [htab]

theorem cleanTail_append {front : Text} (h : ∀ c ∈ front, 32 < c.toNat) (back : Text) :
    cleanTail (front ++ back) = front ++ cleanTail back := by
  induction front with
  | nil => rfl
  | cons c front ih =>
      rw [List.cons_append, cleanTail_cons (h c (by simp)), ih fun d hd => h d (by simp [hd]),
        List.cons_append]

/-- Nothing to clean in front, only behind. -/
theorem clean_append {front : Text} (hne : front ≠ [])
    (h : ∀ c ∈ front, 32 < c.toNat) (back : Text) :
    clean (front ++ back) = front ++ cleanTail back := by
  have hkeep : ∀ c ∈ front, isC0OrSpace c = false ∧ isTabOrNewline c = false := by
    intro c hc
    have hgt := h c hc
    refine ⟨by simpa [isC0OrSpace] using hgt, ?_⟩
    by_contra htab
    simp only [isTabOrNewline, List.mem_cons, List.not_mem_nil, or_false, decide_eq_true_eq,
      Bool.not_eq_false] at htab
    rcases htab with rfl | rfl | rfl <;> exact absurd hgt (by decide)
  obtain ⟨first, rest, rfl⟩ := List.exists_cons_of_ne_nil hne
  have hlead : ((first :: rest) ++ back).dropWhile isC0OrSpace = (first :: rest) ++ back := by
    rw [List.cons_append, List.dropWhile_cons_of_neg]
    simp [(hkeep first (by simp)).1]
  obtain ⟨init, last, heq⟩ := List.eq_nil_or_concat (first :: rest) |>.resolve_left hne
  rw [List.concat_eq_append] at heq
  have hlast : isC0OrSpace last = false := (hkeep last (by simp [heq])).1
  have htrail : ((first :: rest) ++ back).rdropWhile isC0OrSpace =
      (first :: rest) ++ back.rdropWhile isC0OrSpace := by
    rw [heq, List.append_assoc, List.append_assoc]
    exact Text.rdropWhile_stop hlast init back
  unfold clean cleanTail
  rw [hlead, htrail, List.filter_append]
  congr 1
  rw [List.filter_eq_self]
  intro c hc
  simp [(hkeep c hc).2]

theorem splitPort_colon {host : Text} (hcolon : ':' ∉ host) (hopen : '[' ∉ host) (port : Text) :
    splitPort false (host ++ ':' :: port) = (host, some port) := by
  induction host with
  | nil => simp [splitPort]
  | cons c host ih =>
      have hc : c ≠ ':' := fun h => hcolon (by simp [h])
      have hb : (c == '[') = false := by simpa using fun h : c = '[' => hopen (by simp [h])
      rw [List.cons_append, splitPort, if_neg (by simp [hc])]
      simp only [hb, Bool.false_and, Bool.or_false]
      rw [ih (fun h => hcolon (by simp [h])) (fun h => hopen (by simp [h]))]

theorem parsePort_decimal (port : Fin 65536) :
    parsePort (decimal port) = some (if port.val = 443 then none else some port.val) := by
  have hall : (decimal port).all Char.isDigit = true := by
    rw [List.all_eq_true]
    intro c hc
    exact isDigit_of_mem_decimal hc
  have hvalue : Nat.ofDigitChars 10 (decimal port) 0 = port.val :=
    Nat.ofDigitChars_toDigits (by decide) (by decide)
  unfold parsePort
  rw [if_neg (decimal_ne_nil _), if_pos hall, hvalue, if_pos (by omega)]

theorem mem_socketDisplay {addr : SocketAddrV4} {c : Char} (h : c ∈ addr.display) :
    c.isDigit = true ∨ c = '.' ∨ c = ':' := by
  rcases List.mem_append.mp h with h | h
  · rcases Ipv4Addr.mem_display h with h | h
    · exact .inl h
    · exact .inr (.inl h)
  · rcases List.mem_cons.mp h with h | h
    · exact .inr (.inr h)
    · exact .inl (isDigit_of_mem_decimal h)

/-- Digits, dots and colons end nothing. -/
theorem plain_of_mem_socketDisplay {addr : SocketAddrV4} {c : Char} (h : c ∈ addr.display) :
    32 < c.toNat ∧ endsAuthority c = false := by
  rcases mem_socketDisplay h with h | rfl | rfl
  · have hge : 48 ≤ c.toNat := (Char.isDigit_iff_toNat.mp h).1
    have hle := Text.isDigit_toNat h
    refine Text.ascii_cases (P := fun c => 48 ≤ c.toNat → c.toNat ≤ 57 →
      32 < c.toNat ∧ endsAuthority c = false) ?_ (by omega) hge hle
    decide
  · decide
  · decide

/-- The authority is what stands before the first slash, question mark or
hash, and the path what stands between that and the query. -/
theorem parse_of_authority (parseHost : Text → Option Text) (set : Char → Bool)
    {authority back : Text} (hne : authority ≠ [])
    (hplain : ∀ c ∈ authority, 32 < c.toNat ∧ endsAuthority c = false)
    (hback : ∀ c, (cleanTail back).head? = some c → endsAuthority c = true) :
    parse parseHost set ("https://".toList ++ authority ++ back) =
      parseAuthority parseHost authority
        (serialize (parsePath set ((cleanTail back).takeWhile fun c => !endsPath c))) := by
  -- whitespace and control characters go only from the ends
  have hclean : clean ("https://".toList ++ authority ++ back) =
      "https://".toList ++ (authority ++ cleanTail back) := by
    rw [clean_append (by simp) ?_ back, List.append_assoc]
    intro c hc
    have hfront : ∀ c ∈ "https://".toList, 32 < c.toNat := by decide
    rcases List.mem_append.mp hc with hc | hc
    · exact hfront c hc
    · exact (hplain c hc).1
  -- the authority starts at once behind the two slashes
  have hrest : ("//".toList ++ (authority ++ cleanTail back)).dropWhile isSeparator =
      authority ++ cleanTail back := by
    obtain ⟨first, rest, rfl⟩ := List.exists_cons_of_ne_nil hne
    have hfirst : isSeparator first = false := by
      by_contra h
      have hends := (hplain first (by simp)).2
      simp only [isSeparator, List.mem_cons, List.not_mem_nil, or_false, decide_eq_true_eq,
        Bool.not_eq_false] at h
      rcases h with rfl | rfl <;> exact absurd hends (by decide)
    show ((first :: rest) ++ cleanTail back).dropWhile isSeparator = _
    simp [hfirst]
  -- and it ends where the path begins
  have htake : (authority ++ cleanTail back).takeWhile (fun c => !endsAuthority c) = authority := by
    rw [List.takeWhile_append_of_pos (fun c hc => by simp [(hplain c hc).2])]
    cases htail : cleanTail back with
    | nil => simp
    | cons c t => simp [hback c (by simp [htail])]
  have hdrop : (authority ++ cleanTail back).dropWhile (fun c => !endsAuthority c) =
      cleanTail back := by
    rw [List.dropWhile_append_of_pos (fun c hc => by simp [(hplain c hc).2])]
    cases htail : cleanTail back with
    | nil => simp
    | cons c t => simp [hback c (by simp [htail])]
  have hscheme : Text.eqIgnoreAsciiCase
      (("https://".toList ++ (authority ++ cleanTail back)).take 6) "https:".toList = true := rfl
  have hslashes : ("https://".toList ++ (authority ++ cleanTail back)).drop 6 =
      "//".toList ++ (authority ++ cleanTail back) := rfl
  unfold parse
  rw [hclean]
  simp only [hscheme, if_true, hslashes, hrest, htake, hdrop]

section Relayed

variable {parseHost : Text → Option Text} (set : Char → Bool) (addr : SocketAddrV4)

theorem bracket_notMem_display (ip : Ipv4Addr) : '[' ∉ ip.display := by
  intro h
  rcases Ipv4Addr.mem_display h with h | h <;> exact absurd h (by decide)

/-- Neither userinfo nor a bracket: the host is the address, and the port is
what stands behind its colon. -/
theorem parseAuthority_address (port path : Text) (hat : '@' ∉ port)
    (hhost : parseHost addr.ip.display = some addr.ip.display) :
    parseAuthority parseHost (addr.ip.display ++ ':' :: port) path =
      (parsePort port).map fun port => {
        credentials := none
        host := addr.ip.display
        port
        path } := by
  have hnoat : Text.rsplitOnce '@' (addr.ip.display ++ ':' :: port) = none := by
    refine Text.rsplitOnce_eq_none ?_
    intro h
    rcases List.mem_append.mp h with h | h
    · rcases Ipv4Addr.mem_display h with h | h <;> exact absurd h (by decide)
    · rcases List.mem_cons.mp h with h | h
      · exact absurd h (by decide)
      · exact hat h
  have hsplit := splitPort_colon addr.ip.colon_notMem_display (bracket_notMem_display addr.ip) port
  have hne : addr.ip.display ≠ [] := by
    obtain ⟨first, rest, hdisplay, _⟩ := addr.ip.display_eq_cons
    simp [hdisplay]
  unfold parseAuthority
  simp only [hnoat, hsplit, if_neg hne, hhost, Option.getD_some]
  cases parsePort port <;> rfl

theorem socketDisplay_ne_nil : addr.display ≠ [] := by simp [SocketAddrV4.display]

/-- **An address and what follows it parse to that address.** Neither the port
nor the host can be extended, and there is no userinfo. -/
theorem parse_relayed (hhost : parseHost addr.ip.display = some addr.ip.display) {back : Text}
    (hback : ∀ c, (cleanTail back).head? = some c → endsAuthority c = true) :
    parse parseHost set ("https://".toList ++ addr.display ++ back) = some {
      credentials := none
      host := addr.ip.display
      port := if addr.port.val = 443 then none else some addr.port.val
      path := serialize (parsePath set ((cleanTail back).takeWhile fun c => !endsPath c)) } := by
  have hplain : ∀ c ∈ addr.display, 32 < c.toNat ∧ endsAuthority c = false :=
    fun c hc => plain_of_mem_socketDisplay hc
  have hat : '@' ∉ decimal addr.port := by
    intro h
    exact absurd (isDigit_of_mem_decimal h) (by decide)
  rw [parse_of_authority parseHost set (socketDisplay_ne_nil addr) hplain hback]
  show parseAuthority parseHost (addr.ip.display ++ ':' :: decimal addr.port) _ = _
  rw [parseAuthority_address addr _ _ hat hhost, parsePort_decimal]
  rfl

/-- A path that is only an asterisk spoils the port. -/
theorem parse_asterisk (hhost : parseHost addr.ip.display = some addr.ip.display) {back : Text}
    (hback : ∀ c, (cleanTail back).head? = some c → endsAuthority c = true) :
    parse parseHost set ("https://".toList ++ addr.display ++ '*' :: back) = none := by
  have hplain : ∀ c ∈ addr.display ++ ['*'], 32 < c.toNat ∧ endsAuthority c = false := by
    intro c hc
    rcases List.mem_append.mp hc with hc | hc
    · exact plain_of_mem_socketDisplay hc
    · obtain rfl : c = '*' := by simpa using hc
      decide
  have hat : '@' ∉ decimal addr.port ++ ['*'] := by
    intro h
    rcases List.mem_append.mp h with h | h
    · exact absurd (isDigit_of_mem_decimal h) (by decide)
    · exact absurd h (by decide)
  have hport : parsePort (decimal addr.port ++ ['*']) = none := by
    unfold parsePort
    rw [if_neg (by simp), if_neg (by simp)]
  rw [show "https://".toList ++ addr.display ++ '*' :: back =
    "https://".toList ++ (addr.display ++ ['*']) ++ back by simp,
    parse_of_authority parseHost set (by simp) hplain hback,
    show addr.display ++ ['*'] = addr.ip.display ++ ':' :: (decimal addr.port ++ ['*']) by
      simp [SocketAddrV4.display],
    parseAuthority_address addr _ _ hat hhost, hport]
  rfl

end Relayed

/-! ## The path -/

section Path

variable {set : Char → Bool}

/-- A segment the path state copies. -/
def IsPlainSegment (set : Char → Bool) (segment : Text) : Prop :=
  (∀ c ∈ segment, isSeparator c = false ∧ set c = false) ∧
    isSingleDot segment = false ∧ isDoubleDot segment = false

/-- A path of plain segments. -/
def IsNormalPath (set : Char → Bool) (path : Text) : Prop :=
  ∃ segments, segments ≠ [] ∧ (∀ s ∈ segments, IsPlainSegment set s) ∧ path = serialize segments

theorem isPlainSegment_nil : IsPlainSegment set [] := by
  refine ⟨by simp, ?_, ?_⟩ <;> decide

/-- The set leaves its own output alone. -/
def SparesEscapes (set : Char → Bool) : Prop :=
  set '%' = false ∧ ∀ n < 16, set (hexDigit n) = false

theorem isSeparator_hexDigit {n : Nat} (hn : n < 16) : isSeparator (hexDigit n) = false := by
  have : ∀ n : Fin 16, isSeparator (hexDigit n) = false := by decide
  exact this ⟨n, hn⟩

theorem mem_encode (hset : SparesEscapes set) {c : Char} (hc : isSeparator c = false) {d : Char}
    (hd : d ∈ encode set c) : isSeparator d = false ∧ set d = false := by
  unfold encode at hd
  split at hd
  · obtain ⟨b, _, hd⟩ := List.mem_flatMap.mp hd
    have hlt := b.toNat_lt
    simp only [List.mem_cons, List.not_mem_nil, or_false] at hd
    rcases hd with rfl | rfl | rfl
    · exact ⟨by decide, hset.1⟩
    · exact ⟨isSeparator_hexDigit (by omega), hset.2 _ (by omega)⟩
    · exact ⟨isSeparator_hexDigit (by omega), hset.2 _ (by omega)⟩
  · rename_i hneg
    obtain rfl : d = c := by simpa using hd
    exact ⟨hc, by simpa using hneg⟩

section Close

variable {path : List Text} {buffer : Text}

theorem mem_closeSegment (hbuffer : ∀ c ∈ buffer, isSeparator c = false ∧ set c = false)
    (hpath : ∀ s ∈ path, IsPlainSegment set s) :
    ∀ s ∈ closeSegment path buffer, IsPlainSegment set s := by
  intro s hs
  unfold closeSegment at hs
  split at hs
  · exact hpath s ((List.dropLast_sublist path).subset hs)
  · rename_i hdouble
    split at hs
    · exact hpath s hs
    · rename_i hsingle
      rcases List.mem_append.mp hs with hs | hs
      · exact hpath s hs
      · obtain rfl : s = buffer := by simpa using hs
        exact ⟨hbuffer, by simpa using hsingle, by simpa using hdouble⟩

theorem mem_closePath (hbuffer : ∀ c ∈ buffer, isSeparator c = false ∧ set c = false)
    (hpath : ∀ s ∈ path, IsPlainSegment set s) :
    closePath path buffer ≠ [] ∧ ∀ s ∈ closePath path buffer, IsPlainSegment set s := by
  unfold closePath
  refine ⟨by split_ifs <;> simp, ?_⟩
  intro s hs
  split at hs
  · rcases List.mem_append.mp hs with hs | hs
    · exact hpath s ((List.dropLast_sublist path).subset hs)
    · obtain rfl : s = [] := by simpa using hs
      exact isPlainSegment_nil
  · rename_i hdouble
    split at hs
    · rcases List.mem_append.mp hs with hs | hs
      · exact hpath s hs
      · obtain rfl : s = [] := by simpa using hs
        exact isPlainSegment_nil
    · rename_i hsingle
      rcases List.mem_append.mp hs with hs | hs
      · exact hpath s hs
      · obtain rfl : s = buffer := by simpa using hs
        exact ⟨hbuffer, by simpa using hsingle, by simpa using hdouble⟩

end Close

/-- The path state answers plain segments, whatever it reads. -/
theorem mem_pathState (hset : SparesEscapes set) (t : Text) {path : List Text} {buffer : Text}
    (hbuffer : ∀ c ∈ buffer, isSeparator c = false ∧ set c = false)
    (hpath : ∀ s ∈ path, IsPlainSegment set s) :
    pathState set path buffer t ≠ [] ∧
      ∀ s ∈ pathState set path buffer t, IsPlainSegment set s := by
  induction t generalizing path buffer with
  | nil => exact mem_closePath hbuffer hpath
  | cons c t ih =>
      unfold pathState
      split
      · exact ih (by simp) (mem_closeSegment hbuffer hpath)
      · rename_i hc
        refine ih ?_ hpath
        intro d hd
        rcases List.mem_append.mp hd with hd | hd
        · exact hbuffer d hd
        · exact mem_encode hset (by simpa using hc) hd

theorem isNormalPath_parsePath (hset : SparesEscapes set) (t : Text) :
    IsNormalPath set (serialize (parsePath set t)) := by
  have hstate : ∀ t, pathState set [] [] t ≠ [] ∧
      ∀ s ∈ pathState set [] [] t, IsPlainSegment set s :=
    fun t => mem_pathState hset t (by simp) (by simp)
  unfold parsePath
  split
  · exact ⟨_, (hstate []).1, (hstate []).2, rfl⟩
  · split
    · exact ⟨_, (hstate _).1, (hstate _).2, rfl⟩
    · exact ⟨_, (hstate _).1, (hstate _).2, rfl⟩

theorem pathState_ne_nil (set : Char → Bool) (t : Text) (path : List Text) (buffer : Text) :
    pathState set path buffer t ≠ [] := by
  induction t generalizing path buffer with
  | nil =>
      unfold pathState closePath
      split_ifs <;> simp
  | cons c t ih =>
      unfold pathState
      split
      · exact ih _ _
      · exact ih _ _

/-- A parsed path starts with a slash. -/
theorem head?_serialize_parsePath (set : Char → Bool) (t : Text) :
    (serialize (parsePath set t)).head? = some '/' := by
  have hne : parsePath set t ≠ [] := by
    unfold parsePath
    split
    · exact pathState_ne_nil set _ _ _
    · split
      · exact pathState_ne_nil set _ _ _
      · exact pathState_ne_nil set _ _ _
  obtain ⟨segment, rest, hcons⟩ := List.exists_cons_of_ne_nil hne
  rw [hcons]
  rfl

/-- Plain characters go to the buffer as they are. -/
theorem pathState_append (t : Text) {path : List Text} {buffer segment : Text}
    (h : ∀ c ∈ segment, isSeparator c = false ∧ set c = false) :
    pathState set path buffer (segment ++ t) = pathState set path (buffer ++ segment) t := by
  induction segment generalizing buffer with
  | nil => simp
  | cons c segment ih =>
      have hc := h c (by simp)
      rw [List.cons_append]
      conv_lhs => unfold pathState
      have hencode : encode set c = [c] := by simp [encode, hc.2]
      rw [if_neg (by simp [hc.1]), hencode, ih fun d hd => h d (by simp [hd])]
      simp

/-- Plain segments come out one by one. -/
theorem pathState_serialize (segments : List Text) {path : List Text} {buffer : Text}
    (hbuffer : IsPlainSegment set buffer) (h : ∀ s ∈ segments, IsPlainSegment set s) :
    pathState set path buffer (serialize segments) = path ++ buffer :: segments := by
  induction segments generalizing path buffer with
  | nil =>
      show closePath path buffer = _
      simp [closePath, hbuffer.2.1, hbuffer.2.2]
  | cons s segments ih =>
      have hs := h s (by simp)
      have hclose : closeSegment path buffer = path ++ [buffer] := by
        simp [closeSegment, hbuffer.2.1, hbuffer.2.2]
      have hcons : serialize (s :: segments) = '/' :: (s ++ serialize segments) := by
        simp [serialize]
      rw [hcons]
      conv_lhs => unfold pathState
      rw [if_pos (by decide), hclose, pathState_append _ hs.1, List.nil_append,
        ih hs fun s' hs' => h s' (by simp [hs'])]
      simp

theorem parsePath_of_isNormalPath {path : Text} (h : IsNormalPath set path) :
    serialize (parsePath set path) = path := by
  obtain ⟨segments, hne, hplain, rfl⟩ := h
  obtain ⟨s, segments, rfl⟩ := List.exists_cons_of_ne_nil hne
  have hs := hplain s (by simp)
  have hcons : serialize (s :: segments) = '/' :: (s ++ serialize segments) := by
    simp [serialize]
  have hparse : parsePath set (serialize (s :: segments)) = s :: segments := by
    rw [hcons]
    show (if isSeparator '/' = true then pathState set [] [] (s ++ serialize segments)
      else pathState set [] [] ('/' :: (s ++ serialize segments))) = s :: segments
    rw [if_pos (by decide), pathState_append _ hs.1, List.nil_append,
      pathState_serialize segments hs fun s' hs' => hplain s' (by simp [hs'])]
    rfl
  rw [hparse]

/-- **A path is left alone exactly when it is normal.** -/
theorem parsePath_eq_self_iff (hset : SparesEscapes set) (path : Text) :
    serialize (parsePath set path) = path ↔ IsNormalPath set path := by
  constructor
  · intro h
    rw [← h]
    exact isNormalPath_parsePath hset path
  · exact parsePath_of_isNormalPath

end Path

end Lib.Whatwg
