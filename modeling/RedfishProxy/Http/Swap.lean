import RedfishProxy.Lib.Net

/-!
# The authority swap, offset by offset

`scheme_start`, `swap_authorities`, `is_target` and `rewrite_text` as the code
computes them: byte offsets into UTF-8 text, a cursor, and slices that panic
(`none`) when they are taken off a character boundary. One turn of the `while`
loop is `swapTurn`; `swapAuthorities` iterates it. The fuel is the length of
the text plus one, and `Http.Scan` proves that it is never the reason the loop
stops.
-/

namespace RedfishProxy.Http

open Lib

/-- `authority.rsplit_once(':')` with the port test of `is_target`. -/
def isTarget (authority : Text) (target : SocketAddrV4) : Bool :=
  let host :=
    match authority.rsplitOnce ':' with
    | some (host, port) =>
      if !port.isEmpty && port.all Char.isDigit then host else authority
    | none => authority
  host.eqIgnoreAsciiCase target.ip.display

/-- The characters `scheme_start` walks back over. -/
def isSchemeChar (ch : Char) : Bool :=
  ch.isAlphanum || ch == '+' || ch == '-' || ch == '.'

/-- The delimiters of an authority, `"/?#\"'<>, \t"`. -/
def isDelimiter (c : Char) : Bool :=
  c ∈ ['/', '?', '#', '"', '\'', '<', '>', ',', ' ', '\t']

/-- `text.char_indices()`, each character with its byte offset. -/
def charIndices : Nat → Text → List (Nat × Char)
  | _, [] => []
  | offset, c :: t => (offset, c) :: charIndices (offset + c.utf8Size) t

/-- The `for` loop of `scheme_start`, over the reversed indices. -/
def schemeLoop : List (Nat × Char) → Nat → Nat
  | [], start => start
  | (index, ch) :: rest, start => if isSchemeChar ch then schemeLoop rest index else start

/-- Where the URL of the `://` at `sep` starts, `sep` itself when nothing
scheme-shaped precedes it. -/
def schemeStart (text : Text) (sep : Nat) : Option Nat := do
  let before ← text.sliceTo? sep
  let start := schemeLoop (charIndices 0 before).reverse sep
  match (← text.slice? start sep).head? with
  | some first => if first.isAlpha then return start else return sep
  | none => return sep

/-- How one turn of the `while` loop ends. -/
inductive Turn where
  | finished (out : Text)
  | next (cursor : Nat) (out : Text)
  deriving DecidableEq

/-- One turn, from the search for `://` to the new cursor. `base` has lost its
trailing slashes already. -/
def swapTurn (base text : Text) (wanted : Text → Bool) (cursor : Nat) (out : Text) :
    Option Turn := do
  let tail ← text.sliceFrom? cursor
  match tail.find "://".toList with
  | none => return .finished (out ++ tail)
  | some found =>
    let sep := cursor + found
    let start ← schemeStart text sep
    -- Not a scheme, so the `://` stays where it is.
    if start = sep then
      return .next (sep + 3) (out ++ (← text.slice? cursor (sep + 3)))
    else
      let authorityStart := sep + 3
      let rest ← text.sliceFrom? authorityStart
      let authorityEnd :=
        authorityStart + (rest.findChar isDelimiter).getD (text.byteLen - authorityStart)
      let before ← text.slice? cursor start
      if wanted (← text.slice? authorityStart authorityEnd) then
        return .next authorityEnd (out ++ before ++ base)
      else
        return .next authorityEnd (out ++ before ++ (← text.slice? start authorityEnd))

/-- The `while` loop. -/
def swapLoop (base text : Text) (wanted : Text → Bool) : Nat → Nat → Text → Option Text
  | 0, _, _ => none
  | fuel + 1, cursor, out =>
    match swapTurn base text wanted cursor out with
    | none => none
    | some (.finished out) => some out
    | some (.next cursor out) => swapLoop base text wanted fuel cursor out

/-- `base` is `Url::as_str` of the external base. -/
def swapAuthorities (base text : Text) (wanted : Text → Bool) : Option Text :=
  swapLoop (base.trimEndMatches '/') text wanted (text.byteLen + 1) 0 []

/-- `text.contains("://")`. -/
def containsSep (text : Text) : Bool := (text.find "://".toList).isSome

def rewriteText (target : SocketAddrV4) (base text : Text) : Option Text :=
  if containsSep text then
    swapAuthorities base text fun authority => isTarget authority target
  else some text

end RedfishProxy.Http
