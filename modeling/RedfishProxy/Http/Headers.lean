import RedfishProxy.Lib.Message

/-!
# Header policy

Which headers are hop-by-hop, which are credentials, what is copied end to end,
and what a declared content type says. The names are lists, as in the code, and
are compared without regard to case.
-/

namespace RedfishProxy.Http

open Lib

/-- Hop-by-hop headers, stripped in both directions. -/
def hopByHop : List Text :=
  ["connection".toList, "keep-alive".toList, "proxy-authenticate".toList,
    "proxy-authorization".toList, "te".toList, "trailer".toList, "transfer-encoding".toList,
    "upgrade".toList]

def isHopByHop (name : Text) : Bool := hopByHop.any name.eqIgnoreAsciiCase

/-- Headers whose values are never logged, in any form. -/
def redacted : List Text :=
  ["authorization".toList, "proxy-authorization".toList, "x-auth-token".toList,
    "cookie".toList, "set-cookie".toList]

def isRedacted (headerName : Text) : Bool := redacted.any headerName.eqIgnoreAsciiCase

/-! The names the code takes from `http::header`. -/

def HOST : HeaderName := ⟨"host".toList, by decide⟩

def ACCEPT_ENCODING : HeaderName := ⟨"accept-encoding".toList, by decide⟩

def CONTENT_TYPE : HeaderName := ⟨"content-type".toList, by decide⟩

/-- The test inside the loop of `copy_end_to_end`. -/
def isEndToEnd (name : HeaderName) : Bool :=
  !(isHopByHop name.name || name == HOST) && !(name == ACCEPT_ENCODING)

/-- Copies end-to-end headers, dropping hop-by-hop ones. -/
def copyEndToEnd (source dest : HeaderMap) : HeaderMap :=
  HeaderMap.appendWhere isEndToEnd source dest

/-- The declared content type. -/
def contentType (headers : HeaderMap) : Option Text :=
  (headers.get CONTENT_TYPE).bind HeaderValue.toStr

/-- `char::is_whitespace` on the characters a header value can hold. -/
def isHeaderSpace (c : Char) : Bool := c == ' ' || c == '\t'

/-- Whether a declared type is JSON, its parameters taken off first. -/
def jsonContentType (value : Option Text) : Bool :=
  match value with
  | none => false
  | some value =>
    let essence := ((value.takeWhile (· != ';')).dropWhile isHeaderSpace).rdropWhile isHeaderSpace
    let essence := essence.map Char.toLower
    essence == "application/json".toList || "+json".toList.isSuffixOf essence

def isJson (headers : HeaderMap) : Bool := jsonContentType (contentType headers)

/-! ## Names and lists -/

/-- A header name is on a list of lower-case names when its text is. -/
theorem any_eqIgnoreAsciiCase {list : List Text} (hlower : ∀ t ∈ list, t.map Char.toLower = t)
    (n : HeaderName) : list.any n.name.eqIgnoreAsciiCase = true ↔ n.name ∈ list := by
  rw [List.any_eq_true]
  constructor
  · intro h
    obtain ⟨t, ht, heq⟩ := h
    unfold Text.eqIgnoreAsciiCase at heq
    rw [beq_iff_eq, n.map_toLower_name, hlower t ht] at heq
    rwa [heq]
  · intro h
    refine ⟨n.name, h, ?_⟩
    unfold Text.eqIgnoreAsciiCase
    simp

theorem isRedacted_iff (n : HeaderName) : isRedacted n.name = true ↔ n.name ∈ redacted :=
  any_eqIgnoreAsciiCase (by decide) n

theorem isHopByHop_iff (n : HeaderName) : isHopByHop n.name = true ↔ n.name ∈ hopByHop :=
  any_eqIgnoreAsciiCase (by decide) n

/-- A name is on a list in whatever case it is read. -/
theorem any_of_fromBytes {name : Text} {n : HeaderName} (h : HeaderName.fromBytes name = some n)
    (list : List Text) : list.any n.name.eqIgnoreAsciiCase = list.any name.eqIgnoreAsciiCase := by
  congr 1
  funext t
  exact HeaderName.eqIgnoreAsciiCase_of_fromBytes h t

theorem isRedacted_of_fromBytes {name : Text} {n : HeaderName}
    (h : HeaderName.fromBytes name = some n) : isRedacted n.name = isRedacted name :=
  any_of_fromBytes h _

theorem isHopByHop_of_fromBytes {name : Text} {n : HeaderName}
    (h : HeaderName.fromBytes name = some n) : isHopByHop n.name = isHopByHop name :=
  any_of_fromBytes h _

@[simp] theorem getAll_copyEndToEnd (source dest : HeaderMap) (n : HeaderName) :
    (copyEndToEnd source dest).getAll n =
      dest.getAll n ++ if isEndToEnd n then source.getAll n else [] :=
  HeaderMap.getAll_appendWhere isEndToEnd source dest n

end RedfishProxy.Http
