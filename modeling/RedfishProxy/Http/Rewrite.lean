import RedfishProxy.Http.Fault
import RedfishProxy.Http.Scan
import RedfishProxy.Http.Headers

/-!
# Rewriting a response

The swap in every string of a JSON value and in the headers that carry URLs, and
the body of a response, which is rewritten only when it is declared JSON.
-/

namespace RedfishProxy.Http

open Lib

/-- The swap, which never panics. -/
def swapped (base text : Text) (wanted : Text → Bool) : Text :=
  (swapAuthorities base text wanted).get (by rw [swapAuthorities_eq]; rfl)

def rewrittenText (target : SocketAddrV4) (base text : Text) : Text :=
  (rewriteText target base text).get (by rw [rewriteText_eq]; rfl)

theorem swapAuthorities_eq_swapped (base text : Text) (wanted : Text → Bool) :
    swapAuthorities base text wanted = some (swapped base text wanted) := by simp [swapped]

theorem swapped_eq (base text : Text) (wanted : Text → Bool) :
    swapped base text wanted = swap (base.trimEndMatches '/') wanted text := by
  simp [swapped, swapAuthorities_eq]

theorem rewrittenText_eq (target : SocketAddrV4) (base text : Text) :
    rewrittenText target base text = swap (base.trimEndMatches '/') (isTarget · target) text := by
  simp [rewrittenText, rewriteText_eq]

/-- Without a `://` there is nothing to swap. -/
theorem contains_rewrittenText (target : SocketAddrV4) (base text : Text) :
    (if containsSep text then rewrittenText target base text else text) =
      swapped base text (isTarget · target) := by
  rw [swapped_eq, ← rewrittenText_eq]
  split
  · rfl
  · rename_i hno
    simp [rewrittenText, rewriteText, hno]

section Values

variable {ν : Type} (target : SocketAddrV4) (base : Text)

mutual

def rewriteValue : Json ν → Json ν
  | .string s => .string (if containsSep s then rewrittenText target base s else s)
  | .array items => .array (rewriteItems items)
  | .object fields => .object (rewriteFields fields)
  | value => value

def rewriteItems : List (Json ν) → List (Json ν)
  | [] => []
  | item :: items => rewriteValue item :: rewriteItems items

def rewriteFields : List (Text × Json ν) → List (Text × Json ν)
  | [] => []
  | (key, item) :: fields => (key, rewriteValue item) :: rewriteFields fields

end

/-- The `contains("://")` tests make no difference to a string. -/
theorem rewriteValue_string (text : Text) : rewriteValue target base (.string text : Json ν) =
    .string (swapped base text (isTarget · target)) := by
  rw [rewriteValue, contains_rewrittenText]

theorem rewriteItems_eq (items : List (Json ν)) :
    rewriteItems target base items = items.map (rewriteValue target base) := by
  induction items with
  | nil => rfl
  | cons item items ih => rw [rewriteItems, ih, List.map_cons]

theorem rewriteFields_eq (fields : Json.Fields ν) :
    rewriteFields target base fields =
      fields.map fun field => (field.1, rewriteValue target base field.2) := by
  induction fields with
  | nil => rfl
  | cons field fields ih => rw [rewriteFields, ih, List.map_cons]

end Values

/-! ## Headers -/

def bmcRelativeHeaders : List Text := ["location".toList, "content-location".toList]

def foreignUrlHeaders : List Text := ["link".toList]

def isBmcRelative (name : Text) : Bool := bmcRelativeHeaders.any name.eqIgnoreAsciiCase

def isUrlHeader (name : Text) : Bool :=
  isBmcRelative name || foreignUrlHeaders.any name.eqIgnoreAsciiCase

/-- One value of a URL header. What cannot be read or written back is kept. -/
def rewriteHeaderValue (target : SocketAddrV4) (base : Text) (name : HeaderName)
    (value : HeaderValue) : HeaderValue :=
  match value.toStr with
  | none => value
  | some text =>
    let swapped :=
      if isBmcRelative name.name then swapped base text fun _ => true
      else swapped base text fun authority => isTarget authority target
    (HeaderValue.fromStr swapped).getD value

/-- One turn of the loop over the URL headers. -/
def rewriteHeader (target : SocketAddrV4) (base : Text) (headers : HeaderMap)
    (name : HeaderName) : HeaderMap :=
  let rewritten := (headers.getAll name).map (rewriteHeaderValue target base name)
  if rewritten.isEmpty then headers
  else rewritten.foldl (fun out value => out.append name value) (headers.remove name)

def rewriteHeaders (target : SocketAddrV4) (base : Text) (headers : HeaderMap) : HeaderMap :=
  let names := (headers.entries.map Prod.fst).dedup.filter fun name => isUrlHeader name.name
  names.foldl (rewriteHeader target base) headers

/-! ## Bodies -/

section Bodies

variable {ν : Type} (fromSlice : List UInt8 → Except Complaint (Json ν))
  (toVec : Json ν → Except Complaint (List UInt8)) (target : SocketAddrV4) (base : Text)

/-- The rewritten body, or nothing when it is to stay as it is. -/
def rewriteJson (contentType : Option Text) (body : List UInt8) :
    Except Fault (Option (List UInt8)) :=
  if !jsonContentType contentType then .ok none
  else if body.isEmpty then .ok none
  else
    match fromSlice body with
    -- Refused rather than skipped, or the body would leak.
    | .error error =>
      .error [.lit "a body declared JSON could not be parsed: ".toList, .complaint error]
    | .ok value =>
      match toVec (rewriteValue target base value) with
      | .error error =>
        .error [.lit "re-encoding a rewritten body failed: ".toList, .complaint error]
      | .ok bytes => .ok (some bytes)

def rewriteResponse (headers : HeaderMap) (body : List UInt8) :
    Except Fault (HeaderMap × Option (List UInt8)) := do
  let headers := rewriteHeaders target base headers
  return (headers, ← rewriteJson fromSlice toVec target base (contentType headers) body)

end Bodies

end RedfishProxy.Http
