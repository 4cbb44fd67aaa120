import RedfishProxy.Shipped.Serve

/-!
# A host over the reader and the writer of JSON text

Serde as it parses and writes documents whose numbers are naturals, around any
client. The laws of a `Rune` are the round trip of the two.
-/

namespace RedfishProxy.Shipped

open Lib Http Script RuneHost

/-- Naturals in decimal. -/
def decimals : Json.Numerals Nat where
  write := decimal
  read text := if text.all Char.isDigit then some (Nat.ofDigitChars 10 text 0) else none
  write_ne_nil := decimal_ne_nil
  isNumeralChar_write := by
    intro n c hc
    simp [Json.isNumeralChar, isDigit_of_mem_decimal hc]
  read_write := by
    intro n
    have hall : (decimal n).all Char.isDigit = true :=
      List.all_eq_true.mpr fun c hc => isDigit_of_mem_decimal hc
    rw [if_pos hall]
    exact congrArg some Nat.ofDigitChars_ten_toDigits

/-- How deep serde_json goes before it gives up. -/
def serdeLimit : Nat := 127

def syntaxError : Complaint :=
  ⟨"expected value at line 1 column 1".toList, noSep_of_splitOnce (by decide)⟩

def notText : Complaint :=
  ⟨"invalid utf-8 sequence".toList, noSep_of_splitOnce (by decide)⟩

def parseBody (bytes : List UInt8) : Except Complaint (Json Nat) :=
  match (Json.utf8Decode bytes).bind (Json.read decimals serdeLimit) with
  | some value => .ok value
  | none => .error syntaxError

def writeBody (value : Json Nat) : List UInt8 := Json.utf8Encode (Json.write decimals value)

theorem parseBody_writeBody {value : Json Nat} (h : Json.Fits serdeLimit value) :
    parseBody (writeBody value) = .ok value := by
  unfold parseBody writeBody
  rw [Json.utf8Decode_utf8Encode, Option.bind_some, Json.read_write h]

theorem fits_of_parseBody {bytes : List UInt8} {value : Json Nat}
    (h : parseBody bytes = .ok value) : Json.Fits serdeLimit value := by
  unfold parseBody at h
  split at h
  · rename_i v hread
    injection h with h
    subst h
    obtain ⟨text, _, hread⟩ := Option.bind_eq_some_iff.mp hread
    exact Json.fits_of_read hread
  · cases h

/-- A template takes what has a display, which a list or a map has not. -/
def shownScalar : Json Nat → Option Text
  | .string text => some text
  | .number n => some (decimal n)
  | .bool b => some (if b then "true".toList else "false".toList)
  | _ => none

/-! The laws of a host, one by one. -/

theorem address_is_host (ip : Ipv4Addr) : some ip.display = some ip.display := rfl

theorem eight_le_serdeLimit : 8 ≤ serdeLimit := by
  show 8 ≤ 127
  omega

theorem shownScalar_string (text : Text) : shownScalar (.string text) = some text := rfl

theorem fromValue_json (value : Json Nat) :
    (Except.ok value : Except Complaint _) = .ok (value.mapNumbers fun n => n) := by
  rw [Json.mapNumbers_id]

theorem parseBody_map (bytes : List UInt8) :
    parseBody bytes = (parseBody bytes).map (Json.mapNumbers fun n => n) := by
  cases parseBody bytes with
  | error error => rfl
  | ok value => exact fromValue_json value

theorem parseBody_nil : ∃ error, parseBody [] = .error error := ⟨syntaxError, rfl⟩

theorem fits_parseBody (bytes : List UInt8) (value : Json Nat) (h : parseBody bytes = .ok value) :
    Json.Fits serdeLimit value := fits_of_parseBody h

theorem writeBody_ok (value : Json Nat) (h : Json.Fits serdeLimit value) :
    ∃ bytes, (Except.ok (writeBody value) : Except Complaint _) = .ok bytes ∧
      parseBody bytes = .ok (value.mapNumbers fun n => n) := by
  refine ⟨_, rfl, ?_⟩
  rw [Json.mapNumbers_id]
  exact parseBody_writeBody h

section Host

variable {σ : Type} (client : Outbound → σ → Except TransportError Reply × σ)

/-- The host around a client. -/
def serdeHost : Rune Nat σ where
  fromSlice := parseBody
  toVec value := .ok (writeBody value)
  fromValue value := .ok value
  scriptFromSlice := parseBody
  scriptToVec value := .ok (writeBody value)
  ofNat n := n
  fromUtf8 bytes := ((Json.utf8Decode bytes).map Except.ok).getD (.error notText)
  decodeBase64 _ := .error notText
  -- a path alone is no URL
  urlPath _ := none
  parseHost := some
  pathSet _ := false
  unprintable _ := false
  client := client
  parseHost_display := address_is_host
  limit := serdeLimit
  reread n := n
  -- no number of what follows reaches 2⁶³
  asRune n := n
  order fields := fields
  unitLoops := true
  shown := shownScalar
  toUppercase text := text.map Char.toUpper
  -- a stand-in: no digest is taken in what follows
  sha256 text := text
  vmError := "bad operation".toList
  limit_ge := eight_le_serdeLimit
  order_perm := List.Perm.refl
  shown_string := shownScalar_string
  fromValue_eq := fromValue_json
  scriptFromSlice_eq := parseBody_map
  fromSlice_nil := parseBody_nil
  fits_of_fromSlice := fits_parseBody
  toVec_ok := writeBody_ok
  scriptToVec_ok := writeBody_ok

@[simp] theorem fromSlice_serdeHost : (serdeHost client).fromSlice = parseBody := rfl

@[simp] theorem scriptFromSlice_serdeHost : (serdeHost client).scriptFromSlice = parseBody := rfl

@[simp] theorem scriptValue_serdeHost (value : Json Nat) :
    (serdeHost client).scriptValue value = value := Json.mapNumbers_id value

/-- A body that was written is read back by a script. -/
theorem bodyJson_writeBody {value : Json Nat} (h : Json.Fits serdeLimit value) (what : Text) :
    bodyJson (serdeHost client).toHost (writeBody value) what = .ok value := by
  unfold bodyJson
  rw [scriptFromSlice_serdeHost, parseBody_writeBody h]
  rfl

end Host

/-- A host nobody needs to reach. -/
def quietHost : Rune Nat Unit := serdeHost fun _ net => (.error unreachable, net)

end RedfishProxy.Shipped
