import RedfishProxy.Lib.JsonFits

/-!
# JSON text

A compact writer and a reader of JSON values, over any way to write a number,
and between bytes and text by UTF-8. The reader has a recursion limit, skips
white space, takes every escape and keeps the last of the values of a key.

Main results:
* `read_write`: what is written is read back, as far as the limit allows.
* `fits_of_read`: what is read has sorted maps and keeps to the limit.
-/

namespace Lib.Json

/-- The characters of a number. -/
def isNumeralChar (c : Char) : Bool := c.isDigit || c ∈ ['-', '+', '.', 'e', 'E']

/-- How numbers are written, and read back. -/
structure Numerals (ν : Type) where
  write : ν → Text
  read : Text → Option ν
  write_ne_nil : ∀ n, write n ≠ []
  isNumeralChar_write : ∀ n, ∀ c ∈ write n, isNumeralChar c = true
  read_write : ∀ n, read (write n) = some n

/-! ## Writing -/

section Write

variable {ν : Type} (numerals : Numerals ν)

mutual

def write : Json ν → Text
  | .null => "null".toList
  | .bool b => if b then "true".toList else "false".toList
  | .number n => numerals.write n
  | .string text => quote text
  | .array [] => "[]".toList
  | .array (item :: items) => '[' :: (write item ++ writeItems items)
  | .object [] => ['\x7b', '\x7d']
  | .object ((key, value) :: fields) =>
    '\x7b' :: (quote key ++ ':' :: (write value ++ writeFields fields))

/-- The rest of an array, with its bracket. -/
def writeItems : List (Json ν) → Text
  | [] => [']']
  | item :: items => ',' :: (write item ++ writeItems items)

/-- The rest of an object, with its brace. -/
def writeFields : List (Text × Json ν) → Text
  | [] => ['\x7d']
  | (key, value) :: fields =>
    ',' :: (quote key ++ ':' :: (write value ++ writeFields fields))

end

end Write

/-! ## Reading -/

def isSpace (c : Char) : Bool := c ∈ [' ', '\n', '\t', '\r']

def skipSpace (text : Text) : Text := text.dropWhile isSpace

def hexValue (c : Char) : Option Nat :=
  if c.isDigit then some (c.toNat - 48)
  else if 97 ≤ c.toNat ∧ c.toNat ≤ 102 then some (c.toNat - 87)
  else if 65 ≤ c.toNat ∧ c.toNat ≤ 70 then some (c.toNat - 55)
  else none

/-- Four hexadecimal digits. -/
def readHex : Text → Option (Nat × Text)
  | a :: b :: c :: d :: text => do
    let a ← hexValue a
    let b ← hexValue b
    let c ← hexValue c
    let d ← hexValue d
    return (((a * 16 + b) * 16 + c) * 16 + d, text)
  | _ => none

/-- What follows `\u`: a code unit, or a surrogate and its other half. -/
def readUnicode (text : Text) : Option (Char × Text) := do
  let (unit, text) ← readHex text
  if 0xD800 ≤ unit ∧ unit < 0xDC00 then
    match text with
    | '\\' :: 'u' :: text => do
      let (low, text) ← readHex text
      if 0xDC00 ≤ low ∧ low < 0xE000 then
        return (Char.ofNat (0x10000 + (unit - 0xD800) * 0x400 + (low - 0xDC00)), text)
      else none
    | _ => none
  else if 0xDC00 ≤ unit ∧ unit < 0xE000 then none
  else return (Char.ofNat unit, text)

/-- What follows a backslash. -/
def readEscape : Text → Option (Char × Text)
  | [] => none
  | c :: text =>
    if c = '"' then some ('"', text)
    else if c = '\\' then some ('\\', text)
    else if c = '/' then some ('/', text)
    else if c = 'b' then some (Char.ofNat 8, text)
    else if c = 'f' then some (Char.ofNat 12, text)
    else if c = 'n' then some ('\n', text)
    else if c = 'r' then some ('\r', text)
    else if c = 't' then some ('\t', text)
    else if c = 'u' then readUnicode text
    else none

/-- A string up to its closing quote. The fuel is what is left to read. -/
def readString : Nat → Text → Option (Text × Text)
  | 0, _ => none
  | _ + 1, [] => none
  | fuel + 1, c :: text =>
    if c = '"' then some ([], text)
    else if c = '\\' then do
      let (c, text) ← readEscape text
      let (more, text) ← readString fuel text
      return (c :: more, text)
    else if c.toNat < 32 then none
    else do
      let (more, text) ← readString fuel text
      return (c :: more, text)

section Read

variable {ν : Type} (numerals : Numerals ν)

/-- Items up to the closing bracket, each read by `value`. -/
def readItems (value : Text → Option (Json ν × Text)) : Nat → Text →
    Option (List (Json ν) × Text)
  | 0, _ => none
  | fuel + 1, text => do
    let (item, text) ← value text
    match skipSpace text with
    | [] => none
    | c :: text =>
      if c = ',' then do
        let (items, text) ← readItems value fuel text
        return (item :: items, text)
      else if c = ']' then return ([item], text)
      else none

/-- One `"key": value`. -/
def readField (value : Text → Option (Json ν × Text)) (text : Text) :
    Option ((Text × Json ν) × Text) := do
  match skipSpace text with
  | [] => none
  | c :: text =>
    if c = '"' then do
      let (key, text) ← readString text.length text
      match skipSpace text with
      | [] => none
      | c :: text =>
        if c = ':' then do
          let (item, text) ← value text
          return ((key, item), text)
        else none
    else none

/-- Fields up to the closing brace. -/
def readFields (value : Text → Option (Json ν × Text)) : Nat → Text →
    Option (List (Text × Json ν) × Text)
  | 0, _ => none
  | fuel + 1, text => do
    let (field, text) ← readField value text
    match skipSpace text with
    | [] => none
    | c :: text =>
      if c = ',' then do
        let (fields, text) ← readFields value fuel text
        return (field :: fields, text)
      else if c = '\x7d' then return ([field], text)
      else none

def readArray (value : Text → Option (Json ν × Text)) (text : Text) :
    Option (Json ν × Text) :=
  match skipSpace text with
  | [] => none
  | c :: rest =>
    if c = ']' then some (.array [], rest)
    else (readItems value text.length text).map fun p => (.array p.1, p.2)

def readObject (value : Text → Option (Json ν × Text)) (text : Text) :
    Option (Json ν × Text) :=
  match skipSpace text with
  | [] => none
  | c :: rest =>
    if c = '\x7d' then some (.object [], rest)
    else (readFields value text.length text).map fun p => (ofFields p.1, p.2)

/-- A word that stands for a value. -/
def readWord (word : Text) (value : Json ν) (text : Text) : Option (Json ν × Text) :=
  if word.isPrefixOf text then some (value, text.drop word.length) else none

def readNumber (text : Text) : Option (Json ν × Text) :=
  (numerals.read (text.takeWhile isNumeralChar)).map fun n =>
    (.number n, text.dropWhile isNumeralChar)

/-- A value. `inner` reads what an array or an object holds, if the limit allows
one at all. -/
def readWith (inner : Option (Text → Option (Json ν × Text))) (text : Text) :
    Option (Json ν × Text) :=
  match skipSpace text with
  | [] => none
  | c :: rest =>
    if c = '"' then (readString rest.length rest).map fun p => (.string p.1, p.2)
    else if c = '[' then inner.bind fun value => readArray value rest
    else if c = '\x7b' then inner.bind fun value => readObject value rest
    else if c = 'n' then readWord "ull".toList .null rest
    else if c = 't' then readWord "rue".toList (.bool true) rest
    else if c = 'f' then readWord "alse".toList (.bool false) rest
    else readNumber numerals (c :: rest)

/-- A value that nests no deeper than so much. -/
def readValue : Nat → Text → Option (Json ν × Text)
  | 0 => readWith numerals none
  | depth + 1 => readWith numerals (some (readValue depth))

/-- A whole text. -/
def read (limit : Nat) (text : Text) : Option (Json ν) :=
  match readValue numerals limit text with
  | some (value, rest) => if skipSpace rest = [] then some value else none
  | none => none

end Read

/-! ## Reading what was written -/

theorem skipSpace_cons {c : Char} (h : isSpace c = false) (text : Text) :
    skipSpace (c :: text) = c :: text := by
  unfold skipSpace
  rw [List.dropWhile_cons_of_neg (by simp [h])]

theorem hexValue_hexDigit {n : Nat} (h : n < 16) : hexValue (hexDigit n) = some n := by
  have hall : ∀ n : Fin 16, hexValue (hexDigit n) = some n.val := by decide
  exact hall ⟨n, h⟩

theorem char_ofNat_of_toNat_eq {c : Char} {n : Nat} (h : c.toNat = n) : Char.ofNat n = c := by
  rw [← h]
  exact Char.ofNat_toNat c

theorem readString_escape (c : Char) (fuel : Nat) (text : Text) :
    readString (fuel + 1) (escape c ++ text) =
      (readString fuel text).map fun p => (c :: p.1, p.2) := by
  unfold escape
  split_ifs with h1 h2 h3 h4 h5 h6 h7 h8
  · subst h1
    cases h : readString fuel text <;> simp [readString, readEscape, h]
  · subst h2
    cases h : readString fuel text <;> simp [readString, readEscape, h]
  · obtain rfl := char_ofNat_of_toNat_eq h3
    cases h : readString fuel text <;> simp [readString, readEscape, h]
  · subst h4
    cases h : readString fuel text <;> simp [readString, readEscape, h]
  · subst h5
    cases h : readString fuel text <;> simp [readString, readEscape, h]
  · obtain rfl := char_ofNat_of_toNat_eq h6
    cases h : readString fuel text <;> simp [readString, readEscape, h]
  · subst h7
    cases h : readString fuel text <;> simp [readString, readEscape, h]
  · -- a control character is two digits of a code unit
    have hzero : hexValue '0' = some 0 := by decide
    have hhigh := hexValue_hexDigit (n := c.toNat / 16) (by omega)
    have hlow := hexValue_hexDigit (n := c.toNat % 16) (by omega)
    have hunit : c.toNat / 16 * 16 + c.toNat % 16 = c.toNat := by omega
    have hc := char_ofNat_of_toNat_eq (c := c) rfl
    have hunicode : readUnicode ('0' :: '0' :: hexDigit (c.toNat / 16) ::
        hexDigit (c.toNat % 16) :: text) = some (c, text) := by
      simp only [readUnicode, readHex, hzero, hhigh, hlow, bind, Option.bind, pure, Nat.zero_mul,
        Nat.zero_add, hunit]
      rw [if_neg (by omega), if_neg (by omega), hc]
    cases h : readString fuel text <;> simp [readString, readEscape, hunicode, h]
  · have hc : ¬ c.toNat < 32 := h8
    cases h : readString fuel text <;> simp [readString, h1, h2, hc, h]

/-- A written string is read back, with fuel for each character and the quote. -/
theorem readString_escaped (string rest : Text) {fuel : Nat} (h : string.length < fuel) :
    readString fuel (escaped string ++ '"' :: rest) = some (string, rest) := by
  induction string generalizing fuel with
  | nil =>
      obtain ⟨fuel, rfl⟩ : ∃ k, fuel = k + 1 := ⟨fuel - 1, by omega⟩
      rfl
  | cons c string ih =>
      obtain ⟨fuel, rfl⟩ : ∃ k, fuel = k + 1 := ⟨fuel - 1, by omega⟩
      rw [List.length_cons] at h
      rw [escaped_cons, List.append_assoc, readString_escape, ih (by omega)]
      rfl

theorem length_le_escaped (string : Text) : string.length ≤ (escaped string).length := by
  induction string with
  | nil => simp
  | cons c string ih =>
      have hpos : 0 < (escape c).length := by
        rcases escape_cases c with ⟨h, _⟩ | ⟨rest, h, _⟩ <;> simp [h]
      simp only [escaped_cons, List.length_append, List.length_cons]
      omega

/-- What follows a number does not go on with it. -/
def Stops (rest : Text) : Prop := ∀ c ∈ rest.head?, isNumeralChar c = false

theorem stops_nil : Stops [] := by
  intro c hc
  cases hc

theorem stops_cons {c : Char} (h : isNumeralChar c = false) (rest : Text) : Stops (c :: rest) := by
  intro d hd
  obtain rfl : c = d := by simpa using hd
  exact h

section RoundTrip

variable {ν : Type} {numerals : Numerals ν}

theorem isSpace_of_isNumeralChar {c : Char} (h : isNumeralChar c = true) :
    isSpace c = false ∧ c ≠ '"' ∧ c ≠ '[' ∧ c ≠ '\x7b' ∧ c ≠ 'n' ∧ c ≠ 't' ∧ c ≠ 'f' ∧ c ≠ ']' := by
  have hlt : c.toNat < 128 := by
    simp only [isNumeralChar, Bool.or_eq_true, List.mem_cons, List.not_mem_nil, or_false,
      decide_eq_true_eq] at h
    rcases h with h | rfl | rfl | rfl | rfl | rfl
    · have := Text.isDigit_toNat h
      omega
    all_goals decide
  refine Text.ascii_cases (P := fun c => isNumeralChar c = true → isSpace c = false ∧ c ≠ '"' ∧
    c ≠ '[' ∧ c ≠ '\x7b' ∧ c ≠ 'n' ∧ c ≠ 't' ∧ c ≠ 'f' ∧ c ≠ ']') ?_ hlt h
  decide

theorem readNumber_write (n : ν) {rest : Text} (h : Stops rest) :
    readNumber numerals (numerals.write n ++ rest) = some (.number n, rest) := by
  have hall : ∀ c ∈ numerals.write n, isNumeralChar c = true := numerals.isNumeralChar_write n
  have htake : (numerals.write n ++ rest).takeWhile isNumeralChar = numerals.write n := by
    rw [List.takeWhile_append_of_pos hall]
    cases rest with
    | nil => simp
    | cons c rest => rw [List.takeWhile_cons_of_neg (by simp [h c rfl]), List.append_nil]
  have hdrop : (numerals.write n ++ rest).dropWhile isNumeralChar = rest := by
    rw [List.dropWhile_append_of_pos hall]
    cases rest with
    | nil => rfl
    | cons c rest => rw [List.dropWhile_cons_of_neg (by simp [h c rfl])]
  unfold readNumber
  rw [htake, hdrop, numerals.read_write]
  rfl

/-- A written value starts at once, and not with a bracket that closes. -/
theorem write_head (value : Json ν) :
    ∃ c text, write numerals value = c :: text ∧ isSpace c = false ∧ c ≠ ']' := by
  cases value with
  | null => exact ⟨'n', _, rfl, by decide, by decide⟩
  | bool b =>
      cases b with
      | true => exact ⟨'t', _, rfl, by decide, by decide⟩
      | false => exact ⟨'f', _, rfl, by decide, by decide⟩
  | number n =>
      obtain ⟨c, text, heq⟩ := List.exists_cons_of_ne_nil (numerals.write_ne_nil n)
      have hc := isSpace_of_isNumeralChar (numerals.isNumeralChar_write n c (by simp [heq]))
      exact ⟨c, text, by rw [write, heq], hc.1, hc.2.2.2.2.2.2.2⟩
  | string text => exact ⟨'"', _, by rw [write]; rfl, by decide, by decide⟩
  | array items =>
      cases items with
      | nil => exact ⟨'[', [']'], by rw [write]; rfl, by decide, by decide⟩
      | cons item items => exact ⟨'[', _, by rw [write], by decide, by decide⟩
  | object fields =>
      cases fields with
      | nil => exact ⟨'\x7b', ['\x7d'], by rw [write], by decide, by decide⟩
      | cons field fields => exact ⟨'\x7b', _, by rw [write], by decide, by decide⟩

theorem length_lt_writeItems (items : List (Json ν)) :
    items.length < (writeItems numerals items).length := by
  induction items with
  | nil => simp [writeItems]
  | cons item items ih =>
      simp only [writeItems, List.length_cons, List.length_append]
      omega

theorem length_lt_writeFields (fields : Fields ν) :
    fields.length < (writeFields numerals fields).length := by
  induction fields with
  | nil => simp [writeFields]
  | cons field fields ih =>
      obtain ⟨key, value⟩ := field
      simp only [writeFields, List.length_cons, List.length_append]
      omega

theorem stops_writeItems (items : List (Json ν)) (rest : Text) :
    Stops (writeItems numerals items ++ rest) := by
  cases items with
  | nil => exact stops_cons (by decide) rest
  | cons item items => exact stops_cons (by decide) _

theorem stops_writeFields (fields : Fields ν) (rest : Text) :
    Stops (writeFields numerals fields ++ rest) := by
  cases fields with
  | nil => exact stops_cons (by decide) rest
  | cons field fields => exact stops_cons (by decide) _

/-- The reader answers the value it finds written in front of the rest. -/
def Reads (numerals : Numerals ν) (reader : Text → Option (Json ν × Text)) (value : Json ν) :
    Prop :=
  ∀ rest, Stops rest → reader (write numerals value ++ rest) = some (value, rest)

theorem readItems_write {reader : Text → Option (Json ν × Text)} {item : Json ν}
    {items : List (Json ν)} (h : ∀ i ∈ item :: items, Reads numerals reader i) (rest : Text)
    {fuel : Nat} (hfuel : items.length < fuel) :
    readItems reader fuel (write numerals item ++ (writeItems numerals items ++ rest)) =
      some (item :: items, rest) := by
  induction items generalizing item fuel with
  | nil =>
      obtain ⟨fuel, rfl⟩ : ∃ k, fuel = k + 1 := ⟨fuel - 1, by omega⟩
      rw [readItems, h item (by simp) _ (stops_writeItems [] rest)]
      rfl
  | cons next items ih =>
      obtain ⟨fuel, rfl⟩ : ∃ k, fuel = k + 1 := ⟨fuel - 1, by omega⟩
      rw [List.length_cons] at hfuel
      have hnext : readItems reader fuel (write numerals next ++
          (writeItems numerals items ++ rest)) = some (next :: items, rest) :=
        ih (fun i hi => h i (List.mem_cons_of_mem _ hi)) (by omega)
      rw [readItems, h item (by simp) _ (stops_writeItems (next :: items) rest)]
      show (readItems reader fuel
        ((write numerals next ++ writeItems numerals items) ++ rest)).bind _ = _
      rw [List.append_assoc, hnext]
      rfl

theorem readField_write {reader : Text → Option (Json ν × Text)} {value : Json ν}
    (h : Reads numerals reader value) (key : Text) {rest : Text} (hrest : Stops rest) :
    readField reader (quote key ++ ':' :: (write numerals value ++ rest)) =
      some ((key, value), rest) := by
  have hfuel : key.length <
      (escaped key ++ '"' :: (':' :: (write numerals value ++ rest))).length := by
    have := length_le_escaped key
    simp only [List.length_append, List.length_cons]
    omega
  have hkey := readString_escaped key (':' :: (write numerals value ++ rest)) hfuel
  have hquote : quote key ++ ':' :: (write numerals value ++ rest) =
      '"' :: (escaped key ++ '"' :: (':' :: (write numerals value ++ rest))) := by
    simp [quote]
  rw [hquote, readField, skipSpace_cons (by decide)]
  simp only [if_true, hkey, Option.bind_eq_bind, Option.bind_some]
  rw [skipSpace_cons (by decide)]
  simp only [if_true, h rest hrest, Option.bind_some, Option.pure_def]

theorem readFields_write {reader : Text → Option (Json ν × Text)} {key : Text} {value : Json ν}
    {fields : Fields ν} (hvalue : Reads numerals reader value)
    (h : ∀ f ∈ fields, Reads numerals reader f.2) (rest : Text) {fuel : Nat}
    (hfuel : fields.length < fuel) :
    readFields reader fuel (quote key ++ ':' ::
        (write numerals value ++ (writeFields numerals fields ++ rest))) =
      some ((key, value) :: fields, rest) := by
  induction fields generalizing key value fuel with
  | nil =>
      obtain ⟨fuel, rfl⟩ : ∃ k, fuel = k + 1 := ⟨fuel - 1, by omega⟩
      rw [readFields, readField_write hvalue key (stops_writeFields [] rest)]
      rfl
  | cons next fields ih =>
      obtain ⟨nextKey, nextValue⟩ := next
      obtain ⟨fuel, rfl⟩ : ∃ k, fuel = k + 1 := ⟨fuel - 1, by omega⟩
      rw [List.length_cons] at hfuel
      have hnext : readFields reader fuel (quote nextKey ++ ':' ::
          (write numerals nextValue ++ (writeFields numerals fields ++ rest))) =
            some ((nextKey, nextValue) :: fields, rest) :=
        ih (h (nextKey, nextValue) (by simp)) (fun f hf => h f (List.mem_cons_of_mem _ hf))
          (by omega)
      rw [readFields, readField_write hvalue key
        (stops_writeFields ((nextKey, nextValue) :: fields) rest)]
      show (readFields reader fuel ((quote nextKey ++ ':' ::
        (write numerals nextValue ++ writeFields numerals fields)) ++ rest)).bind _ = _
      rw [List.append_assoc, List.cons_append, List.append_assoc, hnext]
      rfl

theorem readValue_bracket (d : Nat) (text : Text) :
    readValue numerals (d + 1) ('[' :: text) = readArray (readValue numerals d) text := by
  rw [readValue, readWith, skipSpace_cons (by decide)]
  rfl

theorem readValue_brace (d : Nat) (text : Text) :
    readValue numerals (d + 1) ('\x7b' :: text) = readObject (readValue numerals d) text := by
  rw [readValue, readWith, skipSpace_cons (by decide)]
  rfl

/-- **A value within the limit is read back.** -/
theorem readValue_write {d : Nat} {value : Json ν} (h : Fits d value) :
    Reads numerals (readValue numerals d) value := by
  have hwith : ∀ d, ∃ inner, readValue numerals d = readWith numerals inner := by
    intro d
    cases d with
    | zero => exact ⟨none, rfl⟩
    | succ d => exact ⟨some (readValue numerals d), rfl⟩
  induction h with
  | null =>
      intro rest _
      obtain ⟨inner, hinner⟩ := hwith _
      rw [hinner]
      rfl
  | bool b =>
      intro rest _
      obtain ⟨inner, hinner⟩ := hwith _
      rw [hinner]
      cases b <;> rfl
  | number n =>
      intro rest hrest
      obtain ⟨inner, hinner⟩ := hwith _
      obtain ⟨c, text, heq⟩ := List.exists_cons_of_ne_nil (numerals.write_ne_nil n)
      obtain ⟨hspace, h1, h2, h3, h4, h5, h6, _⟩ :=
        isSpace_of_isNumeralChar (numerals.isNumeralChar_write n c (by simp [heq]))
      have hread : readNumber numerals (numerals.write n ++ _) = _ := readNumber_write n hrest
      rw [heq, List.cons_append] at hread
      rw [hinner, write, heq, List.cons_append, readWith, skipSpace_cons hspace]
      simp only [h1, h2, h3, h4, h5, h6, if_false, hread]
  | string text =>
      intro rest _
      obtain ⟨inner, hinner⟩ := hwith _
      have hfuel : text.length < (escaped text ++ '"' :: rest).length := by
        have := length_le_escaped text
        simp only [List.length_append, List.length_cons]
        omega
      rw [hinner, write, show quote text ++ rest = '"' :: (escaped text ++ '"' :: rest) by
        simp [quote], readWith, skipSpace_cons (by decide)]
      simp only [if_true, readString_escaped text rest hfuel, Option.map_some]
  | @array d items _ ih =>
      intro rest _
      cases items with
      | nil => rfl
      | cons item items =>
          have hlength : items.length < (writeItems numerals items).length :=
            length_lt_writeItems items
          have hfuel : items.length <
              (write numerals item ++ (writeItems numerals items ++ rest)).length := by
            simp only [List.length_append]
            omega
          have hitems := readItems_write ih rest hfuel
          obtain ⟨c, text, heq, hspace, hclose⟩ :
              ∃ c text, write numerals item = c :: text ∧ isSpace c = false ∧ c ≠ ']' :=
            write_head item
          rw [write, List.cons_append, List.append_assoc, readValue_bracket, readArray, hitems, heq,
            List.cons_append, skipSpace_cons hspace]
          simp [hclose]
  | @object d fields hsorted _ ih =>
      intro rest _
      cases fields with
      | nil => rfl
      | cons field fields =>
          obtain ⟨key, value⟩ := field
          have hlength : fields.length < (writeFields numerals fields).length :=
            length_lt_writeFields fields
          have hfuel : fields.length < (quote key ++ ':' :: (write numerals value ++
              (writeFields numerals fields ++ rest))).length := by
            simp only [List.length_append, List.length_cons]
            omega
          have hvalue : Reads numerals (readValue numerals d) value := ih (key, value) (by simp)
          have hfields : readFields (readValue numerals d) _ (quote key ++ ':' ::
              (write numerals value ++ (writeFields numerals fields ++ rest))) = _ :=
            readFields_write hvalue (fun f hf => ih f (List.mem_cons_of_mem _ hf)) rest hfuel
          have hhead : quote key ++ ':' :: (write numerals value ++
              (writeFields numerals fields ++ rest)) = '"' :: (escaped key ++ ['"'] ++ ':' ::
              (write numerals value ++ (writeFields numerals fields ++ rest))) := rfl
          rw [write, List.cons_append, List.append_assoc, List.cons_append, List.append_assoc,
            readValue_brace, readObject, hfields, hhead, skipSpace_cons (by decide)]
          simp [ofFields, Fields.foldl_insert_of_sorted hsorted]

theorem read_write {limit : Nat} {value : Json ν} (h : Fits limit value) :
    read numerals limit (write numerals value) = some value := by
  have hread : readValue numerals limit (write numerals value ++ []) = some (value, []) :=
    readValue_write h [] stops_nil
  rw [List.append_nil] at hread
  unfold read
  rw [hread]
  rfl

end RoundTrip

/-! ## What a reader can come to -/

section Fits

variable {ν : Type} {numerals : Numerals ν} {reader : Text → Option (Json ν × Text)} {d : Nat}

/-- Everything the reader answers keeps to the depth. -/
def Answers (reader : Text → Option (Json ν × Text)) (d : Nat) : Prop :=
  ∀ text value rest, reader text = some (value, rest) → Fits d value

theorem fits_of_readItems (h : Answers reader d) {fuel : Nat} {text rest : Text}
    {items : List (Json ν)} (hread : readItems reader fuel text = some (items, rest)) :
    ∀ item ∈ items, Fits d item := by
  induction fuel generalizing text items with
  | zero => cases hread
  | succ fuel ih =>
      rw [readItems] at hread
      obtain ⟨⟨item, text'⟩, hitem, hread⟩ := Option.bind_eq_some_iff.mp hread
      have hfits := h text item text' hitem
      dsimp only at hread
      split at hread
      · cases hread
      · split_ifs at hread
        · obtain ⟨⟨more, text''⟩, hmore, hread⟩ := Option.bind_eq_some_iff.mp hread
          obtain ⟨rfl, rfl⟩ : item :: more = items ∧ text'' = rest := by simpa using hread
          intro i hi
          rcases List.mem_cons.mp hi with rfl | hi
          · exact hfits
          · exact ih hmore i hi
        · obtain ⟨rfl, _⟩ : [item] = items ∧ _ = rest := by simpa using hread
          intro i hi
          rw [List.mem_singleton.mp hi]
          exact hfits

theorem fits_of_readField (h : Answers reader d) {text rest : Text} {field : Text × Json ν}
    (hread : readField reader text = some (field, rest)) : Fits d field.2 := by
  unfold readField at hread
  split at hread
  · cases hread
  · split_ifs at hread
    obtain ⟨⟨key, text'⟩, _, hread⟩ := Option.bind_eq_some_iff.mp hread
    dsimp only at hread
    split at hread
    · cases hread
    · split_ifs at hread
      obtain ⟨⟨item, text''⟩, hitem, hread⟩ := Option.bind_eq_some_iff.mp hread
      obtain ⟨rfl, _⟩ : (key, item) = field ∧ text'' = rest := by simpa using hread
      exact h _ item text'' hitem

theorem fits_of_readFields (h : Answers reader d) {fuel : Nat} {text rest : Text}
    {fields : Fields ν} (hread : readFields reader fuel text = some (fields, rest)) :
    ∀ field ∈ fields, Fits d field.2 := by
  induction fuel generalizing text fields with
  | zero => cases hread
  | succ fuel ih =>
      rw [readFields] at hread
      obtain ⟨⟨field, text'⟩, hfield, hread⟩ := Option.bind_eq_some_iff.mp hread
      have hfits := fits_of_readField h hfield
      dsimp only at hread
      split at hread
      · cases hread
      · split_ifs at hread
        · obtain ⟨⟨more, text''⟩, hmore, hread⟩ := Option.bind_eq_some_iff.mp hread
          obtain ⟨rfl, rfl⟩ : field :: more = fields ∧ text'' = rest := by simpa using hread
          intro f hf
          rcases List.mem_cons.mp hf with rfl | hf
          · exact hfits
          · exact ih hmore f hf
        · obtain ⟨rfl, _⟩ : [field] = fields ∧ _ = rest := by simpa using hread
          intro f hf
          rw [List.mem_singleton.mp hf]
          exact hfits

theorem fits_of_readArray (h : Answers reader d) {text rest : Text} {value : Json ν}
    (hread : readArray reader text = some (value, rest)) : Fits (d + 1) value := by
  unfold readArray at hread
  split at hread
  · cases hread
  · split_ifs at hread
    · obtain ⟨rfl, _⟩ : .array [] = value ∧ _ = rest := by simpa using hread
      exact .array fun item hitem => absurd hitem (by simp)
    · obtain ⟨⟨items, text'⟩, hitems, hread⟩ := Option.map_eq_some_iff.mp hread
      obtain ⟨rfl, _⟩ : .array items = value ∧ text' = rest := by simpa using hread
      exact .array (fits_of_readItems h hitems)

theorem fits_of_readObject (h : Answers reader d) {text rest : Text} {value : Json ν}
    (hread : readObject reader text = some (value, rest)) : Fits (d + 1) value := by
  unfold readObject at hread
  split at hread
  · cases hread
  · split_ifs at hread
    · obtain ⟨rfl, _⟩ : .object [] = value ∧ _ = rest := by simpa using hread
      exact .object .nil fun field hfield => absurd hfield (by simp)
    · obtain ⟨⟨fields, text'⟩, hfields, hread⟩ := Option.map_eq_some_iff.mp hread
      obtain ⟨rfl, _⟩ : ofFields fields = value ∧ text' = rest := by simpa using hread
      exact fits_ofFields (fits_of_readFields h hfields)

/-- What `readWith` answers is a scalar, or is made of what `inner` answers. -/
theorem fits_of_readWith {inner : Option (Text → Option (Json ν × Text))}
    (h : ∀ reader, inner = some reader → ∃ k, d = k + 1 ∧ Answers reader k) :
    Answers (readWith numerals inner) d := by
  intro text value rest hread
  unfold readWith at hread
  split at hread
  · cases hread
  · split_ifs at hread
    · obtain ⟨⟨string, text'⟩, _, hread⟩ := Option.map_eq_some_iff.mp hread
      obtain ⟨rfl, _⟩ : .string string = value ∧ text' = rest := by simpa using hread
      exact .string string
    · obtain ⟨reader, hinner, hread⟩ := Option.bind_eq_some_iff.mp hread
      obtain ⟨k, rfl, hreader⟩ := h reader hinner
      exact fits_of_readArray hreader hread
    · obtain ⟨reader, hinner, hread⟩ := Option.bind_eq_some_iff.mp hread
      obtain ⟨k, rfl, hreader⟩ := h reader hinner
      exact fits_of_readObject hreader hread
    · unfold readWord at hread
      split_ifs at hread
      obtain ⟨rfl, _⟩ : .null = value ∧ _ = rest := by simpa using hread
      exact .null
    · unfold readWord at hread
      split_ifs at hread
      obtain ⟨rfl, _⟩ : .bool true = value ∧ _ = rest := by simpa using hread
      exact .bool true
    · unfold readWord at hread
      split_ifs at hread
      obtain ⟨rfl, _⟩ : .bool false = value ∧ _ = rest := by simpa using hread
      exact .bool false
    · obtain ⟨n, _, hread⟩ := Option.map_eq_some_iff.mp hread
      obtain ⟨rfl, _⟩ : .number n = value ∧ _ = rest := by simpa using hread
      exact .number n

theorem answers_readValue (d : Nat) : Answers (readValue numerals d) d := by
  induction d with
  | zero =>
      apply fits_of_readWith
      intro reader hreader
      cases hreader
  | succ d ih =>
      apply fits_of_readWith
      intro reader hreader
      obtain rfl := Option.some.inj hreader
      exact ⟨d, rfl, ih⟩

theorem fits_of_read {limit : Nat} {text : Text} {value : Json ν}
    (h : read numerals limit text = some value) : Fits limit value := by
  unfold read at h
  split at h
  · rename_i v rest hread
    split_ifs at h
    obtain rfl := Option.some.inj h
    exact answers_readValue limit text v rest hread
  · cases h

end Fits

/-! ## Bytes -/

/-- The UTF-8 encoding of a text. -/
def utf8Encode (text : Text) : List UInt8 := text.flatMap String.utf8EncodeChar

/-- The text of valid UTF-8. -/
def utf8Decode (bytes : List UInt8) : Option Text :=
  (ByteArray.utf8Decode? bytes.toByteArray).map Array.toList

theorem utf8Decode_utf8Encode (text : Text) : utf8Decode (utf8Encode text) = some text := by
  have h : ByteArray.utf8Decode? (utf8Encode text).toByteArray = some text.toArray :=
    List.utf8Decode?_utf8Encode
  unfold utf8Decode
  rw [h]
  rfl

end Lib.Json
