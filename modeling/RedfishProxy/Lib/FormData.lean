import RedfishProxy.Lib.JsonText
import RedfishProxy.Lib.Utf8
import RedfishProxy.Lib.WebUrl

/-!
# Form data

The parameters of a query: parts between `&`, a name and a value around the first
`=`, spaces written as `+`, any byte as `%` and two digits. What is decoded is
taken for UTF-8, and what is none becomes U+FFFD. There are many ways to write
one parameter (`Spells`), and all of them are read alike.

Main results:
* `lossy_utf8`: a text is read back from its bytes.
* `parse_spelled`: a query says what its parts spell.
* `SpellsAll.encodeText`: and still does after a URL parser escaped more of it.
-/

namespace Lib.FormData

open Whatwg (encode)
open WebUrl (cutAt encodeText specialQuerySet)

/-! ## Bytes that may be no text -/

/-- `0x80` to `0xBF`. -/
def isContinuation (b : UInt8) : Bool := 0x80 ≤ b && b ≤ 0xBF

/-- A second byte that a character of three bytes can have. -/
def isSecondOfThree (first second : UInt8) : Bool :=
  if first = 0xE0 then 0xA0 ≤ second && second ≤ 0xBF
  else if first = 0xED then 0x80 ≤ second && second ≤ 0x9F
  else 0xE1 ≤ first && first ≤ 0xEF && isContinuation second

/-- And one of four. -/
def isSecondOfFour (first second : UInt8) : Bool :=
  if first = 0xF0 then 0x90 ≤ second && second ≤ 0xBF
  else if first = 0xF4 then 0x80 ≤ second && second ≤ 0x8F
  else 0xF1 ≤ first && first ≤ 0xF3 && isContinuation second

/-- How many bytes one U+FFFD stands for, where no character starts: as many as a
character could start with. -/
def invalidLength : List UInt8 → Nat
  | first :: second :: rest =>
    if isSecondOfThree first second then 2
    else if isSecondOfFour first second then
      match rest with
      | third :: _ => if isContinuation third then 3 else 2
      | [] => 2
    else 1
  | _ => 1

/-- The first character of the bytes, if they start with one. -/
def firstChar (bytes : List UInt8) : Option Char := bytes.toByteArray.utf8DecodeChar? 0

/-- At most so many characters. -/
def lossyUpTo : Nat → List UInt8 → Text
  | 0, _ => []
  | _ + 1, [] => []
  | count + 1, bytes =>
    match firstChar bytes with
    | some c => c :: lossyUpTo count (bytes.drop c.utf8Size)
    | none => '\uFFFD' :: lossyUpTo count (bytes.drop (invalidLength bytes))

/-- `String::from_utf8_lossy`. -/
def lossy (bytes : List UInt8) : Text := lossyUpTo bytes.length bytes

theorem firstChar_append (c : Char) (bytes : List UInt8) :
    firstChar (String.utf8EncodeChar c ++ bytes) = some c := by
  unfold firstChar
  rw [List.toByteArray_append]
  exact ByteArray.utf8DecodeChar?_utf8EncodeChar_append

theorem lossyUpTo_utf8 (t : Text) {count : Nat} (h : t.length ≤ count) :
    lossyUpTo count (Text.utf8 t) = t := by
  induction t generalizing count with
  | nil => cases count <;> rfl
  | cons c t ih =>
      obtain ⟨more, rfl⟩ := Nat.exists_eq_add_of_le' h
      have hbytes : Text.utf8 (c :: t) = String.utf8EncodeChar c ++ Text.utf8 t := List.flatMap_cons
      obtain ⟨b, rest, hcons⟩ : ∃ b rest, Text.utf8 (c :: t) = b :: rest := by
        refine List.exists_cons_of_ne_nil fun hnil => ?_
        have hlength := congrArg List.length hnil
        rw [hbytes, List.length_append, String.length_utf8EncodeChar] at hlength
        have hpos := c.utf8Size_pos
        simp only [List.length_nil] at hlength
        omega
      have hdrop : (Text.utf8 (c :: t)).drop c.utf8Size = Text.utf8 t := by
        rw [hbytes, ← String.length_utf8EncodeChar c, List.drop_left]
      have hfirst : firstChar (Text.utf8 (c :: t)) = some c := by
        rw [hbytes]
        exact firstChar_append c (Text.utf8 t)
      rw [show more + (c :: t).length = more + t.length + 1 by simp [Nat.add_assoc]]
      rw [hcons] at hdrop hfirst ⊢
      rw [lossyUpTo, hfirst]
      simp only
      · rw [hdrop, ih (Nat.le_add_left ..)]
      · exact fun hnil => List.cons_ne_nil _ _ hnil

/-- **A text is read back from its bytes.** -/
theorem lossy_utf8 (t : Text) : lossy (Text.utf8 t) = t := by
  refine lossyUpTo_utf8 t ?_
  rw [Text.length_utf8]
  induction t with
  | nil => exact Nat.le_refl 0
  | cons c t ih =>
      have hpos := c.utf8Size_pos
      rw [List.length_cons, Text.byteLen_cons]
      omega

/-! ## A name or a value -/

/-- `+` is a space, and `%` with two digits is a byte. A `%` without them is one. -/
def bytesOf : Text → List UInt8
  | '%' :: high :: low :: text =>
    match Json.hexValue high, Json.hexValue low with
    | some h, some l => UInt8.ofNat (h * 16 + l) :: bytesOf text
    | _, _ => 0x25 :: bytesOf (high :: low :: text)
  | '+' :: text => 0x20 :: bytesOf text
  | c :: text => String.utf8EncodeChar c ++ bytesOf text
  | [] => []

def decode (text : Text) : Text := lossy (bytesOf text)

/-- Bytes, each as `%` and two digits of either case. -/
inductive Escapes : List UInt8 → Text → Prop where
  | nil : Escapes [] []
  | cons {b : UInt8} {bytes : List UInt8} {high low : Char} {text : Text}
      (hhigh : Json.hexValue high = some (b.toNat / 16))
      (hlow : Json.hexValue low = some (b.toNat % 16)) (h : Escapes bytes text) :
      Escapes (b :: bytes) ('%' :: high :: low :: text)

/-- The first text is a way to write the second, with these characters as they
are. -/
inductive Spells (plain : Char → Bool) : Text → Text → Prop where
  | nil : Spells plain [] []
  | plain {c : Char} {written text : Text} (hc : plain c = true) (h : Spells plain written text) :
      Spells plain (c :: written) (c :: text)
  | space {written text : Text} (h : Spells plain written text) :
      Spells plain ('+' :: written) (' ' :: text)
  | escaped {c : Char} {digits written text : Text}
      (hdigits : Escapes (String.utf8EncodeChar c) digits) (h : Spells plain written text) :
      Spells plain (digits ++ written) (c :: text)

theorem bytesOf_cons {c : Char} (hpercent : c ≠ '%') (hplus : c ≠ '+') (text : Text) :
    bytesOf (c :: text) = String.utf8EncodeChar c ++ bytesOf text := by
  rw [bytesOf]
  · exact fun _ _ _ hc _ => hpercent hc
  · exact hplus

theorem bytesOf_escapes {bytes : List UInt8} {digits : Text} (h : Escapes bytes digits)
    (text : Text) : bytesOf (digits ++ text) = bytes ++ bytesOf text := by
  induction h with
  | nil => rfl
  | @cons b _ _ _ _ hhigh hlow _ ih =>
      rw [List.cons_append, List.cons_append, List.cons_append, bytesOf, hhigh, hlow]
      simp only
      rw [ih, Nat.div_add_mod', UInt8.ofNat_toNat]
      rfl

section Spelled

variable {plain : Char → Bool} {written text : Text}

theorem bytesOf_spelled (hplain : ∀ c, plain c = true → c ≠ '%' ∧ c ≠ '+')
    (h : Spells plain written text) : bytesOf written = Text.utf8 text := by
  induction h with
  | nil => rfl
  | plain hc _ ih => rw [bytesOf_cons (hplain _ hc).1 (hplain _ hc).2, ih]; rfl
  | space _ ih => rw [bytesOf, ih]; rfl
  | escaped hdigits _ ih => rw [bytesOf_escapes hdigits, ih]; rfl

/-- **All spellings** are read alike. -/
theorem decode_spelled (hplain : ∀ c, plain c = true → c ≠ '%' ∧ c ≠ '+')
    (h : Spells plain written text) : decode written = text := by
  unfold decode
  rw [bytesOf_spelled hplain h, lossy_utf8]

/-- The characters a spelling is written with. -/
structure Covers (plain : Char → Bool) (p : Char → Prop) : Prop where
  plain : ∀ c, plain c = true → p c
  plus : p '+'
  percent : p '%'
  digit : ∀ c n, Json.hexValue c = some n → p c

theorem mem_escapes {p : Char → Prop} (hcovers : Covers plain p) {bytes : List UInt8}
    {digits : Text} (h : Escapes bytes digits) : ∀ c ∈ digits, p c := by
  induction h with
  | nil => simp
  | cons hhigh hlow _ ih =>
      simp only [List.forall_mem_cons]
      exact ⟨hcovers.percent, hcovers.digit _ _ hhigh, hcovers.digit _ _ hlow, ih⟩

theorem Spells.mem {p : Char → Prop} (hcovers : Covers plain p) (h : Spells plain written text) :
    ∀ c ∈ written, p c := by
  induction h with
  | nil => simp
  | plain hc _ ih => exact List.forall_mem_cons.mpr ⟨hcovers.plain _ hc, ih⟩
  | space _ ih => exact List.forall_mem_cons.mpr ⟨hcovers.plus, ih⟩
  | escaped hdigits _ ih => exact List.forall_mem_append.mpr ⟨mem_escapes hcovers hdigits, ih⟩

theorem hexValue_ascii {c : Char} {n : Nat} (h : Json.hexValue c = some n) : c.toNat < 128 := by
  unfold Json.hexValue at h
  split at h
  · rename_i hdigit
    exact Nat.lt_of_le_of_lt (Text.isDigit_toNat hdigit) (by decide)
  · split at h
    · omega
    · split at h
      · omega
      · cases h

theorem of_hexValue {p : Char → Prop}
    (hall : ∀ n : Fin 128, (Json.hexValue (Char.ofNat n)).isSome = true → p (Char.ofNat n))
    (c : Char) (n : Nat) (h : Json.hexValue c = some n) : p c :=
  Text.ascii_cases (P := fun c => (Json.hexValue c).isSome = true → p c) hall
    (hexValue_ascii h) (by rw [h]; rfl)

/-! ## More of it escaped -/

theorem hexValue_hexDigit {n : Nat} (h : n < 16) :
    Json.hexValue (Whatwg.hexDigit n) = some n := by
  have hall : ∀ n : Fin 16, Json.hexValue (Whatwg.hexDigit n) = some n.val := by decide
  exact hall ⟨n, h⟩

theorem escapes_bytes (bytes : List UInt8) : Escapes bytes (bytes.flatMap fun b =>
    ['%', Whatwg.hexDigit (b.toNat / 16), Whatwg.hexDigit (b.toNat % 16)]) := by
  induction bytes with
  | nil => exact .nil
  | cons b bytes ih =>
      have hb : b.toNat < 256 := b.toNat_lt
      exact .cons (hexValue_hexDigit (by omega)) (hexValue_hexDigit (by omega)) ih

/-- What a set spares it leaves as it is. -/
theorem encodeText_eq_self {set : Char → Bool} (h : ∀ c ∈ text, set c = false) :
    encodeText set text = text := by
  induction text with
  | nil => rfl
  | cons c text ih =>
      have hc : encode set c = [c] := by
        unfold encode
        rw [h c List.mem_cons_self, if_neg Bool.false_ne_true]
      show encode set c ++ encodeText set text = _
      rw [hc, ih fun d hd => h d (List.mem_cons_of_mem _ hd)]
      rfl

/-- A set that spares what spellings escape with. -/
structure Spares (set : Char → Bool) : Prop where
  plus : set '+' = false
  percent : set '%' = false
  digit : ∀ c n, Json.hexValue c = some n → set c = false

theorem Spares.covers {set : Char → Bool} (h : Spares set) :
    Covers (fun _ => false) fun c => set c = false :=
  ⟨fun _ hc => absurd hc Bool.false_ne_true, h.plus, h.percent, h.digit⟩

theorem Spells.encodeText {set : Char → Bool} (hset : Spares set) (h : Spells plain written text) :
    Spells plain (encodeText set written) text := by
  induction h with
  | nil => exact .nil
  | @plain c written text hc _ ih =>
      show Spells _ (encode set c ++ WebUrl.encodeText set written) _
      unfold encode
      split
      · exact .escaped (escapes_bytes _) ih
      · exact .plain hc ih
  | @space written text _ ih =>
      show Spells _ (encode set '+' ++ WebUrl.encodeText set written) _
      unfold encode
      rw [hset.plus, if_neg Bool.false_ne_true]
      exact .space ih
  | @escaped c digits written text hdigits _ ih =>
      have hspared : WebUrl.encodeText set digits = digits :=
        encodeText_eq_self (mem_escapes hset.covers hdigits)
      have hsplit : WebUrl.encodeText set (digits ++ written) =
          digits ++ WebUrl.encodeText set written := by
        unfold WebUrl.encodeText at hspared ⊢
        rw [List.flatMap_append, hspared]
      rw [hsplit]
      exact .escaped hdigits ih

end Spelled

/-! ## The parts of a query -/

/-- One part: nothing, or a name with a value. -/
def readPart (part : Text) : Option (Text × Text) :=
  if part = [] then none
  else some (decode (cutAt '=' part).1, decode ((cutAt '=' part).2.getD []))

/-- `form_urlencoded::parse`. -/
def parse (query : Text) : List (Text × Text) := (query.splitOn '&').filterMap readPart

/-- What can stand in a name as it is. -/
def isNamePlain (c : Char) : Bool := 32 < c.toNat && c ∉ ['&', '=', '+', '%', '#']

/-- And in a value. -/
def isValuePlain (c : Char) : Bool := 32 < c.toNat && c ∉ ['&', '+', '%', '#']

/-- A part, as it is written, and what it says. -/
inductive SpellsPart : Text → Option (Text × Text) → Prop where
  | empty : SpellsPart [] none
  | bare {written name : Text} (hname : Spells isNamePlain written name) (hne : written ≠ []) :
      SpellsPart written (some (name, []))
  | pair {written written' name value : Text} (hname : Spells isNamePlain written name)
      (hvalue : Spells isValuePlain written' value) :
      SpellsPart (written ++ '=' :: written') (some (name, value))

/-- The parts of a query. -/
abbrev SpellsAll (parts : List Text) (said : List (Option (Text × Text))) : Prop :=
  List.Forall₂ SpellsPart parts said

def join (parts : List Text) : Text := ['&'].intercalate parts

section Parts

variable {part : Text} {said : Option (Text × Text)} {parts : List Text}
  {all : List (Option (Text × Text))}

theorem isNamePlain_decodes (c : Char) (h : isNamePlain c = true) : c ≠ '%' ∧ c ≠ '+' := by
  simp [isNamePlain] at h
  exact ⟨h.2.2.2.2.1, h.2.2.2.1⟩

theorem isValuePlain_decodes (c : Char) (h : isValuePlain c = true) : c ≠ '%' ∧ c ≠ '+' := by
  simp [isValuePlain] at h
  exact ⟨h.2.2.2.1, h.2.2.1⟩

/-- No name has an `=` in it. -/
theorem covers_name : Covers isNamePlain (· ≠ '=') where
  plain c h := by
    simp [isNamePlain] at h
    exact h.2.2.1
  plus := by decide
  percent := by decide
  digit := of_hexValue (by decide)

theorem readPart_spelled (h : SpellsPart part said) : readPart part = said := by
  cases h with
  | empty => rfl
  | @bare written name hname hne =>
      have heq : '=' ∉ part := fun hmem => hname.mem covers_name '=' hmem rfl
      have hcut : cutAt '=' part = (part, none) := by
        have happend := WebUrl.cutAt_append heq []
        rw [List.append_nil] at happend
        rw [happend]
        show (part ++ [], none) = _
        rw [List.append_nil]
      have hnil : decode [] = [] := rfl
      unfold readPart
      rw [if_neg hne, hcut, decode_spelled isNamePlain_decodes hname]
      rfl
  | @pair written written' name value hname hvalue =>
      have heq : '=' ∉ written := fun hmem => hname.mem covers_name '=' hmem rfl
      unfold readPart
      rw [if_neg (by simp), WebUrl.cutAt_mark heq, Option.getD_some,
        decode_spelled isNamePlain_decodes hname, decode_spelled isValuePlain_decodes hvalue]

/-- What a part is written with: nothing a URL parser cleans away or takes for a
fragment, and no end of a part. -/
abbrev IsQueryChar (c : Char) : Prop := 32 < c.toNat ∧ c ≠ '#' ∧ c ≠ '&'

theorem covers_queryChar {plain : Char → Bool} (hplain : ∀ c, plain c = true → IsQueryChar c) :
    Covers plain IsQueryChar := ⟨hplain, by decide, by decide, of_hexValue (by decide)⟩

theorem SpellsPart.mem (h : SpellsPart part said) : ∀ c ∈ part, IsQueryChar c := by
  have hname : Covers isNamePlain IsQueryChar := covers_queryChar fun c hc => by
    simp [isNamePlain] at hc
    exact ⟨hc.1, hc.2.2.2.2.2, hc.2.1⟩
  have hvalue : Covers isValuePlain IsQueryChar := covers_queryChar fun c hc => by
    simp [isValuePlain] at hc
    exact ⟨hc.1, hc.2.2.2.2, hc.2.1⟩
  cases h with
  | empty => simp
  | bare hspelled _ => exact hspelled.mem hname
  | pair hspelled hspelled' =>
      exact List.forall_mem_append.mpr ⟨hspelled.mem hname,
        List.forall_mem_cons.mpr ⟨by decide, hspelled'.mem hvalue⟩⟩

theorem ampersand_notMem (h : SpellsPart part said) : '&' ∉ part :=
  fun hmem => (h.mem '&' hmem).2.2 rfl

theorem SpellsAll.forall {P : Text → Prop} (h : SpellsAll parts all)
    (hpart : ∀ part said, SpellsPart part said → P part) : ∀ part ∈ parts, P part := by
  induction h with
  | nil => simp
  | cons hspelled _ ih => exact List.forall_mem_cons.mpr ⟨hpart _ _ hspelled, ih⟩

/-- **A query says what its parts spell.** -/
theorem parse_spelled (h : SpellsAll parts all) : parse (join parts) = all.reduceOption := by
  have hread : parts.filterMap readPart = all.reduceOption := by
    induction h with
    | nil => rfl
    | @cons part said _ _ hpart _ ih =>
        rw [List.filterMap_cons, readPart_spelled hpart, ih]
        cases said <;> rfl
  unfold parse join
  cases hparts : parts with
  | nil =>
      rw [hparts] at hread
      exact hread
  | cons part rest =>
      rw [← hparts, List.splitOn_intercalate '&' (h.forall fun _ _ => ampersand_notMem)
        (by simp [hparts])]
      exact hread

/-! ## Through a URL parser -/

theorem SpellsPart.encodeText {set : Char → Bool} (hset : Spares set) (hequals : set '=' = false)
    (h : SpellsPart part said) : SpellsPart (encodeText set part) said := by
  cases h with
  | empty => exact .empty
  | @bare written name hname hne =>
      refine .bare (hname.encodeText hset) ?_
      obtain ⟨c, rest, rfl⟩ := List.exists_cons_of_ne_nil hne
      show encode set c ++ _ ≠ []
      unfold encode
      split
      · obtain ⟨b, bytes, hbytes⟩ : ∃ b bytes, String.utf8EncodeChar c = b :: bytes := by
          refine List.exists_cons_of_length_pos ?_
          rw [String.length_utf8EncodeChar]
          exact c.utf8Size_pos
        rw [hbytes]
        simp
      · simp
  | @pair written written' name value hname hvalue =>
      have hsplit : WebUrl.encodeText set (written ++ '=' :: written') =
          WebUrl.encodeText set written ++ '=' :: WebUrl.encodeText set written' := by
        have hencode : encode set '=' = ['='] := by
          unfold encode
          rw [hequals, if_neg Bool.false_ne_true]
        unfold WebUrl.encodeText
        rw [List.flatMap_append, List.flatMap_cons, hencode]
        rfl
      rw [hsplit]
      exact .pair (hname.encodeText hset) (hvalue.encodeText hset)

theorem encodeText_join {set : Char → Bool} (hset : set '&' = false) (parts : List Text) :
    encodeText set (join parts) = join (parts.map (encodeText set)) := by
  have hencode : encode set '&' = ['&'] := by
    unfold encode
    rw [hset, if_neg Bool.false_ne_true]
  unfold join WebUrl.encodeText
  induction parts with
  | nil => rfl
  | cons part parts ih =>
      cases parts with
      | nil => rw [List.intercalate_singleton, List.map_singleton, List.intercalate_singleton]
      | cons next parts =>
          rw [List.intercalate_cons_cons, List.map_cons, List.map_cons, List.intercalate_cons_cons,
            List.flatMap_append, List.flatMap_append, List.flatMap_singleton, hencode, ih,
            List.map_cons]

theorem SpellsAll.encodeText {set : Char → Bool} (hset : Spares set) (hequals : set '=' = false)
    (h : SpellsAll parts all) : SpellsAll (parts.map (encodeText set)) all := by
  induction h with
  | nil => exact .nil
  | cons hpart _ ih => exact .cons (hpart.encodeText hset hequals) ih

theorem spares_specialQuerySet : Spares specialQuerySet where
  plus := by decide
  percent := by decide
  digit := of_hexValue (by decide)

theorem mem_join {p : Char → Prop} (hsep : p '&') (h : ∀ part ∈ parts, ∀ c ∈ part, p c) :
    ∀ c ∈ join parts, p c := by
  unfold join
  induction parts with
  | nil => simp
  | cons part parts ih =>
      have hpart := h part List.mem_cons_self
      have hrest := ih fun part' hpart' => h part' (List.mem_cons_of_mem _ hpart')
      cases parts with
      | nil => rwa [List.intercalate_singleton]
      | cons next parts =>
          rw [List.intercalate_cons_cons]
          exact List.forall_mem_append.mpr
            ⟨List.forall_mem_append.mpr ⟨hpart, by simpa using hsep⟩, hrest⟩

end Parts
end Lib.FormData
