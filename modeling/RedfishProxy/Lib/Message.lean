import RedfishProxy.Lib.Text

/-!
# Methods, header names, header values and header maps

What the `http` crate guarantees of its types, carried as fields: a method is a
token, a header name is a lower-case token, a header value has no control
character but tab. A `HeaderMap` is the sequence of its entries. A reader takes
the values of one name, in order (`getAll`), so each operation has a `getAll`
equation, and nothing else about the map is used.
-/

namespace Lib

/-- The characters of a token. Number 96 is the backtick. -/
def isTokenChar (c : Char) : Bool :=
  c.isAlphanum || c ∈ ['!', '#', '$', '%', '&', '\'', '*', '+', '-', '.', '^', '_', '|', '~'] ||
    c.toNat == 96

theorem toNat_of_isTokenChar {c : Char} (h : isTokenChar c = true) : c.toNat < 128 := by
  simp only [isTokenChar, Bool.or_eq_true, List.mem_cons, List.not_mem_nil, or_false,
    decide_eq_true_eq, beq_iff_eq] at h
  rcases h with (h | h) | h
  · exact Text.toNat_of_isAlphanum h
  · rcases h with rfl | rfl | rfl | rfl | rfl | rfl | rfl | rfl | rfl | rfl | rfl | rfl | rfl | rfl
    all_goals decide
  · omega

/-! ## Methods -/

/-- An HTTP method, standard or not. Its case counts. -/
@[ext] structure Method where
  name : Text
  isToken : name ≠ [] ∧ ∀ c ∈ name, isTokenChar c = true
  deriving DecidableEq

/-- The `FromStr` of a method. -/
def Method.parse (raw : Text) : Option Method :=
  if h : raw ≠ [] ∧ ∀ c ∈ raw, isTokenChar c = true then some ⟨raw, h⟩ else none

@[simp] theorem Method.parse_name (m : Method) : Method.parse m.name = some m := by
  unfold Method.parse
  rw [dif_pos m.isToken]

theorem Method.name_of_parse {raw : Text} {m : Method} (h : Method.parse raw = some m) :
    m.name = raw := by
  unfold Method.parse at h
  split at h
  · rw [← Option.some.inj h]
  · cases h

namespace Method

/-! The methods by name, as `http::Method` has them. -/

def GET : Method := ⟨"GET".toList, by decide⟩

def HEAD : Method := ⟨"HEAD".toList, by decide⟩

def PATCH : Method := ⟨"PATCH".toList, by decide⟩

def POST : Method := ⟨"POST".toList, by decide⟩

def PUT : Method := ⟨"PUT".toList, by decide⟩

end Method

/-! ## Header names -/

theorem toLower_token {c : Char} (h : isTokenChar c = true) :
    isTokenChar c.toLower = true ∧ c.toLower.toLower = c.toLower := by
  refine Text.ascii_cases (P := fun c => isTokenChar c = true →
    isTokenChar c.toLower = true ∧ c.toLower.toLower = c.toLower) ?_ (toNat_of_isTokenChar h) h
  decide

theorem isTokenChar_of_toLower {c : Char} (h : isTokenChar c.toLower = true) :
    isTokenChar c = true := by
  by_cases hascii : c.toNat < 128
  · refine Text.ascii_cases (P := fun c => isTokenChar c.toLower = true →
      isTokenChar c = true) ?_ hascii h
    decide
  · -- only ASCII letters have a lower case
    unfold Char.toLower at h
    split at h
    · rename_i hupper
      have hhi : c.toNat ≤ 90 := UInt32.le_iff_toNat_le.mp hupper.2
      omega
    · exact h

/-- A header name, in the lower case the crate keeps it in. -/
@[ext] structure HeaderName where
  name : Text
  isToken : (name ≠ [] ∧ name.length ≤ 65535) ∧
    ∀ c ∈ name, isTokenChar c = true ∧ c.toLower = c
  deriving DecidableEq

namespace HeaderName

/-- `HeaderName::from_bytes`. -/
def fromBytes (raw : Text) : Option HeaderName :=
  if h : (raw ≠ [] ∧ raw.length ≤ 65535) ∧ ∀ c ∈ raw, isTokenChar c = true then
    some {
      name := raw.map Char.toLower
      isToken := by
        refine ⟨by simpa using h.1, ?_⟩
        intro c hc
        obtain ⟨d, hd, rfl⟩ := List.mem_map.mp hc
        exact toLower_token (h.2 d hd) }
  else none

theorem name_of_fromBytes {raw : Text} {n : HeaderName} (h : fromBytes raw = some n) :
    n.name = raw.map Char.toLower := by
  unfold fromBytes at h
  split at h
  · rw [← Option.some.inj h]
  · cases h

theorem map_toLower_name (n : HeaderName) : n.name.map Char.toLower = n.name := by
  refine (List.map_congr_left ?_).trans (List.map_id _)
  intro c hc
  exact (n.isToken.2 c hc).2

@[simp] theorem fromBytes_name (n : HeaderName) : fromBytes n.name = some n := by
  unfold fromBytes
  rw [dif_pos ⟨n.isToken.1, fun c hc => (n.isToken.2 c hc).1⟩]
  simp only [map_toLower_name]

/-- A text that is a name in lower case is read as that name. -/
theorem fromBytes_of_map_toLower {raw : Text} {n : HeaderName}
    (h : raw.map Char.toLower = n.name) : fromBytes raw = some n := by
  have hsize : raw ≠ [] ∧ raw.length ≤ 65535 := by
    have hn := n.isToken.1
    rw [← h, List.length_map] at hn
    exact ⟨fun hnil => hn.1 (by rw [hnil]; rfl), hn.2⟩
  have htoken : ∀ c ∈ raw, isTokenChar c = true := by
    intro c hc
    have hmem : c.toLower ∈ n.name := h ▸ List.mem_map_of_mem hc
    exact isTokenChar_of_toLower (n.isToken.2 _ hmem).1
  unfold fromBytes
  rw [dif_pos ⟨hsize, htoken⟩]
  exact congrArg some (HeaderName.ext h)

/-- Reading a name ignores its case, and so does the comparison with it. -/
theorem eqIgnoreAsciiCase_of_fromBytes {raw : Text} {n : HeaderName}
    (h : fromBytes raw = some n) (t : Text) :
    n.name.eqIgnoreAsciiCase t = raw.eqIgnoreAsciiCase t := by
  unfold Text.eqIgnoreAsciiCase
  rw [map_toLower_name, name_of_fromBytes h]

end HeaderName

/-! ## Header values -/

/-- No control character but tab. -/
def isValueByte (b : UInt8) : Bool := (32 ≤ b && b != 127) || b == 9

/-- The bytes `to_str` lets through. -/
def isVisibleAscii (b : UInt8) : Bool := (32 ≤ b && b < 127) || b == 9

structure HeaderValue where
  bytes : List UInt8
  isValid : ∀ b ∈ bytes, isValueByte b = true
  deriving DecidableEq

namespace HeaderValue

/-- `HeaderValue::to_str`. -/
def toStr (v : HeaderValue) : Option Text :=
  if v.bytes.all isVisibleAscii then some (v.bytes.map fun b => Char.ofNat b.toNat) else none

/-- `HeaderValue::from_str`. -/
def fromStr (text : Text) : Option HeaderValue :=
  if h : ∀ b ∈ text.flatMap String.utf8EncodeChar, isValueByte b = true then
    some ⟨text.flatMap String.utf8EncodeChar, h⟩
  else none

theorem utf8EncodeChar_ofNat {b : UInt8} (h : isVisibleAscii b = true) :
    String.utf8EncodeChar (Char.ofNat b.toNat) = [b] := by
  have hb : b.toNat < 128 := by
    simp only [isVisibleAscii, Bool.or_eq_true, Bool.and_eq_true, decide_eq_true_eq, beq_iff_eq,
      UInt8.lt_iff_toNat_lt] at h
    rcases h with ⟨_, h⟩ | rfl
    · have h127 : (127 : UInt8).toNat = 127 := rfl
      omega
    · decide
  have hall : ∀ n : Fin 128, String.utf8EncodeChar (Char.ofNat n) = [UInt8.ofNat n] := by decide
  have := hall ⟨b.toNat, hb⟩
  rwa [show UInt8.ofNat b.toNat = b from UInt8.ofNat_toNat] at this

/-- What was read is written back. -/
theorem fromStr_of_toStr {v : HeaderValue} {text : Text} (h : v.toStr = some text) :
    fromStr text = some v := by
  unfold toStr at h
  split at h
  · rename_i hall
    rw [List.all_eq_true] at hall
    obtain rfl := Option.some.inj h
    have hbytes : (v.bytes.map fun b => Char.ofNat b.toNat).flatMap String.utf8EncodeChar =
        v.bytes := by
      rw [List.flatMap_map]
      calc v.bytes.flatMap (fun b => String.utf8EncodeChar (Char.ofNat b.toNat))
          = v.bytes.flatMap (fun b => [b]) :=
            List.flatMap_congr fun b hb => utf8EncodeChar_ofNat (hall b hb)
        _ = v.bytes := List.flatMap_singleton' _
    unfold fromStr
    rw [dif_pos (by rw [hbytes]; exact v.isValid)]
    simp only [hbytes]
  · cases h

/-- A value that can be read is its text. -/
theorem eq_of_toStr {v w : HeaderValue} {text : Text} (hv : v.toStr = some text)
    (hw : w.toStr = some text) : v = w :=
  Option.some.inj ((fromStr_of_toStr hv).symm.trans (fromStr_of_toStr hw))

/-- What `to_str` answers is visible ASCII. -/
theorem visible_of_toStr {v : HeaderValue} {text : Text} (h : v.toStr = some text) {c : Char}
    (hc : c ∈ text) : (32 ≤ c.toNat ∧ c.toNat < 127) ∨ c = '\t' := by
  unfold toStr at h
  split at h
  · rename_i hall
    obtain rfl := Option.some.inj h
    obtain ⟨b, hb, rfl⟩ := List.mem_map.mp hc
    have hvisible := List.all_eq_true.mp hall b hb
    have hascii : ∀ n : Fin 256, isVisibleAscii (UInt8.ofNat n) = true →
        (32 ≤ (Char.ofNat n).toNat ∧ (Char.ofNat n).toNat < 127) ∨ Char.ofNat n = '\t' := by
      decide +kernel
    refine hascii ⟨b.toNat, b.toNat_lt⟩ ?_
    simpa using hvisible
  · cases h

/-- Visible ASCII is written, and read again. -/
theorem fromStr_of_visible {text : Text}
    (h : ∀ c ∈ text, (32 ≤ c.toNat ∧ c.toNat < 127) ∨ c = '\t') :
    ∃ v, fromStr text = some v ∧ v.toStr = some text := by
  have hascii : ∀ n : Fin 128,
      (32 ≤ (Char.ofNat n).toNat ∧ (Char.ofNat n).toNat < 127) ∨ Char.ofNat n = '\t' →
      isVisibleAscii (UInt8.ofNat n) = true ∧ isValueByte (UInt8.ofNat n) = true ∧
        Char.ofNat (UInt8.ofNat n).toNat = Char.ofNat n := by decide +kernel
  have hchar : ∀ c ∈ text, isVisibleAscii (UInt8.ofNat c.toNat) = true ∧
      isValueByte (UInt8.ofNat c.toNat) = true ∧
      Char.ofNat (UInt8.ofNat c.toNat).toNat = c := by
    intro c hc
    have hlt : c.toNat < 128 := by
      rcases h c hc with h | rfl
      · omega
      · decide
    have := hascii ⟨c.toNat, hlt⟩ (by simpa using h c hc)
    simpa using this
  let v : HeaderValue := {
    bytes := text.map fun c => UInt8.ofNat c.toNat
    isValid := by
      intro b hb
      obtain ⟨c, hc, rfl⟩ := List.mem_map.mp hb
      exact (hchar c hc).2.1 }
  have hread : v.toStr = some text := by
    unfold toStr
    rw [if_pos (by simpa [v] using fun c hc => (hchar c hc).1)]
    simp only [v, List.map_map, Option.some.injEq]
    exact (List.map_congr_left fun c hc => (hchar c hc).2.2).trans (List.map_id' text)
  exact ⟨v, fromStr_of_toStr hread, hread⟩

end HeaderValue

/-! ## Header maps -/

/-- The entries of a header map. Only the order of the values of one name is
ever read. -/
structure HeaderMap where
  entries : List (HeaderName × HeaderValue)
  deriving DecidableEq

namespace HeaderMap

def new : HeaderMap := ⟨[]⟩

def append (m : HeaderMap) (name : HeaderName) (value : HeaderValue) : HeaderMap :=
  ⟨m.entries ++ [(name, value)]⟩

def remove (m : HeaderMap) (name : HeaderName) : HeaderMap :=
  ⟨m.entries.filter fun e => e.1 ≠ name⟩

/-- Replaces every value of the name. -/
def insert (m : HeaderMap) (name : HeaderName) (value : HeaderValue) : HeaderMap :=
  (m.remove name).append name value

def getAll (m : HeaderMap) (name : HeaderName) : List HeaderValue :=
  m.entries.filterMap fun e => if e.1 = name then some e.2 else none

/-- The first value of the name. -/
def get (m : HeaderMap) (name : HeaderName) : Option HeaderValue := (m.getAll name).head?

@[simp] theorem getAll_new (n : HeaderName) : new.getAll n = [] := rfl

theorem getAll_cons (e : HeaderName × HeaderValue) (entries : List (HeaderName × HeaderValue))
    (n : HeaderName) : (mk (e :: entries)).getAll n =
      (if e.1 = n then [e.2] else []) ++ (mk entries).getAll n := by
  unfold getAll
  by_cases he : e.1 = n <;> simp [he]

@[simp] theorem getAll_append (m : HeaderMap) (name n : HeaderName) (v : HeaderValue) :
    (m.append name v).getAll n = m.getAll n ++ if name = n then [v] else [] := by
  unfold getAll append
  rw [List.filterMap_append]
  by_cases h : name = n <;> simp [h]

@[simp] theorem getAll_remove (m : HeaderMap) (name n : HeaderName) :
    (m.remove name).getAll n = if name = n then [] else m.getAll n := by
  unfold getAll remove
  rw [List.filterMap_filter]
  by_cases h : name = n
  · subst h
    rw [if_pos rfl, List.filterMap_eq_nil_iff]
    intro e _
    by_cases he : e.1 = name <;> simp [he]
  · rw [if_neg h]
    refine List.filterMap_congr ?_
    intro e _
    by_cases he : e.1 = n
    · simpa [he] using fun hn : n = name => h hn.symm
    · simp [he]

@[simp] theorem getAll_insert (m : HeaderMap) (name n : HeaderName) (v : HeaderValue) :
    (m.insert name v).getAll n = if name = n then [v] else m.getAll n := by
  unfold insert
  rw [getAll_append, getAll_remove]
  by_cases h : name = n <;> simp [h]

theorem getAll_foldl_append (values : List HeaderValue) (name n : HeaderName) (m : HeaderMap) :
    (values.foldl (fun out value => out.append name value) m).getAll n =
      m.getAll n ++ if name = n then values else [] := by
  induction values generalizing m with
  | nil => simp
  | cons v values ih =>
      rw [List.foldl_cons, ih]
      by_cases h : name = n <;> simp [h]

/-- A loop that appends at most one value of the name a turn. -/
theorem getAll_foldl {α : Type} {turn : HeaderMap → α → HeaderMap} {value : α → Option HeaderValue}
    {n : HeaderName} (hturn : ∀ m item, (turn m item).getAll n = m.getAll n ++ (value item).toList)
    (items : List α) (m : HeaderMap) :
    (items.foldl turn m).getAll n = m.getAll n ++ items.filterMap value := by
  induction items generalizing m with
  | nil => simp
  | cons item items ih =>
      rw [List.foldl_cons, ih, hturn, List.filterMap_cons, List.append_assoc]
      cases value item <;> rfl

/-- `for (name, value) in source { if keep { dest.append(..) } }`. -/
def appendWhere (keep : HeaderName → Bool) (source dest : HeaderMap) : HeaderMap :=
  source.entries.foldl (fun dest e => if keep e.1 then dest.append e.1 e.2 else dest) dest

@[simp] theorem getAll_appendWhere (keep : HeaderName → Bool) (source dest : HeaderMap)
    (n : HeaderName) : (appendWhere keep source dest).getAll n =
      dest.getAll n ++ if keep n then source.getAll n else [] := by
  unfold appendWhere
  obtain ⟨entries⟩ := source
  induction entries generalizing dest with
  | nil => simp [getAll]
  | cons e entries ih =>
      rw [List.foldl_cons, ih]
      rw [getAll_cons]
      by_cases he : e.1 = n
      · subst he
        cases keep e.1 <;> simp
      · cases keep e.1 <;> simp [he]

/-- `for (name, value) in source { dest.insert(..) }`. -/
def insertFrom (source dest : HeaderMap) : HeaderMap :=
  source.entries.foldl (fun dest e => dest.insert e.1 e.2) dest

/-- An inserted name keeps the last of the values it is given. -/
@[simp] theorem getAll_insertFrom (source dest : HeaderMap) (n : HeaderName) :
    (insertFrom source dest).getAll n =
      match (source.getAll n).getLast? with
      | some v => [v]
      | none => dest.getAll n := by
  unfold insertFrom
  obtain ⟨entries⟩ := source
  induction entries generalizing dest with
  | nil => simp [getAll]
  | cons e entries ih =>
      rw [List.foldl_cons, ih]
      rw [getAll_cons, List.getLast?_append]
      cases hlast : ((HeaderMap.mk entries).getAll n).getLast? with
      | some v => simp
      | none => by_cases he : e.1 = n <;> simp [he]

end HeaderMap

/-! ## Requests -/

structure Uri where
  path : Text
  query : Option Text
  deriving DecidableEq

/-- The head of a request. -/
structure Parts where
  method : Method
  uri : Uri
  headers : HeaderMap
  deriving DecidableEq

end Lib
