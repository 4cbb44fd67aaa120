import RedfishProxy.Lib.Text

/-!
# JSON values

The values of serde_json with its map sorted by key, over any type of numbers,
and how a string of one is written. A map is its list of entries; `insert` keeps
a sorted list sorted, and `lookup`, `insert` and `remove` treat the first entry
of a key as the key's only one.
-/

namespace Lib

inductive Json (ν : Type) where
  | null
  | bool (b : Bool)
  | number (n : ν)
  | string (text : Text)
  | array (items : List (Json ν))
  | object (fields : List (Text × Json ν))

namespace Json

variable {ν : Type}

/-- Induction on a value, with what holds of every item and of every member. -/
@[elab_as_elim]
theorem induction {motive : Json ν → Prop} (null : motive .null) (bool : ∀ b, motive (.bool b))
    (number : ∀ n, motive (.number n)) (string : ∀ text, motive (.string text))
    (array : ∀ items, (∀ item ∈ items, motive item) → motive (.array items))
    (object : ∀ fields : List (Text × Json ν), (∀ field ∈ fields, motive field.2) →
      motive (.object fields)) (value : Json ν) : motive value := by
  refine Json.rec (motive_1 := motive) (motive_2 := fun items => ∀ item ∈ items, motive item)
    (motive_3 := fun fields => ∀ field ∈ fields, motive field.2)
    (motive_4 := fun field => motive field.2) null bool number string
    array object ?_ ?_ ?_ ?_ (fun _ _ h => h) value
  · exact fun _ h => absurd h List.not_mem_nil
  · exact fun _ _ hhead htail => List.forall_mem_cons.mpr ⟨hhead, htail⟩
  · exact fun _ h => absurd h List.not_mem_nil
  · exact fun _ _ hhead htail => List.forall_mem_cons.mpr ⟨hhead, htail⟩

/-! ## Maps -/

/-- The entries of a map. -/
abbrev Fields (ν : Type) := List (Text × Json ν)

namespace Fields

def get (key : Text) : Fields ν → Option (Json ν)
  | [] => none
  | (k, value) :: rest => if k = key then some value else get key rest

def insert (key : Text) (value : Json ν) : Fields ν → Fields ν
  | [] => [(key, value)]
  | (k, v) :: rest =>
    if k = key then (key, value) :: rest
    else if key < k then (key, value) :: (k, v) :: rest
    else (k, v) :: insert key value rest

def remove (key : Text) : Fields ν → Fields ν
  | [] => []
  | (k, v) :: rest => if k = key then rest else (k, v) :: remove key rest

/-- A new value for a key that is there. -/
def set (key : Text) (value : Json ν) : Fields ν → Fields ν
  | [] => []
  | (k, v) :: rest => if k = key then (key, value) :: rest else (k, v) :: set key value rest

end Fields

/-! ## Reading a value -/

def asArray : Json ν → Option (List (Json ν))
  | .array items => some items
  | _ => none

def asObject : Json ν → Option (Fields ν)
  | .object fields => some fields
  | _ => none

def asStr : Json ν → Option Text
  | .string text => some text
  | _ => none

/-- `value.get(key)`. -/
def get (value : Json ν) (key : Text) : Option (Json ν) := value.asObject.bind (Fields.get key)

/-- `value[key]`, which is null where there is no such member. -/
def index (value : Json ν) (key : Text) : Json ν := (value.get key).getD .null

/-! ## Equality and size -/

mutual

/-- serde's equality, which compares numbers its own way. -/
def beq [BEq ν] : Json ν → Json ν → Bool
  | .null, .null => true
  | .bool a, .bool b => a == b
  | .number a, .number b => a == b
  | .string a, .string b => a == b
  | .array a, .array b => beqItems a b
  | .object a, .object b => beqFields a b
  | _, _ => false

def beqItems [BEq ν] : List (Json ν) → List (Json ν) → Bool
  | [], [] => true
  | a :: as, b :: bs => beq a b && beqItems as bs
  | _, _ => false

def beqFields [BEq ν] : List (Text × Json ν) → List (Text × Json ν) → Bool
  | [], [] => true
  | (k, a) :: as, (l, b) :: bs => k == l && beq a b && beqFields as bs
  | _, _ => false

end

instance [BEq ν] : BEq (Json ν) := ⟨beq⟩

mutual

/-- Values in a value, itself included. -/
def nodes : Json ν → Nat
  | .array items => 1 + nodesItems items
  | .object fields => 1 + nodesFields fields
  | _ => 1

def nodesItems : List (Json ν) → Nat
  | [] => 0
  | item :: items => nodes item + nodesItems items

def nodesFields : List (Text × Json ν) → Nat
  | [] => 0
  | (_, value) :: fields => nodes value + nodesFields fields

end

mutual

/-- No array of the value holds more than `n`. -/
def ArraysLe (n : Nat) : Json ν → Prop
  | .array items => items.length ≤ n ∧ ItemsLe n items
  | .object fields => FieldsLe n fields
  | _ => True

def ItemsLe (n : Nat) : List (Json ν) → Prop
  | [] => True
  | item :: items => ArraysLe n item ∧ ItemsLe n items

def FieldsLe (n : Nat) : List (Text × Json ν) → Prop
  | [] => True
  | (_, value) :: fields => ArraysLe n value ∧ FieldsLe n fields

end

theorem itemsLe_iff {n : Nat} {items : List (Json ν)} :
    ItemsLe n items ↔ ∀ item ∈ items, ArraysLe n item := by
  induction items with
  | nil => simp [ItemsLe]
  | cons item items ih => simp [ItemsLe, ih]

theorem fieldsLe_iff {n : Nat} {fields : List (Text × Json ν)} :
    FieldsLe n fields ↔ ∀ field ∈ fields, ArraysLe n field.2 := by
  induction fields with
  | nil => simp [FieldsLe]
  | cons field fields ih => simp [FieldsLe, ih]

mutual

theorem ArraysLe.mono {n m : Nat} {value : Json ν} (h : ArraysLe n value) (hnm : n ≤ m) :
    ArraysLe m value :=
  match value, h with
  | .null, _ | .bool _, _ | .number _, _ | .string _, _ => trivial
  | .array _, h => ⟨h.1.trans hnm, ItemsLe.mono h.2 hnm⟩
  | .object _, h => FieldsLe.mono h hnm

theorem ItemsLe.mono {n m : Nat} {items : List (Json ν)} (h : ItemsLe n items) (hnm : n ≤ m) :
    ItemsLe m items :=
  match items, h with
  | [], _ => trivial
  | _ :: _, h => ⟨ArraysLe.mono h.1 hnm, ItemsLe.mono h.2 hnm⟩

theorem FieldsLe.mono {n m : Nat} {fields : List (Text × Json ν)} (h : FieldsLe n fields)
    (hnm : n ≤ m) : FieldsLe m fields :=
  match fields, h with
  | [], _ => trivial
  | (_, _) :: _, h => ⟨ArraysLe.mono h.1 hnm, FieldsLe.mono h.2 hnm⟩

end

/-! ## The entries after an update -/

namespace Fields

theorem mem_of_get {key : Text} {value : Json ν} {fields : Fields ν}
    (h : get key fields = some value) : (key, value) ∈ fields := by
  induction fields with
  | nil => simp [get] at h
  | cons field fields ih =>
      rw [get] at h
      split_ifs at h with hkey
      · cases h
        exact hkey ▸ List.mem_cons_self
      · exact List.mem_cons_of_mem _ (ih h)

theorem mem_insert {key : Text} {value : Json ν} {fields : Fields ν} {field : Text × Json ν}
    (h : field ∈ insert key value fields) : field = (key, value) ∨ field ∈ fields := by
  induction fields with
  | nil => simpa [insert] using h
  | cons first fields ih =>
      rw [insert] at h
      split_ifs at h
      · exact (List.mem_cons.1 h).imp_right (List.mem_cons_of_mem _)
      · exact List.mem_cons.1 h
      · obtain rfl | h := List.mem_cons.1 h
        · simp
        · exact (ih h).imp_right (List.mem_cons_of_mem _)

theorem mem_set {key : Text} {value : Json ν} {fields : Fields ν} {field : Text × Json ν}
    (h : field ∈ set key value fields) : field = (key, value) ∨ field ∈ fields := by
  induction fields with
  | nil => simp [set] at h
  | cons first fields ih =>
      rw [set] at h
      split_ifs at h
      · exact (List.mem_cons.1 h).imp_right (List.mem_cons_of_mem _)
      · obtain rfl | h := List.mem_cons.1 h
        · simp
        · exact (ih h).imp_right (List.mem_cons_of_mem _)

theorem mem_of_mem_remove {key : Text} {fields : Fields ν} {field : Text × Json ν}
    (h : field ∈ remove key fields) : field ∈ fields := by
  induction fields with
  | nil => simp [remove] at h
  | cons first fields ih =>
      rw [remove] at h
      split_ifs at h
      · exact List.mem_cons_of_mem _ h
      · obtain rfl | h := List.mem_cons.1 h
        · simp
        · exact List.mem_cons_of_mem _ (ih h)

end Fields

/-! ## Writing a string -/

/-- A lower-case hexadecimal digit. -/
def hexDigit (n : Nat) : Char := if n < 10 then Char.ofNat (48 + n) else Char.ofNat (87 + n)

/-- A character inside a string. -/
def escape (c : Char) : Text :=
  if c = '"' then ['\\', '"']
  else if c = '\\' then ['\\', '\\']
  else if c.toNat = 8 then ['\\', 'b']
  else if c = '\t' then ['\\', 't']
  else if c = '\n' then ['\\', 'n']
  else if c.toNat = 12 then ['\\', 'f']
  else if c = '\r' then ['\\', 'r']
  else if c.toNat < 32 then
    ['\\', 'u', '0', '0', hexDigit (c.toNat / 16), hexDigit (c.toNat % 16)]
  else [c]

/-- The text between the quotes. -/
def escaped (text : Text) : Text := text.flatMap escape

/-- A string, as it is written. -/
def quote (text : Text) : Text := '"' :: escaped text ++ ['"']

@[simp] theorem escaped_nil : escaped [] = [] := rfl

@[simp] theorem escaped_cons (c : Char) (text : Text) :
    escaped (c :: text) = escape c ++ escaped text := rfl

@[simp] theorem escaped_append (a b : Text) : escaped (a ++ b) = escaped a ++ escaped b :=
  List.flatMap_append ..

/-- A character is itself, or a backslash and characters that are printable. -/
theorem escape_cases (c : Char) :
    escape c = [c] ∧ c ≠ '"' ∧ c ≠ '\\' ∨
      ∃ rest, escape c = '\\' :: rest ∧ rest ≠ [] ∧ ':' ∉ rest ∧ '/' ∉ rest := by
  unfold escape
  split_ifs with h1 h2 h3 h4 h5 h6 h7 h8
  all_goals first
    | exact .inl ⟨rfl, h1, h2⟩
    | refine .inr ⟨_, rfl, by simp, ?_, ?_⟩ <;> first | decide | skip
  all_goals
    have hlt : ∀ n : Fin 32, ':' ∉ ['u', '0', '0', hexDigit (n.val / 16), hexDigit (n.val % 16)] ∧
      '/' ∉ ['u', '0', '0', hexDigit (n.val / 16), hexDigit (n.val % 16)] := by decide
  · exact (hlt ⟨c.toNat, h8⟩).1
  · exact (hlt ⟨c.toNat, h8⟩).2

theorem escape_of_plain {c : Char} (hquote : c ≠ '"') (hback : c ≠ '\\') (hc : 32 ≤ c.toNat) :
    escape c = [c] := by
  unfold escape
  have htab : c ≠ '\t' := by
    rintro rfl
    exact absurd hc (by decide)
  have hnewline : c ≠ '\n' := by
    rintro rfl
    exact absurd hc (by decide)
  have hreturn : c ≠ '\r' := by
    rintro rfl
    exact absurd hc (by decide)
  rw [if_neg hquote, if_neg hback, if_neg (by omega), if_neg htab, if_neg hnewline,
    if_neg (by omega), if_neg hreturn, if_neg (by omega)]

/-- Printable text without quotes or backslashes is written as it is. -/
theorem escaped_of_plain {text : Text}
    (h : ∀ c ∈ text, c ≠ '"' ∧ c ≠ '\\' ∧ 32 ≤ c.toNat) : escaped text = text := by
  induction text with
  | nil => rfl
  | cons c text ih =>
      obtain ⟨hquote, hback, hc⟩ := h c (by simp)
      rw [escaped_cons, escape_of_plain hquote hback hc, ih fun d hd => h d (by simp [hd])]
      rfl

end Json
end Lib
