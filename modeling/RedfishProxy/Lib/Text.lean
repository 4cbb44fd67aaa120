import Mathlib.Algebra.Order.Ring.Nat
import Mathlib.Data.List.DropRight
import Mathlib.Data.List.TakeWhile

/-!
# UTF-8 text with byte offsets

A string is its list of characters, and an offset into it is a byte offset,
as in Rust. Slicing at an offset that is not a character boundary, or past the
end, is the panic of the source and is `none` here:

* `splitAt?`, `slice?` — `t.split_at(i)` and `&t[i..j]`;
* `find`, `findChar` — `t.find(pat)`, a byte offset;
* `splitOnce`, `rsplitOnce` — the same searches, answering the two halves.

The bridge between the two views is that the offsets a search answers are the
byte lengths of the prefixes it found (`find_eq`, `findChar_eq`), and that
slicing at such an offset never fails (`slice?_append`).
-/

namespace Lib

/-- A string, as its characters. -/
abbrev Text := List Char

-- What holds of every character or byte of a list is decided along the list,
-- not by trying every one there is.
instance (priority := 2000) decidableForallMem {α : Type} (p : α → Prop) [DecidablePred p]
    (l : List α) : Decidable (∀ a ∈ l, p a) :=
  List.decidableBAll p l

namespace Text

/-- Length in bytes of the UTF-8 encoding, which is Rust's `len`. -/
def byteLen (t : Text) : Nat := (t.map Char.utf8Size).sum

@[simp] theorem byteLen_nil : byteLen [] = 0 := rfl

@[simp] theorem byteLen_cons (c : Char) (t : Text) :
    byteLen (c :: t) = c.utf8Size + byteLen t := by simp [byteLen]

@[simp] theorem byteLen_append (a b : Text) :
    byteLen (a ++ b) = byteLen a + byteLen b := by simp [byteLen]

theorem byteLen_eq_zero {t : Text} : byteLen t = 0 ↔ t = [] := by
  cases t with
  | nil => simp
  | cons c t =>
      have := c.utf8Size_pos
      simp
      omega

/-! ## Slicing -/

/-- `t.split_at(i)`; `none` where Rust panics. -/
def splitAt? : Text → Nat → Option (Text × Text)
  | t, 0 => some ([], t)
  | [], _ + 1 => none
  | c :: t, n + 1 =>
    if c.utf8Size ≤ n + 1 then
      (splitAt? t (n + 1 - c.utf8Size)).map fun p => (c :: p.1, p.2)
    else none

/-- `&t[i..]`. -/
def sliceFrom? (t : Text) (i : Nat) : Option Text := (t.splitAt? i).map (·.2)

/-- `&t[..i]`. -/
def sliceTo? (t : Text) (i : Nat) : Option Text := (t.splitAt? i).map (·.1)

/-- `&t[i..j]`. -/
def slice? (t : Text) (i j : Nat) : Option Text :=
  if i ≤ j then (t.sliceTo? j).bind fun front => front.sliceFrom? i else none

@[simp] theorem splitAt?_append (a b : Text) :
    splitAt? (a ++ b) (byteLen a) = some (a, b) := by
  induction a with
  | nil => cases b <;> simp [splitAt?]
  | cons c a ih =>
      have hpos := c.utf8Size_pos
      obtain ⟨n, hn⟩ : ∃ n, c.utf8Size + byteLen a = n + 1 :=
        ⟨c.utf8Size + byteLen a - 1, by omega⟩
      rw [byteLen_cons, hn, List.cons_append, splitAt?, if_pos (by omega),
        show n + 1 - c.utf8Size = byteLen a by omega, ih]
      rfl

@[simp] theorem sliceFrom?_append (a b : Text) :
    sliceFrom? (a ++ b) (byteLen a) = some b := by simp [sliceFrom?]

@[simp] theorem sliceTo?_append (a b : Text) :
    sliceTo? (a ++ b) (byteLen a) = some a := by simp [sliceTo?]

/-- Slicing out the middle of three pieces, at the byte lengths that end them. -/
theorem slice?_append (a b c : Text) :
    slice? (a ++ b ++ c) (byteLen a) (byteLen (a ++ b)) = some b := by
  rw [slice?, if_pos (by simp), sliceTo?_append]
  exact sliceFrom?_append a b

/-- The same for a text known to be those three pieces. -/
theorem slice?_cut {t a b c ab : Text} (h : t = ab ++ c) (hab : ab = a ++ b) :
    slice? t (byteLen a) (byteLen ab) = some b := by
  rw [h, hab]
  exact slice?_append a b c

theorem eq_of_splitAt? {t a b : Text} {i : Nat} (h : splitAt? t i = some (a, b)) :
    t = a ++ b ∧ byteLen a = i := by
  induction t generalizing a i with
  | nil =>
      cases i with
      | zero =>
          obtain ⟨rfl, rfl⟩ : [] = a ∧ [] = b := by simpa [splitAt?] using h
          exact ⟨rfl, rfl⟩
      | succ n => cases h
  | cons c t ih =>
      cases i with
      | zero =>
          obtain ⟨rfl, rfl⟩ : [] = a ∧ c :: t = b := by simpa [splitAt?] using h
          exact ⟨rfl, rfl⟩
      | succ n =>
          rw [splitAt?] at h
          split at h
          · obtain ⟨⟨front, rest⟩, hsplit, heq⟩ := Option.map_eq_some_iff.mp h
            obtain ⟨rfl, rfl⟩ : c :: front = a ∧ rest = b := by simpa using heq
            obtain ⟨hfront, hlen⟩ := ih hsplit
            refine ⟨by rw [hfront]; rfl, ?_⟩
            rw [byteLen_cons]
            omega
          · cases h

/-- Short of any offset by less than a character there is a boundary. -/
theorem exists_cut {t : Text} {n : Nat} (h : n ≤ byteLen t) :
    ∃ a b, t = a ++ b ∧ byteLen a ≤ n ∧ n < byteLen a + 4 := by
  induction t generalizing n with
  | nil => exact ⟨[], [], rfl, by simp, by simp at h; simp; omega⟩
  | cons c t ih =>
      rw [byteLen_cons] at h
      by_cases hc : c.utf8Size ≤ n
      · obtain ⟨a, b, hsplit, hle, hlt⟩ := ih (n := n - c.utf8Size) (by omega)
        refine ⟨c :: a, b, by rw [hsplit]; rfl, ?_, ?_⟩
        · rw [byteLen_cons]
          omega
        · rw [byteLen_cons]
          omega
      · have hsize := c.utf8Size_le_four
        exact ⟨[], c :: t, rfl, by simp, by simp; omega⟩

/-! ## Searching -/

/-- `t.find(pat)`, as a byte offset. -/
def find : Text → Text → Option Nat
  | [], pat => if pat.isEmpty then some 0 else none
  | c :: t, pat =>
    if pat.isPrefixOf (c :: t) then some 0 else (find t pat).map (c.utf8Size + ·)

/-- `t.find(|c| p(c))`, as a byte offset. -/
def findChar (p : Char → Bool) : Text → Option Nat
  | [] => none
  | c :: t => if p c then some 0 else (findChar p t).map (c.utf8Size + ·)

/-- `t.split_once(pat)`. -/
def splitOnce : Text → Text → Option (Text × Text)
  | [], pat => if pat.isEmpty then some ([], []) else none
  | c :: t, pat =>
    if pat.isPrefixOf (c :: t) then some ([], (c :: t).drop pat.length)
    else (splitOnce t pat).map fun p => (c :: p.1, p.2)

/-- `t.rsplit_once(sep)` for one character. -/
def rsplitOnce (sep : Char) (t : Text) : Option (Text × Text) :=
  if sep ∈ t then
    some ((t.rdropWhile (· != sep)).dropLast, t.rtakeWhile (· != sep))
  else none

/-- `find` answers where the first half of `splitOnce` ends. -/
theorem find_eq (t pat : Text) :
    find t pat = (splitOnce t pat).map fun p => byteLen p.1 := by
  induction t with
  | nil => by_cases h : pat.isEmpty <;> simp [find, splitOnce, h]
  | cons c t ih =>
      by_cases h : pat.isPrefixOf (c :: t) = true
      · simp [find, splitOnce, h]
      · simp [find, splitOnce, h, ih, Function.comp_def]

/-- `findChar` answers the length of the run before the first hit, or nothing
when the run is the whole text. -/
theorem findChar_eq (p : Char → Bool) (t : Text) :
    (findChar p t).getD (byteLen t) = byteLen (t.takeWhile fun c => !p c) := by
  induction t with
  | nil => rfl
  | cons c t ih =>
      by_cases h : p c
      · simp [findChar, h]
      · cases hf : findChar p t <;> simp [findChar, h, hf] at ih ⊢ <;> omega

theorem splitOnce_eq_some {pat t a b : Text} (h : splitOnce t pat = some (a, b)) :
    t = a ++ pat ++ b := by
  induction t generalizing a with
  | nil =>
      simp only [splitOnce] at h
      split at h
      · simp_all
      · cases h
  | cons c t ih =>
      simp only [splitOnce] at h
      split at h
      · rename_i hp
        obtain ⟨rfl, rfl⟩ : [] = a ∧ (c :: t).drop pat.length = b := by simpa using h
        obtain ⟨s, hs⟩ := List.isPrefixOf_iff_prefix.mp hp
        rw [← hs]
        simp
      · obtain ⟨⟨a', b'⟩, hsplit, heq⟩ := Option.map_eq_some_iff.mp h
        obtain ⟨rfl, rfl⟩ : c :: a' = a ∧ b' = b := by simpa using heq
        simp [ih hsplit]

/-- The split is at the first occurrence: every other one starts later. -/
theorem splitOnce_first {pat t a b a' b' : Text} (h : splitOnce t pat = some (a, b))
    (hocc : t = a' ++ pat ++ b') : a.length ≤ a'.length := by
  induction t generalizing a a' with
  | nil =>
      simp only [splitOnce] at h
      split at h <;> simp_all
  | cons c t ih =>
      simp only [splitOnce] at h
      split at h
      · simp_all
      · rename_i hp
        obtain ⟨⟨p, q⟩, hsplit, heq⟩ := Option.map_eq_some_iff.mp h
        obtain ⟨rfl, rfl⟩ : c :: p = a ∧ q = b := by simpa using heq
        cases a' with
        | nil =>
            exact absurd (List.isPrefixOf_iff_prefix.mpr ⟨b', by simpa using hocc.symm⟩) hp
        | cons d a' =>
            obtain ⟨rfl, ht⟩ : c = d ∧ t = a' ++ pat ++ b' := by simpa using hocc
            simpa using ih hsplit ht

theorem splitOnce_eq_none {pat t a b : Text} (h : splitOnce t pat = none) :
    t ≠ a ++ pat ++ b := by
  induction t generalizing a with
  | nil =>
      simp only [splitOnce] at h
      split at h
      · cases h
      · intro ht
        simp_all
  | cons c t ih =>
      simp only [splitOnce] at h
      split at h
      · cases h
      · rename_i hp
        intro ht
        cases a with
        | nil => exact hp (List.isPrefixOf_iff_prefix.mpr ⟨b, by simpa using ht.symm⟩)
        | cons d a =>
            obtain ⟨rfl, htail⟩ : c = d ∧ t = a ++ pat ++ b := by simpa using ht
            exact ih (by simpa using h) htail

theorem rsplitOnce_eq_none {sep : Char} {t : Text} (h : sep ∉ t) :
    rsplitOnce sep t = none := by simp [rsplitOnce, h]

theorem rsplitOnce_append {sep : Char} {a b : Text} (h : sep ∉ b) :
    rsplitOnce sep (a ++ sep :: b) = some (a, b) := by
  have hrun : ∀ x ∈ b.reverse, (x != sep) = true := by
    intro x hx
    simp only [bne_iff_ne, ne_eq]
    rintro rfl
    exact h (by simpa using hx)
  have hrev : (a ++ sep :: b).reverse = b.reverse ++ sep :: a.reverse := by simp
  rw [rsplitOnce, if_pos (by simp)]
  simp only [List.rdropWhile, List.rtakeWhile, hrev]
  rw [List.dropWhile_append_of_pos hrun, List.takeWhile_append_of_pos hrun]
  simp

/-- What `rsplitOnce` answers, put back together. -/
theorem rsplitOnce_eq_some {sep : Char} {t a b : Text} (h : rsplitOnce sep t = some (a, b)) :
    t = a ++ sep :: b ∧ sep ∉ b := by
  have hmem : sep ∈ t := by
    by_contra hne
    rw [rsplitOnce_eq_none hne] at h
    cases h
  obtain ⟨b', a', hsplit, hb'⟩ := List.eq_append_cons_of_mem
    (show sep ∈ t.reverse by simpa using hmem)
  have ht : t = a'.reverse ++ sep :: b'.reverse := by
    rw [← List.reverse_reverse t, hsplit]
    simp
  rw [ht, rsplitOnce_append (by simpa using hb')] at h
  obtain ⟨rfl, rfl⟩ : a'.reverse = a ∧ b'.reverse = b := by simpa using h
  exact ⟨ht, by simpa using hb'⟩

/-! ## Runs read from the right -/

/-- A run read from the right does not see past a character that ends it. -/
theorem rtakeWhile_stop {p : Char → Bool} {c : Char} (hc : p c = false) (a b : Text) :
    (a ++ c :: b).rtakeWhile p = b.rtakeWhile p := by
  induction b using List.reverseRecOn with
  | nil => exact List.rtakeWhile_concat_neg _ _ _ (by simp [hc])
  | append_singleton b d ih =>
      rw [← List.cons_append, ← List.append_assoc]
      by_cases hd : p d = true
      · rw [List.rtakeWhile_concat_pos _ _ _ hd, List.rtakeWhile_concat_pos _ _ _ hd, ih]
      · rw [List.rtakeWhile_concat_neg _ _ _ hd, List.rtakeWhile_concat_neg _ _ _ hd]

/-- And what is dropped with it is dropped behind that character only. -/
theorem rdropWhile_stop {p : Char → Bool} {c : Char} (hc : p c = false) (a b : Text) :
    (a ++ c :: b).rdropWhile p = a ++ c :: b.rdropWhile p := by
  induction b using List.reverseRecOn with
  | nil => exact List.rdropWhile_concat_neg _ _ _ (by simp [hc])
  | append_singleton b d ih =>
      rw [← List.cons_append, ← List.append_assoc]
      by_cases hd : p d = true
      · rw [List.rdropWhile_concat_pos _ _ _ hd, List.rdropWhile_concat_pos _ _ _ hd, ih]
      · rw [List.rdropWhile_concat_neg _ _ _ hd, List.rdropWhile_concat_neg _ _ _ hd]
        simp

/-! ## ASCII case and trimming -/

theorem isUpper_toNat {c : Char} (h : c.isUpper = true) : 65 ≤ c.toNat ∧ c.toNat ≤ 90 := by
  obtain ⟨hlo, hhi⟩ := of_decide_eq_true h
  exact ⟨UInt32.le_iff_toNat_le.mp hlo, UInt32.le_iff_toNat_le.mp hhi⟩

theorem isLower_toNat {c : Char} (h : c.isLower = true) : 97 ≤ c.toNat ∧ c.toNat ≤ 122 := by
  obtain ⟨hlo, hhi⟩ := Bool.and_eq_true_iff.mp h
  exact ⟨UInt32.le_iff_toNat_le.mp (of_decide_eq_true hlo),
    UInt32.le_iff_toNat_le.mp (of_decide_eq_true hhi)⟩

theorem isAlpha_toNat {c : Char} (h : c.isAlpha = true) : 65 ≤ c.toNat := by
  rcases Bool.or_eq_true_iff.mp h with h | h
  · exact (isUpper_toNat h).1
  · have := (isLower_toNat h).1
    omega

theorem isDigit_toNat {c : Char} (h : c.isDigit = true) : c.toNat ≤ 57 :=
  (Char.isDigit_iff_toNat.mp h).2

theorem toNat_of_isAlphanum {c : Char} (h : c.isAlphanum = true) : c.toNat < 128 := by
  rcases Bool.or_eq_true_iff.mp h with h | h
  · rcases Bool.or_eq_true_iff.mp h with h | h
    · have := (isUpper_toNat h).2
      omega
    · have := (isLower_toNat h).2
      omega
  · have := isDigit_toNat h
    omega

/-- A fact of every ASCII character. -/
theorem ascii_cases {P : Char → Prop} (h : ∀ n : Fin 128, P (Char.ofNat n)) {c : Char}
    (hc : c.toNat < 128) : P c := by
  have := h ⟨c.toNat, hc⟩
  rwa [show Char.ofNat c.toNat = c from Char.ofNat_toNat c] at this

/-- Below the letters, lower-casing changes nothing and reaches nothing. -/
theorem toLower_eq_iff {c d : Char} (hd : d.toNat < 65) : c.toLower = d ↔ c = d := by
  unfold Char.toLower
  split
  · rename_i hupper
    have hlo : 65 ≤ c.toNat := UInt32.le_iff_toNat_le.mp hupper.1
    have hhi : c.toNat ≤ 90 := UInt32.le_iff_toNat_le.mp hupper.2
    constructor
    · rintro rfl
      have hval : (c.val + 32).toNat = c.toNat + 32 := by
        rw [UInt32.toNat_add]
        show (c.toNat + 32) % 4294967296 = _
        omega
      have hlt : (c.val + 32).toNat < 65 := hd
      omega
    · rintro rfl
      omega
  · exact Iff.rfl

/-- `eq_ignore_ascii_case`. `Char.toLower` touches the ASCII letters only. -/
def eqIgnoreAsciiCase (a b : Text) : Bool := a.map Char.toLower == b.map Char.toLower

/-- Letter case does not matter to a text without letters. -/
theorem eqIgnoreAsciiCase_iff {t : Text} (ht : ∀ c ∈ t, c.toNat < 65) (a : Text) :
    a.eqIgnoreAsciiCase t = true ↔ a = t := by
  unfold eqIgnoreAsciiCase
  rw [beq_iff_eq]
  induction t generalizing a with
  | nil => simp
  | cons d t ih =>
      have hd : d.toNat < 65 := ht d (by simp)
      have hself : d.toLower = d := (toLower_eq_iff hd).mpr rfl
      cases a with
      | nil => simp
      | cons c a =>
          simp only [List.map_cons, List.cons.injEq, hself, toLower_eq_iff hd]
          rw [ih (fun x hx => ht x (by simp [hx]))]

/-- `trim_end_matches(c)` for one character. -/
def trimEndMatches (c : Char) (t : Text) : Text := t.rdropWhile (· == c)

/-! ## Debug -/

/-- `char::escape_debug` as `str` uses it. Which characters are written as a
code point, for being unprintable or a grapheme extender, is the Unicode tables'
to say. -/
def escapeDebug (unprintable : Char → Bool) (c : Char) : Text :=
  if c = Char.ofNat 0 then ['\\', '0']
  else if c = '\t' then ['\\', 't']
  else if c = '\r' then ['\\', 'r']
  else if c = '\n' then ['\\', 'n']
  else if c = '"' then ['\\', '"']
  else if c = '\\' then ['\\', '\\']
  else if unprintable c then ['\\', 'u', '\x7b'] ++ Nat.toDigits 16 c.toNat ++ ['\x7d']
  else [c]

/-- The `{:?}` of a string. -/
def debug (unprintable : Char → Bool) (t : Text) : Text :=
  '"' :: t.flatMap (escapeDebug unprintable) ++ ['"']

end Text
end Lib
