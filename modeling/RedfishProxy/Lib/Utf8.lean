import RedfishProxy.Lib.Text

/-!
# Where a text can be cut

`splitAt?` is defined on the characters. It succeeds at just the offsets Rust
calls character boundaries, which are told from the bytes alone: the end of the
text, and the first byte of a character (`isSome_splitAt?_iff`).
-/

namespace Lib.Text

/-- The bytes of a text. -/
def utf8 (t : Text) : List UInt8 := t.flatMap String.utf8EncodeChar

@[simp] theorem length_utf8 (t : Text) : t.utf8.length = t.byteLen := by
  induction t with
  | nil => rfl
  | cons c t ih =>
      rw [byteLen_cons, ← ih, utf8, List.flatMap_cons, List.length_append,
        String.length_utf8EncodeChar]
      rfl

/-- `str::is_char_boundary`, by the bytes: the end, or where a character starts. -/
def IsBoundary (t : Text) (i : Nat) : Prop :=
  i = t.byteLen ∨ ∃ b, t.utf8[i]? = some b ∧ b.IsUTF8FirstByte

/-- Inside the first character only its first byte starts one. -/
theorem isBoundary_head {c : Char} {t : Text} {i : Nat} (h : i < c.utf8Size) :
    IsBoundary (c :: t) i ↔ i = 0 := by
  have hlen : i < (String.utf8EncodeChar c).length := by rwa [String.length_utf8EncodeChar]
  have hbyte : (utf8 (c :: t))[i]? = some (String.utf8EncodeChar c)[i] := by
    rw [utf8, List.flatMap_cons, List.getElem?_append_left hlen, List.getElem?_eq_getElem hlen]
  have hend : i ≠ byteLen (c :: t) := by
    rw [byteLen_cons]
    omega
  unfold IsBoundary
  rw [hbyte, ← UInt8.isUTF8FirstByte_getElem_utf8EncodeChar]
  constructor
  · rintro (heq | ⟨b, hb, hfirst⟩)
    · exact absurd heq hend
    · obtain rfl := Option.some.inj hb
      exact hfirst
  · exact fun hfirst => .inr ⟨_, rfl, hfirst⟩

/-- Behind it the boundaries are those of the rest. -/
theorem isBoundary_tail {c : Char} {t : Text} {i : Nat} :
    IsBoundary (c :: t) (c.utf8Size + i) ↔ IsBoundary t i := by
  have hbyte : (utf8 (c :: t))[c.utf8Size + i]? = t.utf8[i]? := by
    rw [utf8, List.flatMap_cons, List.getElem?_append_right (by simp),
      String.length_utf8EncodeChar, Nat.add_sub_cancel_left]
    rfl
  unfold IsBoundary
  rw [hbyte, byteLen_cons, Nat.add_left_cancel_iff]

/-- **A text splits** at its boundaries, and nowhere else. -/
theorem isSome_splitAt?_iff {t : Text} {i : Nat} : (t.splitAt? i).isSome ↔ IsBoundary t i := by
  induction t generalizing i with
  | nil =>
      cases i with
      | zero => exact iff_of_true rfl (.inl rfl)
      | succ n =>
          refine iff_of_false (by simp [splitAt?]) ?_
          rintro (h | ⟨b, h, _⟩)
          · cases h
          · cases h
  | cons c t ih =>
      rcases Nat.lt_or_ge i c.utf8Size with hinside | hpast
      · rw [isBoundary_head hinside]
        cases i with
        | zero => exact iff_of_true rfl rfl
        | succ n =>
            rw [splitAt?, if_neg (by omega)]
            exact iff_of_false (by simp) (by simp)
      · obtain ⟨k, rfl⟩ := Nat.exists_eq_add_of_le hpast
        have hpos := c.utf8Size_pos
        obtain ⟨n, hn⟩ : ∃ n, c.utf8Size + k = n + 1 := ⟨c.utf8Size + k - 1, by omega⟩
        rw [isBoundary_tail, ← ih, hn, splitAt?, if_pos (by omega), Option.isSome_map,
          show n + 1 - c.utf8Size = k by omega]

theorem isBoundary_append (a b : Text) : IsBoundary (a ++ b) a.byteLen := by
  rw [← isSome_splitAt?_iff, splitAt?_append]
  rfl

theorem byteLen_of_sliceTo? {t a : Text} {i : Nat} (h : t.sliceTo? i = some a) :
    a.byteLen = i := by
  obtain ⟨⟨front, rest⟩, hsplit, rfl⟩ := Option.map_eq_some_iff.mp h
  exact (eq_of_splitAt? hsplit).2

/-- Of two prefixes the shorter one is a prefix of the other. -/
theorem prefix_of_byteLen_le {t a b : Text} (ha : a <+: t) (hb : b <+: t)
    (h : a.byteLen ≤ b.byteLen) : a <+: b := by
  rcases List.prefix_or_prefix_of_prefix ha hb with hab | ⟨rest, rfl⟩
  · exact hab
  · rw [byteLen_append] at h
    have hrest : rest = [] := byteLen_eq_zero.mp (by omega)
    exact ⟨[], by rw [hrest, List.append_nil, List.append_nil]⟩

end Lib.Text
