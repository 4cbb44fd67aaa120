import RedfishProxy.Http.Swap

/-!
# What the swap does to a text

`scan` cuts a text into the URLs the loop takes and the text between them;
`swap` puts it back together with the accepted authorities replaced. Neither
mentions an offset. `swapAuthorities_eq` is the refinement: the loop of
`Http.Swap` never panics, never runs out of fuel, and answers `swap`.

The invariant that carries it is `Aligned`: at every turn the cursor stands at
the start, just behind a slash, before a delimiter or at the end, so the
backward scan for the scheme, which reads the whole prefix, never crosses it.
-/

namespace RedfishProxy.Http

open Lib

/-- `://`. -/
abbrev sep : Text := [':', '/', '/']

/-- A piece of a text as the loop cuts it. -/
inductive Piece where
  | plain (text : Text)
  | url (scheme authority : Text)
  deriving DecidableEq

namespace Piece

/-- The text a piece was cut from. -/
def source : Piece → Text
  | .plain text => text
  | .url scheme authority => scheme ++ sep ++ authority

/-- The text a piece is replaced by. -/
def render (base : Text) (wanted : Text → Bool) : Piece → Text
  | .plain text => text
  | .url scheme authority =>
    if wanted authority then base else scheme ++ sep ++ authority

end Piece

/-- The run of scheme characters that ends a text. -/
def schemeRun (before : Text) : Text := before.rtakeWhile isSchemeChar

/-- What stands before that run. -/
def beforeRun (before : Text) : Text := before.rdropWhile isSchemeChar

/-- A scheme must begin with a letter. -/
def isScheme (run : Text) : Bool := run.head?.any Char.isAlpha

/-- The authority that starts a text. -/
def authorityOf (after : Text) : Text := after.takeWhile fun c => !isDelimiter c

/-- What stands behind that authority. -/
def afterAuthority (after : Text) : Text := after.dropWhile fun c => !isDelimiter c

@[simp] theorem beforeRun_append_schemeRun (before t : Text) :
    beforeRun before ++ (schemeRun before ++ t) = before ++ t := by
  rw [← List.append_assoc]
  exact congrArg (· ++ t) (List.rdropWhile_append_rtakeWhile ..)

@[simp] theorem authorityOf_append_afterAuthority (after : Text) :
    authorityOf after ++ afterAuthority after = after := List.takeWhile_append_dropWhile

theorem length_afterAuthority_le (after : Text) :
    (afterAuthority after).length ≤ after.length :=
  (List.dropWhile_sublist _).length_le

theorem length_of_splitOnce {text before after : Text}
    (h : text.splitOnce sep = some (before, after)) : after.length < text.length := by
  rw [Text.splitOnce_eq_some h]
  simp
  omega

/-- The cut of a text, URL by URL. -/
def scan (text : Text) : List Piece :=
  match _h : text.splitOnce sep with
  | none => [.plain text]
  | some (before, after) =>
    if isScheme (schemeRun before) then
      .plain (beforeRun before) :: .url (schemeRun before) (authorityOf after) ::
        scan (afterAuthority after)
    else .plain (before ++ sep) :: scan after
termination_by text.length
decreasing_by
  · have := length_of_splitOnce _h
    have := length_afterAuthority_le after
    omega
  · exact length_of_splitOnce _h

/-- The text with every accepted `scheme://authority` replaced by `base`. -/
def swap (base : Text) (wanted : Text → Bool) (text : Text) : Text :=
  (scan text).flatMap (Piece.render base wanted)

/-! ## The equations of the scan -/

theorem scan_none {text : Text} (h : text.splitOnce sep = none) :
    scan text = [.plain text] := by
  rw [scan]
  split
  · rfl
  · rename_i hs
    rw [h] at hs
    cases hs

theorem scan_skip {text before after : Text} (h : text.splitOnce sep = some (before, after))
    (hs : isScheme (schemeRun before) = false) :
    scan text = .plain (before ++ sep) :: scan after := by
  rw [scan]
  split
  · rename_i hn
    rw [h] at hn
    cases hn
  · rename_i b a hsome
    obtain ⟨rfl, rfl⟩ : before = b ∧ after = a := by simpa [h] using hsome
    simp [hs]

theorem scan_url {text before after : Text} (h : text.splitOnce sep = some (before, after))
    (hs : isScheme (schemeRun before) = true) :
    scan text = .plain (beforeRun before) :: .url (schemeRun before) (authorityOf after) ::
      scan (afterAuthority after) := by
  rw [scan]
  split
  · rename_i hn
    rw [h] at hn
    cases hn
  · rename_i b a hsome
    obtain ⟨rfl, rfl⟩ : before = b ∧ after = a := by simpa [h] using hsome
    simp [hs]

/-- Induction along the cut: the three ways a turn of the loop can go. -/
theorem scan_induction {motive : Text → Prop}
    (plain : ∀ text, text.splitOnce sep = none → motive text)
    (skip : ∀ text before after, text.splitOnce sep = some (before, after) →
      isScheme (schemeRun before) = false → motive after → motive text)
    (url : ∀ text before after, text.splitOnce sep = some (before, after) →
      isScheme (schemeRun before) = true → motive (afterAuthority after) → motive text) :
    ∀ text, motive text := by
  intro text
  induction hn : text.length using Nat.strong_induction_on generalizing text with
  | _ n ih =>
      subst hn
      cases hsplit : text.splitOnce sep with
      | none => exact plain text hsplit
      | some p =>
          obtain ⟨before, after⟩ := p
          have hlt := length_of_splitOnce hsplit
          cases hs : isScheme (schemeRun before) with
          | false => exact skip text before after hsplit hs (ih _ hlt _ rfl)
          | true =>
              have hle := length_afterAuthority_le after
              exact url text before after hsplit hs (ih _ (by omega) _ rfl)

theorem swap_none {base : Text} {wanted : Text → Bool} {text : Text}
    (h : text.splitOnce sep = none) : swap base wanted text = text := by
  simp [swap, scan_none h, Piece.render]

theorem swap_skip {base : Text} {wanted : Text → Bool} {text before after : Text}
    (h : text.splitOnce sep = some (before, after))
    (hs : isScheme (schemeRun before) = false) :
    swap base wanted text = before ++ sep ++ swap base wanted after := by
  simp [swap, scan_skip h hs, Piece.render]

theorem swap_url {base : Text} {wanted : Text → Bool} {text before after : Text}
    (h : text.splitOnce sep = some (before, after))
    (hs : isScheme (schemeRun before) = true) :
    swap base wanted text = beforeRun before ++
      (if wanted (authorityOf after) then base
        else schemeRun before ++ sep ++ authorityOf after) ++
      swap base wanted (afterAuthority after) := by
  simp [swap, scan_url h hs, Piece.render]

/-- The pieces are cuts of the text, in order and with nothing lost. -/
theorem source_scan (text : Text) : (scan text).flatMap Piece.source = text := by
  induction text using scan_induction with
  | plain text h => simp [scan_none h, Piece.source]
  | skip text before after h hs ih =>
      rw [scan_skip h hs, List.flatMap_cons, ih, Text.splitOnce_eq_some h]
      rfl
  | url text before after h hs ih =>
      rw [scan_url h hs, List.flatMap_cons, List.flatMap_cons, ih, Text.splitOnce_eq_some h]
      simp only [Piece.source, List.append_assoc, beforeRun_append_schemeRun,
        authorityOf_append_afterAuthority]

/-! ## Reading the scheme backwards -/

theorem charIndices_concat (offset : Nat) (t : Text) (c : Char) :
    charIndices offset (t ++ [c]) =
      charIndices offset t ++ [(offset + t.byteLen, c)] := by
  induction t generalizing offset with
  | nil => simp [charIndices]
  | cons d t ih => simp [charIndices, ih, Nat.add_assoc]

/-- The loop of `scheme_start` stops where the run of scheme characters does. -/
theorem schemeLoop_eq (t : Text) :
    schemeLoop (charIndices 0 t).reverse t.byteLen = (beforeRun t).byteLen := by
  induction t using List.reverseRecOn with
  | nil => rfl
  | append_singleton t c ih =>
      rw [charIndices_concat, List.reverse_append]
      by_cases hc : isSchemeChar c = true
      · simpa [schemeLoop, hc, beforeRun, List.rdropWhile_concat_pos] using ih
      · simp [schemeLoop, hc, beforeRun, List.rdropWhile_concat_neg]

theorem schemeStart_eq (before after : Text) :
    schemeStart (before ++ sep ++ after) before.byteLen =
      some (if isScheme (schemeRun before) then (beforeRun before).byteLen
        else before.byteLen) := by
  have hslice : (before ++ sep ++ after).slice? (beforeRun before).byteLen before.byteLen =
      some (schemeRun before) :=
    Text.slice?_cut (List.append_assoc ..) (by simpa using (beforeRun_append_schemeRun before []).symm)
  rw [schemeStart, List.append_assoc, Text.sliceTo?_append, ← List.append_assoc]
  simp only [Option.bind_eq_bind, Option.bind_some, schemeLoop_eq, hslice]
  cases hrun : (schemeRun before).head? with
  | none => simp [isScheme, hrun]
  | some first => by_cases hf : first.isAlpha <;> simp [isScheme, hrun, hf]

/-! ## The refinement -/

/-- Where the cursor can stand: nothing scheme-shaped reaches back over it. -/
def Aligned (pre rest : Text) : Prop :=
  (∀ c, pre.getLast? = some c → c = '/') ∨ ∀ c, rest.head? = some c → isDelimiter c = true

theorem isSchemeChar_of_isDelimiter {c : Char} (h : isDelimiter c = true) :
    isSchemeChar c = false := by
  simp only [isDelimiter, List.mem_cons, List.not_mem_nil, or_false, decide_eq_true_eq] at h
  rcases h with rfl | rfl | rfl | rfl | rfl | rfl | rfl | rfl | rfl | rfl <;> decide

theorem ne_colon_of_isDelimiter {c : Char} (h : isDelimiter c = true) : c ≠ ':' := by
  rintro rfl
  exact absurd h (by decide)

/-- At an aligned cursor the scheme is read off the text behind it alone. -/
theorem schemeRun_aligned {pre rest before after : Text} (hal : Aligned pre rest)
    (h : rest = before ++ sep ++ after) : schemeRun (pre ++ before) = schemeRun before := by
  rcases hal with hpre | hrest
  · cases hlast : pre.getLast? with
    | none => simp [List.getLast?_eq_none_iff.mp hlast]
    | some c =>
        obtain ⟨front, rfl⟩ := List.getLast?_eq_some_iff.mp hlast
        rw [hpre c hlast, List.append_assoc]
        exact Text.rtakeWhile_stop (by decide) front before
  · cases before with
    | nil => exact absurd (hrest ':' (by simp [h])) (by decide)
    | cons d before =>
        have hd := isSchemeChar_of_isDelimiter (hrest d (by simp [h]))
        rw [schemeRun, schemeRun, Text.rtakeWhile_stop hd]
        exact (Text.rtakeWhile_stop hd [] before).symm

theorem beforeRun_aligned {pre rest before after : Text} (hal : Aligned pre rest)
    (h : rest.splitOnce sep = some (before, after)) :
    beforeRun (pre ++ before) = pre ++ beforeRun before := by
  have hboth : beforeRun (pre ++ before) ++ schemeRun before =
      (pre ++ beforeRun before) ++ schemeRun before := by
    have hwhole := beforeRun_append_schemeRun (pre ++ before) []
    have hpart := beforeRun_append_schemeRun before []
    rw [schemeRun_aligned hal (Text.splitOnce_eq_some h)] at hwhole
    simp only [List.append_nil] at hwhole hpart
    rw [hwhole, List.append_assoc, hpart]
  exact List.append_cancel_right hboth

/-- The start of the URL at the first `://` behind an aligned cursor. -/
theorem schemeStart_aligned {pre rest before after : Text} (hal : Aligned pre rest)
    (h : rest.splitOnce sep = some (before, after)) :
    schemeStart (pre ++ rest) (pre.byteLen + before.byteLen) =
      some (if isScheme (schemeRun before) then (pre ++ beforeRun before).byteLen
        else pre.byteLen + before.byteLen) := by
  have hstart := schemeStart_eq (pre ++ before) after
  rw [schemeRun_aligned hal (Text.splitOnce_eq_some h), beforeRun_aligned hal h] at hstart
  rw [Text.splitOnce_eq_some h, ← Text.byteLen_append, ← hstart]
  simp

section Turn

variable {base pre rest before after : Text} {wanted : Text → Bool}

theorem find_sep (h : rest.splitOnce sep = some (before, after)) :
    rest.find "://".toList = some before.byteLen := by
  rw [Text.find_eq, show "://".toList = sep from rfl, h]
  rfl

/-- The byte behind a `://` that ends a text. -/
theorem byteLen_sep (t : Text) : t.byteLen + 3 = (t ++ sep).byteLen := by
  rw [Text.byteLen_append]
  rfl

theorem swapTurn_none (out : Text) (h : rest.splitOnce sep = none) :
    swapTurn base (pre ++ rest) wanted pre.byteLen out = some (.finished (out ++ rest)) := by
  have hfind : rest.find "://".toList = none := by
    rw [Text.find_eq, show "://".toList = sep from rfl, h]
    rfl
  rw [swapTurn, Text.sliceFrom?_append]
  simp only [Option.bind_eq_bind, Option.bind_some, hfind]
  rfl

theorem swapTurn_skip (out : Text) (hal : Aligned pre rest)
    (h : rest.splitOnce sep = some (before, after))
    (hs : isScheme (schemeRun before) = false) :
    swapTurn base (pre ++ rest) wanted pre.byteLen out =
      some (.next (pre ++ (before ++ sep)).byteLen (out ++ (before ++ sep))) := by
  have hstart := schemeStart_aligned hal h
  rw [if_neg (by simp [hs])] at hstart
  have hslice : (pre ++ rest).slice? pre.byteLen (pre ++ (before ++ sep)).byteLen =
      some (before ++ sep) :=
    Text.slice?_cut (c := after) (by simp [Text.splitOnce_eq_some h]) rfl
  rw [swapTurn, Text.sliceFrom?_append]
  simp only [Option.bind_eq_bind, Option.bind_some, find_sep h, hstart, if_true]
  rw [← Text.byteLen_append, byteLen_sep, List.append_assoc, hslice]
  rfl

theorem swapTurn_url (out : Text) (hal : Aligned pre rest)
    (h : rest.splitOnce sep = some (before, after))
    (hs : isScheme (schemeRun before) = true) :
    swapTurn base (pre ++ rest) wanted pre.byteLen out =
      some (.next (pre ++ (before ++ sep ++ authorityOf after)).byteLen
        (out ++ (beforeRun before ++
          if wanted (authorityOf after) then base
          else schemeRun before ++ sep ++ authorityOf after))) := by
  have hstart := schemeStart_aligned hal h
  rw [if_pos hs] at hstart
  -- The whole text, and its prefix that ends with the authority.
  have htext : pre ++ rest = pre ++ before ++ sep ++ after := by
    simp [Text.splitOnce_eq_some h]
  have hupto : pre ++ rest = pre ++ before ++ sep ++ authorityOf after ++
      afterAuthority after := by
    rw [htext, List.append_assoc _ (authorityOf after), authorityOf_append_afterAuthority]
  have hne : (pre ++ beforeRun before).byteLen ≠ pre.byteLen + before.byteLen := by
    intro heq
    have hrun : schemeRun before = [] := by
      have hlen := congrArg Text.byteLen (beforeRun_append_schemeRun before [])
      simp only [Text.byteLen_append, Text.byteLen_nil] at heq hlen
      exact Text.byteLen_eq_zero.mp (by omega)
    rw [hrun] at hs
    exact absurd hs (by decide)
  have hrest : (pre ++ rest).sliceFrom? (pre ++ before ++ sep).byteLen = some after := by
    rw [htext]
    exact Text.sliceFrom?_append _ _
  have hend : (pre ++ before ++ sep).byteLen + (after.findChar isDelimiter).getD
      ((pre ++ rest).byteLen - (pre ++ before ++ sep).byteLen) =
        (pre ++ before ++ sep ++ authorityOf after).byteLen := by
    rw [htext, Text.byteLen_append _ after, Nat.add_sub_cancel_left, Text.findChar_eq,
      ← Text.byteLen_append]
    rfl
  have hfront : (pre ++ rest).slice? pre.byteLen (pre ++ beforeRun before).byteLen =
      some (beforeRun before) :=
    Text.slice?_cut (c := schemeRun before ++ (sep ++ after)) (by simp [htext]) rfl
  have hauthority : (pre ++ rest).slice? (pre ++ before ++ sep).byteLen
      (pre ++ before ++ sep ++ authorityOf after).byteLen = some (authorityOf after) :=
    Text.slice?_cut hupto rfl
  have hkept : (pre ++ rest).slice? (pre ++ beforeRun before).byteLen
      (pre ++ before ++ sep ++ authorityOf after).byteLen =
        some (schemeRun before ++ sep ++ authorityOf after) :=
    Text.slice?_cut hupto (by simp)
  rw [swapTurn, Text.sliceFrom?_append]
  simp only [Option.bind_eq_bind, Option.bind_some, find_sep h, hstart, if_neg hne]
  rw [← Text.byteLen_append, byteLen_sep]
  simp only [hrest, Option.bind_some, hend, hfront, hauthority, hkept]
  by_cases hw : wanted (authorityOf after) = true <;> simp [hw]

end Turn

/-- Behind a skipped `://` the cursor is behind a slash. -/
theorem aligned_skip (pre before after : Text) : Aligned (pre ++ (before ++ sep)) after := by
  left
  intro c hc
  rw [← List.append_assoc, List.getLast?_append] at hc
  simpa using hc.symm

/-- An authority ends at a delimiter. -/
theorem head_afterAuthority {after : Text} {c : Char}
    (h : (afterAuthority after).head? = some c) : isDelimiter c = true := by
  have hhead := List.head?_dropWhile_not (fun c => !isDelimiter c) after
  unfold afterAuthority at h
  rw [h] at hhead
  simpa using hhead

/-- Behind an authority it is at a delimiter or at the end. -/
theorem aligned_url (pre after : Text) : Aligned pre (afterAuthority after) :=
  .inr fun _ => head_afterAuthority

/-- The loop, from any aligned cursor, with fuel for one turn a character. -/
theorem swapLoop_eq (base : Text) (wanted : Text → Bool) :
    ∀ (rest pre out : Text) (fuel : Nat), Aligned pre rest → rest.length < fuel →
      swapLoop base (pre ++ rest) wanted fuel pre.byteLen out =
        some (out ++ swap base wanted rest) := by
  intro rest
  induction rest using scan_induction with
  | plain rest h =>
      intro pre out fuel _ hfuel
      obtain ⟨fuel, rfl⟩ := Nat.exists_eq_succ_of_ne_zero (by omega : fuel ≠ 0)
      rw [swapLoop, swapTurn_none out h, swap_none h]
  | skip rest before after h hs ih =>
      intro pre out fuel hal hfuel
      obtain ⟨fuel, rfl⟩ := Nat.exists_eq_succ_of_ne_zero (by omega : fuel ≠ 0)
      have hlt := length_of_splitOnce h
      rw [swapLoop, swapTurn_skip out hal h hs, swap_skip h hs]
      have hrest : pre ++ rest = (pre ++ (before ++ sep)) ++ after := by
        simp [Text.splitOnce_eq_some h]
      show swapLoop base (pre ++ rest) wanted fuel (pre ++ (before ++ sep)).byteLen
        (out ++ (before ++ sep)) = _
      rw [hrest, ih _ _ fuel (aligned_skip pre before after) (by omega), List.append_assoc]
  | url rest before after h hs ih =>
      intro pre out fuel hal hfuel
      obtain ⟨fuel, rfl⟩ := Nat.exists_eq_succ_of_ne_zero (by omega : fuel ≠ 0)
      have hlt := length_of_splitOnce h
      have hle := length_afterAuthority_le after
      rw [swapLoop, swapTurn_url out hal h hs, swap_url h hs]
      have hrest : pre ++ rest = (pre ++ (before ++ sep ++ authorityOf after)) ++
          afterAuthority after := by
        simp [Text.splitOnce_eq_some h]
      show swapLoop base (pre ++ rest) wanted fuel
        (pre ++ (before ++ sep ++ authorityOf after)).byteLen _ = _
      rw [hrest, ih _ _ fuel (aligned_url _ after) (by omega), List.append_assoc]

/-- **The swap refines its specification.** On every text the loop ends, no
slice panics, and the answer is the text with every accepted authority
replaced by the base without its trailing slashes. -/
theorem swapAuthorities_eq (base text : Text) (wanted : Text → Bool) :
    swapAuthorities base text wanted =
      some (swap (base.trimEndMatches '/') wanted text) := by
  have hlen : text.length ≤ text.byteLen := by
    induction text with
    | nil => exact Nat.le_refl 0
    | cons c text ih =>
        have := c.utf8Size_pos
        rw [List.length_cons, Text.byteLen_cons]
        omega
  exact swapLoop_eq _ wanted text [] [] _ (.inl (by simp)) (by omega)

/-- The `contains("://")` test in front of it makes no difference. -/
theorem rewriteText_eq (target : SocketAddrV4) (base text : Text) :
    rewriteText target base text =
      some (swap (base.trimEndMatches '/') (isTarget · target) text) := by
  rw [rewriteText]
  split
  · exact swapAuthorities_eq ..
  · rename_i hno
    have hnone : text.splitOnce sep = none := by
      rw [containsSep, Text.find_eq, Option.isSome_map, Bool.not_eq_true,
        Option.isSome_eq_false_iff, Option.isNone_iff_eq_none] at hno
      exact hno
    rw [swap_none hnone]

end RedfishProxy.Http
