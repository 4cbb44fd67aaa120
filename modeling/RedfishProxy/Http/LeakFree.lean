import RedfishProxy.Http.Leak

/-!
# The leaks of a swapped text

The swap removes a leak when the loop takes its URL and `is_target` accepts
the authority, and every other leak of the input comes through untouched
(`leaks_swap_iff`). What names a host behind a `://` is read up to a slash, so
the rest of the text can be swapped or not without changing it
(`namesHost_swap`).
-/

namespace RedfishProxy.Http

open Lib

/-! ## What `is_target` accepts -/

theorem eqIgnoreAsciiCase_display (t : Text) (ip : Ipv4Addr) :
    t.eqIgnoreAsciiCase ip.display = true ↔ t = ip.display :=
  Text.eqIgnoreAsciiCase_iff (fun _ => Ipv4Addr.toNat_of_mem_display) t

/-- The target alone, or the target and a port of at least one digit. -/
def IsBareTarget (target : SocketAddrV4) (authority : Text) : Prop :=
  authority = target.ip.display ∨
    ∃ digits, digits ≠ [] ∧ (∀ d ∈ digits, d.isDigit = true) ∧
      authority = target.ip.display ++ ':' :: digits

theorem isTarget_iff (authority : Text) (target : SocketAddrV4) :
    isTarget authority target = true ↔ IsBareTarget target authority := by
  unfold isTarget IsBareTarget
  constructor
  · intro h
    cases hsplit : authority.rsplitOnce ':' with
    | none =>
        rw [hsplit] at h
        exact .inl ((eqIgnoreAsciiCase_display ..).mp h)
    | some p =>
        obtain ⟨host, port⟩ := p
        obtain ⟨heq, _⟩ := Text.rsplitOnce_eq_some hsplit
        rw [hsplit] at h
        simp only at h
        split at h
        · rename_i hport
          simp only [Bool.and_eq_true, Bool.not_eq_true', List.isEmpty_eq_false_iff,
            List.all_eq_true] at hport
          rw [(eqIgnoreAsciiCase_display ..).mp h] at heq
          exact .inr ⟨port, hport.1, hport.2, heq⟩
        · exact .inl ((eqIgnoreAsciiCase_display ..).mp h)
  · intro h
    obtain rfl | ⟨digits, hne, hall, rfl⟩ := h
    · rw [Text.rsplitOnce_eq_none target.ip.colon_notMem_display]
      exact (eqIgnoreAsciiCase_display ..).mpr rfl
    · have hcolon : ':' ∉ digits := fun hmem => absurd (hall _ hmem) (by decide)
      rw [Text.rsplitOnce_append hcolon]
      have hport : (!digits.isEmpty && digits.all Char.isDigit) = true := by
        simp only [Bool.and_eq_true, Bool.not_eq_true', List.isEmpty_eq_false_iff,
          List.all_eq_true]
        exact ⟨hne, hall⟩
      simp only [hport, if_true]
      exact (eqIgnoreAsciiCase_display ..).mpr rfl

/-- A bare target ends in a digit. -/
theorem IsBareTarget.ne_concat_colon {target : SocketAddrV4} {authority : Text}
    (h : IsBareTarget target authority) (front : Text) : authority ≠ front ++ [':'] := by
  intro heq
  rcases h with h | ⟨digits, hne, hall, h⟩
  · obtain ⟨rest, last, hdisplay, hdigit⟩ := target.ip.display_eq_concat
    rw [h, hdisplay] at heq
    obtain rfl : last = ':' := by simpa using List.append_inj_right' heq rfl
    exact absurd hdigit (by decide)
  · obtain ⟨ds, last, rfl⟩ := List.eq_nil_or_concat digits |>.resolve_left hne
    rw [h, List.concat_eq_append, ← List.cons_append, ← List.append_assoc] at heq
    obtain rfl : last = ':' := by simpa using List.append_inj_right' heq rfl
    exact absurd (hall ':' (by simp)) (by decide)

/-! ## A host is read up to a slash -/

section Names

variable {ip : Ipv4Addr}

/-- Every character of an authority of the target, by where it stands. -/
theorem mem_isAuthorityOf {authority : Text} (h : IsAuthorityOf ip.display authority) {c : Char}
    (hc : c ∈ authority) : isUserinfoChar c = true ∨ c = '@' := by
  obtain ⟨user, port, rfl, huser, hport⟩ := h
  have hdigit : ∀ d : Char, d.isDigit = true → isUserinfoChar d = true := by
    intro d hd
    simp [isUserinfoChar, Char.isAlphanum, hd]
  rcases List.mem_append.mp hc with hc | hc
  · rcases List.mem_append.mp hc with hc | hc
    · rcases huser with rfl | ⟨name, rfl, hname⟩
      · simp at hc
      · rcases List.mem_append.mp hc with hc | hc
        · exact .inl (hname c hc)
        · exact .inr (by simpa using hc)
    · rcases Ipv4Addr.mem_display hc with hd | rfl
      · exact .inl (hdigit c hd)
      · exact .inl (by decide)
  · rcases hport with rfl | ⟨digits, rfl, hall⟩
    · simp at hc
    · rcases List.mem_cons.mp hc with rfl | hc
      · exact .inl (by decide)
      · exact .inl (hdigit c (hall c hc))

theorem slash_notMem_isAuthorityOf {authority : Text} (h : IsAuthorityOf ip.display authority) :
    '/' ∉ authority := by
  intro hmem
  rcases mem_isAuthorityOf h hmem with h | h <;> exact absurd h (by decide)

/-- What stands behind the slash does not matter. -/
theorem namesHost_slash (x y z : Text) (h : NamesHost ip.display (x ++ '/' :: y)) :
    NamesHost ip.display (x ++ '/' :: z) := by
  obtain ⟨authority, rest, heq, hauthority, hends⟩ := h
  rcases List.append_eq_append_iff.mp heq with ⟨w, hw, hy⟩ | ⟨w, rfl, hrest⟩
  · -- The authority stops at the slash: it holds none.
    cases w with
    | nil =>
        refine ⟨authority, '/' :: z, by simp [hw], hauthority, ?_⟩
        intro c hc
        obtain rfl : '/' = c := by simpa using hc
        decide
    | cons c w =>
        obtain ⟨rfl, _⟩ : '/' = c ∧ y = w ++ rest := by simpa using hy
        exact absurd (by simp [hw]) (slash_notMem_isAuthorityOf hauthority)
  · refine ⟨authority, w ++ '/' :: z, by simp, hauthority, ?_⟩
    intro c hc
    refine hends c ?_
    rw [hrest]
    cases w with
    | nil => simpa using hc
    | cons d w => simpa using hc

/-- An authority of the target that runs over a letter has an `@` behind it. -/
theorem at_mem_of_letter {p w : Text} {l : Char} (hl : l.isAlpha = true)
    (h : IsAuthorityOf ip.display (p ++ l :: w)) : '@' ∈ w := by
  obtain ⟨user, port, heq, huser, hport⟩ := h
  have hletter : l ∉ ip.display ++ port := by
    intro hmem
    have hge := Text.isAlpha_toNat hl
    rcases List.mem_append.mp hmem with hmem | hmem
    · have := Ipv4Addr.toNat_of_mem_display hmem
      omega
    · rcases hport with rfl | ⟨digits, rfl, hall⟩
      · simp at hmem
      · rcases List.mem_cons.mp hmem with rfl | hmem
        · exact absurd hl (by decide)
        · have := Text.isDigit_toNat (hall l hmem)
          omega
  rw [List.append_assoc] at heq
  rcases List.append_eq_append_iff.mp heq with ⟨v, hv, hw⟩ | ⟨v, _, hw⟩
  · cases v with
    | nil =>
        rw [List.nil_append] at hw
        exact absurd (hw ▸ List.mem_cons_self) hletter
    | cons c v =>
        obtain ⟨rfl, rfl⟩ : l = c ∧ w = v ++ (ip.display ++ port) := by simpa using hw
        rcases huser with rfl | ⟨name, rfl, _⟩
        · simp at hv
        · have hlast := congrArg List.getLast? hv
          rw [List.getLast?_concat, List.getLast?_append, List.getLast?_cons] at hlast
          cases hvlast : v.getLast? with
          | none =>
              rw [hvlast] at hlast
              obtain rfl : '@' = l := by simpa using hlast
              exact absurd hl (by decide)
          | some d =>
              rw [hvlast] at hlast
              obtain rfl : '@' = d := by simpa using hlast
              exact List.mem_append_left _ (List.mem_of_getLast? hvlast)
  · exact absurd (by simp [hw]) hletter

theorem continuesHost_of_isAlpha {l : Char} (hl : l.isAlpha = true) :
    continuesHost l = true := by simp [continuesHost, Char.isAlphanum, hl]

/-- Nor does which scheme stands there, as long as it is one. -/
theorem namesHost_letter {p z y z' y' : Text} {l l' : Char} (hl : l.isAlpha = true)
    (hz : '@' ∉ z) (h : NamesHost ip.display (p ++ l :: z ++ '/' :: y)) :
    NamesHost ip.display (p ++ l' :: z' ++ '/' :: y') := by
  obtain ⟨authority, rest, heq, hauthority, hends⟩ := h
  rw [List.append_assoc] at heq
  rcases List.append_eq_append_iff.mp heq with ⟨w, rfl, hw⟩ | ⟨w, rfl, hrest⟩
  · cases w with
    | nil =>
        -- The authority ends right before the scheme, whose letter continues it.
        have hcont := hends l (by simp [show rest = l :: (z ++ '/' :: y) by simpa using hw.symm])
        rw [continuesHost_of_isAlpha hl] at hcont
        cases hcont
    | cons c w =>
        obtain ⟨rfl, htail⟩ : l = c ∧ z ++ '/' :: y = w ++ rest := by simpa using hw
        have hat := at_mem_of_letter hl hauthority
        rcases List.append_eq_append_iff.mp htail with ⟨v, rfl, hv⟩ | ⟨v, rfl, _⟩
        · cases v with
          | nil => exact absurd (by simpa using hat) hz
          | cons d v =>
              obtain ⟨rfl, _⟩ : '/' = d ∧ y = v ++ rest := by simpa using hv
              exact absurd (by simp) (slash_notMem_isAuthorityOf hauthority)
        · exact absurd (List.mem_append_left _ hat) hz
  · cases w with
    | nil =>
        have hcont := hends l (by simp [show rest = l :: (z ++ '/' :: y) by simpa using hrest])
        rw [continuesHost_of_isAlpha hl] at hcont
        cases hcont
    | cons c w =>
        refine ⟨authority, c :: w ++ (l' :: z' ++ '/' :: y'), by simp, hauthority, ?_⟩
        intro d hd
        refine hends d ?_
        rw [hrest]
        simpa using hd

end Names

/-! ## The swap leaves what names a host alone -/

/-- A scheme of the cut: a letter and scheme characters. -/
def IsSchemeText (scheme : Text) : Prop :=
  ∃ first rest, scheme = first :: rest ∧ first.isAlpha = true ∧ ∀ c ∈ rest, isSchemeChar c = true

theorem isSchemeText_schemeRun {before : Text} (h : isScheme (schemeRun before) = true) :
    IsSchemeText (schemeRun before) := by
  cases hrun : schemeRun before with
  | nil =>
      rw [hrun] at h
      exact absurd h (by decide)
  | cons first rest =>
      rw [hrun] at h
      refine ⟨first, rest, rfl, by simpa [isScheme] using h, ?_⟩
      intro c hc
      have hmem : c ∈ schemeRun before := by simp [hrun, hc]
      exact List.mem_rtakeWhile_imp hmem

theorem namesHost_scheme {ip : Ipv4Addr} {scheme scheme' : Text} (hs : IsSchemeText scheme)
    (hs' : IsSchemeText scheme') (p y y' : Text)
    (h : NamesHost ip.display (p ++ (scheme ++ sep ++ y))) :
    NamesHost ip.display (p ++ (scheme' ++ sep ++ y')) := by
  obtain ⟨l, z, rfl, hl, hz⟩ := hs
  obtain ⟨l', z', rfl, _, _⟩ := hs'
  have hat : '@' ∉ z ++ [':'] := by
    intro hmem
    rcases List.mem_append.mp hmem with hmem | hmem
    · exact absurd (hz '@' hmem) (by decide)
    · exact absurd hmem (by decide)
  have hletter : NamesHost ip.display (p ++ l' :: (z' ++ [':']) ++ '/' :: '/' :: y') :=
    namesHost_letter hl hat (by simpa using h)
  simpa using hletter

section Swap

variable {ip : Ipv4Addr} {base : Base} {wanted : Text → Bool}

/-- What a swapped URL is replaced by starts like a URL. -/
theorem render_url (base : Base) (wanted : Text → Bool) {scheme : Text} (hs : IsSchemeText scheme)
    (authority : Text) : ∃ scheme' y, IsSchemeText scheme' ∧
      (if wanted authority then base.text else scheme ++ sep ++ authority) =
        scheme' ++ sep ++ y := by
  by_cases hw : wanted authority = true
  · exact ⟨base.scheme, base.authority, base.schemeOk, by rw [if_pos hw]; rfl⟩
  · exact ⟨scheme, authority, hs, by rw [if_neg hw]⟩

/-- Whatever stands in front, a text names the host behind its first
characters exactly when its swap does. -/
theorem namesHost_swap (x t : Text) :
    NamesHost ip.display (x ++ swap base.text wanted t) ↔ NamesHost ip.display (x ++ t) := by
  cases hsplit : t.splitOnce sep with
  | none => rw [swap_none hsplit]
  | some p =>
      obtain ⟨before, after⟩ := p
      cases hs : isScheme (schemeRun before) with
      | false =>
          have hslash := @namesHost_slash ip (x ++ before ++ [':'])
          rw [swap_skip hsplit hs, Text.splitOnce_eq_some hsplit]
          constructor
          · intro h
            simpa using hslash _ ('/' :: after) (by simpa using h)
          · intro h
            simpa using hslash _ ('/' :: swap base.text wanted after) (by simpa using h)
      | true =>
          have hrun := isSchemeText_schemeRun hs
          obtain ⟨scheme', y, hs', hy⟩ := render_url base wanted hrun (authorityOf after)
          have hout : x ++ swap base.text wanted t = (x ++ beforeRun before) ++
              (scheme' ++ sep ++ (y ++ swap base.text wanted (afterAuthority after))) := by
            rw [swap_url hsplit hs, hy]
            simp
          have hin : x ++ t = (x ++ beforeRun before) ++ (schemeRun before ++ sep ++ after) := by
            simp [Text.splitOnce_eq_some hsplit]
          rw [hout, hin]
          exact ⟨namesHost_scheme hs' hrun _ _ _, namesHost_scheme hrun hs' _ _ _⟩

/-- A delimiter in front of a text is in front of its swap. -/
theorem swap_delimiter {c : Char} (hc : isDelimiter c = true) (t : Text) :
    swap base.text wanted (c :: t) = c :: swap base.text wanted t := by
  have hcolon := ne_colon_of_isDelimiter hc
  have hchar := isSchemeChar_of_isDelimiter hc
  have hsplit : Text.splitOnce (c :: t) sep =
      (t.splitOnce sep).map fun p => (c :: p.1, p.2) := by
    rw [Text.splitOnce, if_neg]
    simpa [List.isPrefixOf] using fun h => absurd h.symm hcolon
  cases ht : t.splitOnce sep with
  | none =>
      rw [ht] at hsplit
      rw [swap_none ht, swap_none (by simpa using hsplit)]
  | some p =>
      obtain ⟨before, after⟩ := p
      rw [ht] at hsplit
      have hcsplit : Text.splitOnce (c :: t) sep = some (c :: before, after) := by
        simpa using hsplit
      have hrun : schemeRun (c :: before) = schemeRun before :=
        Text.rtakeWhile_stop hchar [] before
      have hfront : beforeRun (c :: before) = c :: beforeRun before :=
        Text.rdropWhile_stop hchar [] before
      cases hs : isScheme (schemeRun before) with
      | false => rw [swap_skip ht hs, swap_skip hcsplit (by rw [hrun, hs])]; rfl
      | true => rw [swap_url ht hs, swap_url hcsplit (by rw [hrun, hs]), hrun, hfront]; rfl

/-- A text that starts with no colon does not after the swap. -/
theorem head_swap_afterAuthority {after : Text} {c : Char}
    (h : (swap base.text wanted (afterAuthority after)).head? = some c) : c ≠ ':' := by
  cases htail : afterAuthority after with
  | nil =>
      rw [htail, swap_none (show Text.splitOnce [] sep = none from rfl)] at h
      simp at h
  | cons d tail =>
      have hd : isDelimiter d = true := @head_afterAuthority after d (by simp [htail])
      rw [htail, swap_delimiter hd] at h
      obtain rfl : d = c := by simpa using h
      exact ne_colon_of_isDelimiter hd

end Swap

/-! ## The separators whose URL is replaced -/

section Accepted

variable {wanted : Text → Bool}

/-- The text a list of pieces was cut from. -/
def source (pieces : List Piece) : Text := pieces.flatMap Piece.source

/-- The separator behind `before` is that of a URL with a wanted authority. -/
def AcceptedIn (wanted : Text → Bool) (pieces : List Piece) (before : Text) : Prop :=
  ∃ front scheme authority back, pieces = front ++ .url scheme authority :: back ∧
    source front ++ scheme = before ∧ wanted authority = true

/-- Some URL with a wanted authority is followed by a text that meets `Q`. -/
def FollowedIn (wanted : Text → Bool) (Q : Text → Prop) (pieces : List Piece) : Prop :=
  ∃ front scheme authority back, pieces = front ++ .url scheme authority :: back ∧
    wanted authority = true ∧ Q (source back)

theorem acceptedIn_plain (text before : Text) (pieces : List Piece) :
    AcceptedIn wanted (.plain text :: pieces) before ↔
      ∃ rest, before = text ++ rest ∧ AcceptedIn wanted pieces rest := by
  constructor
  · intro h
    obtain ⟨front, scheme, authority, back, heq, rfl, hw⟩ := h
    cases front with
    | nil => simp at heq
    | cons piece front =>
        obtain ⟨rfl, hpieces⟩ := List.cons.inj heq
        refine ⟨source front ++ scheme, by simp [source, Piece.source], ?_⟩
        exact ⟨front, scheme, authority, back, hpieces, rfl, hw⟩
  · intro h
    obtain ⟨rest, rfl, front, scheme, authority, back, rfl, rfl, hw⟩ := h
    exact ⟨.plain text :: front, scheme, authority, back, rfl,
      by simp [source, Piece.source], hw⟩

theorem acceptedIn_url (scheme authority before : Text) (pieces : List Piece) :
    AcceptedIn wanted (.url scheme authority :: pieces) before ↔
      (before = scheme ∧ wanted authority = true) ∨
        ∃ rest, before = scheme ++ sep ++ authority ++ rest ∧ AcceptedIn wanted pieces rest := by
  constructor
  · intro h
    obtain ⟨front, scheme', authority', back, heq, rfl, hw⟩ := h
    cases front with
    | nil =>
        obtain ⟨⟨rfl, rfl⟩, _⟩ : (scheme = scheme' ∧ authority = authority') ∧ pieces = back := by
          simpa using heq
        exact .inl ⟨rfl, hw⟩
    | cons piece front =>
        obtain ⟨rfl, hpieces⟩ := List.cons.inj heq
        refine .inr ⟨source front ++ scheme', by simp [source, Piece.source], ?_⟩
        exact ⟨front, scheme', authority', back, hpieces, rfl, hw⟩
  · intro h
    obtain ⟨rfl, hw⟩ | ⟨rest, rfl, front, scheme', authority', back, rfl, rfl, hw⟩ := h
    · exact ⟨[], before, authority, pieces, rfl, rfl, hw⟩
    · exact ⟨.url scheme authority :: front, scheme', authority', back, rfl,
        by simp [source, Piece.source], hw⟩

theorem followedIn_plain {Q : Text → Prop} (text : Text) (pieces : List Piece) :
    FollowedIn wanted Q (.plain text :: pieces) ↔ FollowedIn wanted Q pieces := by
  constructor
  · intro h
    obtain ⟨front, scheme, authority, back, heq, hw, hQ⟩ := h
    cases front with
    | nil => simp at heq
    | cons piece front => exact ⟨front, scheme, authority, back, (List.cons.inj heq).2, hw, hQ⟩
  · intro h
    obtain ⟨front, scheme, authority, back, rfl, hw, hQ⟩ := h
    exact ⟨.plain text :: front, scheme, authority, back, rfl, hw, hQ⟩

theorem followedIn_url {Q : Text → Prop} (scheme authority : Text) (pieces : List Piece) :
    FollowedIn wanted Q (.url scheme authority :: pieces) ↔
      (wanted authority = true ∧ Q (source pieces)) ∨ FollowedIn wanted Q pieces := by
  constructor
  · intro h
    obtain ⟨front, scheme', authority', back, heq, hw, hQ⟩ := h
    cases front with
    | nil =>
        obtain ⟨⟨rfl, rfl⟩, rfl⟩ : (scheme = scheme' ∧ authority = authority') ∧
            pieces = back := by simpa using heq
        exact .inl ⟨hw, hQ⟩
    | cons piece front =>
        exact .inr ⟨front, scheme', authority', back, (List.cons.inj heq).2, hw, hQ⟩
  · intro h
    obtain ⟨hw, hQ⟩ | ⟨front, scheme', authority', back, rfl, hw, hQ⟩ := h
    · exact ⟨[], scheme, authority, pieces, rfl, hw, hQ⟩
    · exact ⟨.url scheme authority :: front, scheme', authority', back, rfl, hw, hQ⟩

/-- A skipped `://` is no URL's, and those behind it are the rest's. -/
theorem acceptedIn_skip (before rest : Text) (pieces : List Piece) :
    ¬ AcceptedIn wanted (.plain (before ++ sep) :: pieces) before ∧
      (AcceptedIn wanted (.plain (before ++ sep) :: pieces) (before ++ sep ++ rest) ↔
        AcceptedIn wanted pieces rest) := by
  constructor
  · rw [acceptedIn_plain]
    intro h
    obtain ⟨rest, heq, _⟩ := h
    have hlen := congrArg List.length heq
    simp at hlen
  · rw [acceptedIn_plain]
    constructor
    · intro h
      obtain ⟨rest', heq, h⟩ := h
      rwa [List.append_cancel_left heq]
    · intro h
      exact ⟨rest, rfl, h⟩

/-- The `://` of a URL is replaced with its authority, a swallowed one never,
and those behind the URL are the rest's. -/
theorem acceptedIn_taken (front scheme authority rest : Text) (pieces : List Piece) :
    let cut := Piece.plain front :: .url scheme authority :: pieces
    (AcceptedIn wanted cut (front ++ scheme) ↔ wanted authority = true) ∧
      (∀ swallowed, authority = swallowed ++ [':'] →
        ¬ AcceptedIn wanted cut (front ++ scheme ++ sep ++ swallowed)) ∧
      (AcceptedIn wanted cut (front ++ scheme ++ sep ++ (authority ++ rest)) ↔
        AcceptedIn wanted pieces rest) := by
  intro cut
  refine ⟨?_, ?_, ?_⟩
  · -- the URL's own separator
    rw [acceptedIn_plain]
    constructor
    · intro h
      obtain ⟨r, heq, h⟩ := h
      obtain rfl : scheme = r := List.append_cancel_left heq
      rcases (acceptedIn_url ..).mp h with ⟨_, hw⟩ | ⟨r, hr, _⟩
      · exact hw
      · have hlen := congrArg List.length hr
        simp at hlen
    · intro hw
      exact ⟨scheme, rfl, (acceptedIn_url ..).mpr (.inl ⟨rfl, hw⟩)⟩
  · -- one that lost its colon to the authority stands inside the URL
    rintro swallowed rfl
    rw [acceptedIn_plain]
    intro h
    obtain ⟨r, heq, h⟩ := h
    obtain rfl : scheme ++ sep ++ swallowed = r := by
      refine List.append_cancel_left (?_ : front ++ _ = front ++ r)
      rw [← heq]
      simp
    rcases (acceptedIn_url ..).mp h with ⟨hr, _⟩ | ⟨r, hr, _⟩
    · have hlen := congrArg List.length hr
      simp at hlen
    · have hlen := congrArg List.length hr
      simp at hlen
  · -- one behind the URL
    rw [acceptedIn_plain]
    constructor
    · intro h
      obtain ⟨r, heq, h⟩ := h
      obtain rfl : scheme ++ sep ++ (authority ++ rest) = r := by
        refine List.append_cancel_left (?_ : front ++ _ = front ++ r)
        rw [← heq]
        simp
      rcases (acceptedIn_url ..).mp h with ⟨hr, _⟩ | ⟨r, hr, hin⟩
      · have hlen := congrArg List.length hr
        simp at hlen
      · have : rest = r := by
          refine List.append_cancel_left (?_ : scheme ++ sep ++ authority ++ _ = _)
          rw [← hr]
          simp
        rwa [this]
    · intro h
      refine ⟨scheme ++ sep ++ (authority ++ rest), by simp, ?_⟩
      exact (acceptedIn_url ..).mpr (.inr ⟨rest, by simp, h⟩)

end Accepted

/-! ## The leaks of a swapped text -/

theorem NoSep.append {x y : Text} (hx : NoSep x) (hy : '/' ∉ y) : NoSep (x ++ y) := by
  intro before after heq
  rcases List.append_eq_append_iff.mp heq with ⟨w, hw, hyw⟩ | ⟨w, hw, _⟩
  · rcases List.eq_nil_or_concat w with rfl | ⟨front, last, rfl⟩
    · exact hx before [] (by simpa using hw.symm)
    · rw [show before ++ sep = before ++ [':', '/'] ++ ['/'] by simp, List.concat_eq_append,
        ← List.append_assoc] at hw
      obtain rfl : '/' = last := by simpa using List.append_inj_right' hw rfl
      exact hy (by simp [hyw])
  · exact hx before w hw

theorem NoSep.of_append {x y : Text} (h : NoSep (x ++ y)) : NoSep x := by
  rintro before after rfl
  exact h before (after ++ y) (by simp)

theorem slash_notMem_authorityOf (after : Text) : '/' ∉ authorityOf after := by
  intro h
  exact absurd (List.mem_takeWhile_imp h) (by decide)

theorem source_scan_eq (text : Text) : source (scan text) = text := source_scan text

section Leaks

variable {ip : Ipv4Addr} {base : Base} {wanted : Text → Bool}

/-- A swapped text that starts with a slash started with it before. -/
theorem eq_slash_of_swap {t after : Text} (h : swap base.text wanted t = '/' :: after) :
    ∃ rest, t = '/' :: rest ∧ after = swap base.text wanted rest := by
  have hhead : ∃ rest, t = '/' :: rest := by
    cases hsplit : t.splitOnce sep with
    | none =>
        rw [swap_none hsplit] at h
        exact ⟨after, h⟩
    | some p =>
        obtain ⟨before, rest⟩ := p
        have ht := Text.splitOnce_eq_some hsplit
        cases hs : isScheme (schemeRun before) with
        | false =>
            rw [swap_skip hsplit hs] at h
            cases before with
            | nil => simp at h
            | cons c before =>
                obtain ⟨rfl, _⟩ := List.cons.inj h
                exact ⟨before ++ sep ++ rest, by simp [ht]⟩
        | true =>
            obtain ⟨scheme', y, ⟨l, z, rfl, hl, _⟩, hy⟩ :=
              render_url base wanted (isSchemeText_schemeRun hs) (authorityOf rest)
            rw [swap_url hsplit hs, hy] at h
            cases hfront : beforeRun before with
            | nil =>
                rw [hfront] at h
                obtain ⟨rfl, _⟩ := List.cons.inj h
                exact absurd hl (by decide)
            | cons c front =>
                rw [hfront] at h
                obtain ⟨rfl, _⟩ := List.cons.inj h
                have hb := beforeRun_append_schemeRun before (sep ++ rest)
                rw [hfront] at hb
                refine ⟨front ++ (schemeRun before ++ (sep ++ rest)), ?_⟩
                rw [ht, List.append_assoc, ← hb]
                rfl
  obtain ⟨rest, rfl⟩ := hhead
  rw [swap_delimiter (by decide)] at h
  exact ⟨rest, rfl, (List.cons.inj h).2.symm⟩

/-- A colon that ends an authority swallows the same `://` before and after
the swap. -/
theorem swallowedAt_swap {P : Text → Prop} (authority tail : Text) :
    SwallowedAt P ip.display authority (swap base.text wanted tail) ↔
      SwallowedAt P ip.display authority tail := by
  constructor
  · intro h
    obtain ⟨front, after, hauthority, htail, halpha, hnames, hP⟩ := h
    obtain ⟨rest, rfl, hrest⟩ := eq_slash_of_swap htail
    obtain ⟨rest, rfl, rfl⟩ := eq_slash_of_swap hrest.symm
    exact ⟨front, rest, hauthority, rfl, halpha, (namesHost_swap [] rest).mp hnames, hP⟩
  · intro h
    obtain ⟨front, rest, hauthority, rfl, halpha, hnames, hP⟩ := h
    refine ⟨front, swap base.text wanted rest, hauthority, ?_, halpha,
      (namesHost_swap [] rest).mpr hnames, hP⟩
    rw [swap_delimiter (by decide), swap_delimiter (by decide)]

/-- The spliced base shows the target together with what follows it. -/
def ShowsBehind (ip : Ipv4Addr) (base : Base) (tail : Text) : Prop :=
  EndsAlpha base.scheme ∧ NamesHost ip.display (base.authority ++ tail)

section Url

variable {t before after : Text}

theorem text_of_url (h : t.splitOnce sep = some (before, after)) :
    t = before ++ sep ++ (authorityOf after ++ afterAuthority after) := by
  rw [authorityOf_append_afterAuthority]
  exact Text.splitOnce_eq_some h

/-- The leaks of a text that starts with a URL, at separators that are not
replaced: at the URL's own `://`, at one its authority swallows, and behind. -/
theorem leaksAt_unreplaced_url (h : t.splitOnce sep = some (before, after))
    (hs : isScheme (schemeRun before) = true) :
    LeaksAt (fun b => ¬ AcceptedIn wanted (scan t) b) ip.display t ↔
      (EndsAlpha before ∧ NamesHost ip.display (authorityOf after ++ afterAuthority after) ∧
        wanted (authorityOf after) = false) ∨
      SwallowedAt (fun _ => True) ip.display (authorityOf after) (afterAuthority after) ∨
      LeaksAt (fun b => ¬ AcceptedIn wanted (scan (afterAuthority after)) b) ip.display
        (afterAuthority after) := by
  have hhead : ∀ c, (afterAuthority after).head? = some c → c ≠ ':' :=
    fun c hc => ne_colon_of_isDelimiter (head_afterAuthority hc)
  have hcut : beforeRun before ++ schemeRun before = before := by
    simpa using beforeRun_append_schemeRun before []
  have htaken := fun rest => @acceptedIn_taken wanted (beforeRun before)
    (schemeRun before) (authorityOf after) rest (scan (afterAuthority after))
  simp only [hcut] at htaken
  have hswallowed : SwallowedAt (fun b => ¬ AcceptedIn wanted
        (.plain (beforeRun before) :: .url (schemeRun before) (authorityOf after) ::
          scan (afterAuthority after)) (before ++ sep ++ b))
        ip.display (authorityOf after) (afterAuthority after) ↔
      SwallowedAt (fun _ => True) ip.display (authorityOf after) (afterAuthority after) := by
    constructor
    · intro h
      obtain ⟨front, rest, hfront, htail, halpha, hnames, _⟩ := h
      exact ⟨front, rest, hfront, htail, halpha, hnames, trivial⟩
    · intro h
      obtain ⟨front, rest, hfront, htail, halpha, hnames, _⟩ := h
      exact ⟨front, rest, hfront, htail, halpha, hnames, (htaken []).2.1 front hfront⟩
  rw [scan_url h hs]
  conv_lhs => rw [text_of_url h, leaksAt_sep (NoSep.of_splitOnce h),
    leaksAt_authority (slash_notMem_authorityOf after) hhead]
  rw [hswallowed]
  simp only [(htaken []).1, fun rest => (htaken rest).2.2, Bool.not_eq_true]

/-- The leaks of its swap when the authority is kept. -/
theorem leaks_swap_kept (h : t.splitOnce sep = some (before, after))
    (hs : isScheme (schemeRun before) = true) (hw : wanted (authorityOf after) = false) :
    Leaks ip.display (swap base.text wanted t) ↔
      (EndsAlpha before ∧ NamesHost ip.display (authorityOf after ++ afterAuthority after)) ∨
      SwallowedAt (fun _ => True) ip.display (authorityOf after) (afterAuthority after) ∨
      Leaks ip.display (swap base.text wanted (afterAuthority after)) := by
  have hout : swap base.text wanted t =
      before ++ sep ++ (authorityOf after ++ swap base.text wanted (afterAuthority after)) := by
    rw [swap_url h hs, hw]
    simp
  rw [hout, leaks_iff, leaksAt_sep (NoSep.of_splitOnce h),
    leaksAt_authority (slash_notMem_authorityOf after) fun _ => head_swap_afterAuthority,
    namesHost_swap, swallowedAt_swap, leaks_iff]
  simp only [and_true]

/-- And when the base takes its place. -/
theorem leaks_swap_replaced (h : t.splitOnce sep = some (before, after))
    (hs : isScheme (schemeRun before) = true) (hw : wanted (authorityOf after) = true) :
    Leaks ip.display (swap base.text wanted t) ↔
      ShowsBehind ip base (afterAuthority after) ∨
      Leaks ip.display (swap base.text wanted (afterAuthority after)) := by
  have hout : swap base.text wanted t = (beforeRun before ++ base.scheme) ++ sep ++
      (base.authority ++ swap base.text wanted (afterAuthority after)) := by
    rw [swap_url h hs, if_pos hw]
    simp [Base.text]
  have hscheme : base.scheme ≠ [] := by
    obtain ⟨first, rest, heq, _⟩ := base.schemeOk
    simp [heq]
  have hslash : '/' ∉ base.scheme := fun hmem => absurd (Base.mem_scheme hmem) (by decide)
  have hno : NoSep (beforeRun before ++ base.scheme) := by
    refine NoSep.append (NoSep.of_append (y := schemeRun before) ?_) hslash
    rw [show beforeRun before ++ schemeRun before = before by
      simpa using beforeRun_append_schemeRun before []]
    exact NoSep.of_splitOnce h
  have hswallowed : ¬ SwallowedAt (fun _ => True) ip.display base.authority
      (swap base.text wanted (afterAuthority after)) := by
    intro h
    obtain ⟨front, _, hfront, _⟩ := h
    exact base.authority_ne_concat_colon front hfront
  rw [hout, leaks_iff, leaksAt_sep hno,
    leaksAt_authority base.slash_notMem_authority fun _ => head_swap_afterAuthority,
    namesHost_swap, endsAlpha_append hscheme, leaks_iff]
  simp only [and_true, hswallowed, false_or]
  exact Iff.rfl

end Url

/-- **The leaks of a swapped text.** They are the leaks of the text at the
separators the swap does not replace, and those a spliced base makes together
with the text behind it. -/
theorem leaks_swap_iff (hwanted : ∀ front, wanted (front ++ [':']) = false) (t : Text) :
    Leaks ip.display (swap base.text wanted t) ↔
      LeaksAt (fun before => ¬ AcceptedIn wanted (scan t) before) ip.display t ∨
        FollowedIn wanted (ShowsBehind ip base) (scan t) := by
  induction t using scan_induction with
  | plain t h =>
      -- no separator, so no leak before or after the swap
      have hno : NoSep t := fun before after => Text.splitOnce_eq_none h
      have hscan : ¬ FollowedIn wanted (ShowsBehind ip base) (scan t) := by
        rw [scan_none h, followedIn_plain]
        intro h
        obtain ⟨front, scheme, authority, back, heq, _⟩ := h
        simp at heq
      rw [swap_none h, leaks_iff]
      constructor
      · intro hl
        exact absurd hl (leaksAt_noSep hno)
      · intro h
        obtain hl | hl := h
        · exact absurd hl (leaksAt_noSep hno)
        · exact absurd hl hscan
  | skip t before after h hs ih =>
      -- the separator that is passed over is one the swap does not replace
      have hno := NoSep.of_splitOnce h
      have hskip := fun rest => @acceptedIn_skip wanted before rest (scan after)
      have hnames := @namesHost_swap ip base wanted [] after
      simp only [List.nil_append] at hnames
      rw [leaks_iff] at ih
      rw [swap_skip h hs, leaks_iff, leaksAt_sep hno, ih, hnames, scan_skip h hs,
        followedIn_plain]
      conv_rhs => rw [Text.splitOnce_eq_some h, leaksAt_sep hno]
      simp only [(hskip []).1, not_false_eq_true, and_true, fun rest => (hskip rest).2]
      exact or_assoc.symm
  | url t before after h hs ih =>
      -- a URL is kept, or the base stands in its place
      rw [leaksAt_unreplaced_url h hs]
      conv_rhs => rw [scan_url h hs, followedIn_plain, followedIn_url, source_scan_eq]
      cases hw : wanted (authorityOf after) with
      | false =>
          rw [leaks_swap_kept h hs hw, ih]
          simp only [and_true, Bool.false_eq_true, false_and, false_or, or_assoc]
      | true =>
          -- an accepted authority does not end in a colon, so it swallows none
          have hswallowed : ¬ SwallowedAt (fun _ => True) ip.display (authorityOf after)
              (afterAuthority after) := by
            intro h
            obtain ⟨front, _, hfront, _⟩ := h
            rw [hfront, hwanted front] at hw
            cases hw
          rw [leaks_swap_replaced h hs hw, ih]
          simp only [Bool.true_eq_false, and_false, hswallowed, true_and, false_or]
          exact or_left_comm

end Leaks

end RedfishProxy.Http
