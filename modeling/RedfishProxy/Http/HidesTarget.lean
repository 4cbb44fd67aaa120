import RedfishProxy.Http.LeakFree

/-!
# Exactly when the rewriter hides the target

`leaks_swap_iff` speaks of the cut the loop makes. Here the cut is put in terms
of the text itself: `Taken` says which `://` starts a URL of the loop, looking
only at what stands before it. With it the two ways a target survives are
conditions on the input.

Main results:
* `urlAt_scan`: the URLs of the cut are the taken separators of the text.
* `showsBehind_iff`: when the spliced base shows the target.
* `rewriteText_leak_free_iff`: the exact condition.
-/

namespace RedfishProxy.Http

open Lib

/-! ## The separators the loop takes -/

/-- The `://` behind `before` starts a URL of the loop: the scheme run in front
of it begins with a letter, and it is not the tail of an authority that an
earlier taken `://` opened. -/
def Taken (before : Text) : Prop :=
  isScheme (schemeRun before) = true ∧
    ∀ front authority, (_h : before = front ++ sep ++ authority) →
      (∀ c ∈ authority, isDelimiter c = false) → ¬ Taken front
termination_by before.length
decreasing_by
  simp [_h]

theorem taken_iff (before : Text) :
    Taken before ↔ isScheme (schemeRun before) = true ∧
      ∀ front authority, before = front ++ sep ++ authority →
        (∀ c ∈ authority, isDelimiter c = false) → ¬ Taken front :=
  Iff.of_eq (Taken.eq_1 before)

/-- Nothing comes before the first separator to swallow it. -/
theorem taken_noSep {before : Text} (h : NoSep before) :
    Taken before ↔ isScheme (schemeRun before) = true := by
  rw [taken_iff]
  constructor
  · exact And.left
  · intro hs
    refine ⟨hs, ?_⟩
    intro front authority heq
    exact absurd heq (h front authority)

/-- A separator that is no URL's hides nothing behind it. -/
theorem taken_skip {x : Text} (hx : NoSep x) (hs : isScheme (schemeRun x) = false)
    (b : Text) : Taken (x ++ sep ++ b) ↔ Taken b := by
  induction hn : b.length using Nat.strong_induction_on generalizing b with
  | _ n ih =>
      subst hn
      have hrun : schemeRun (x ++ sep ++ b) = schemeRun b := by
        rw [show x ++ sep ++ b = (x ++ [':', '/']) ++ '/' :: b by simp]
        exact Text.rtakeWhile_stop (by decide) _ b
      have hnot : ¬ Taken x := by
        intro h
        rw [taken_noSep hx, hs] at h
        cases h
      rw [taken_iff, taken_iff b, hrun]
      refine and_congr_right fun _ => ?_
      constructor
      · rintro h front authority rfl hauth hfront
        have hlt : front.length < (front ++ sep ++ authority).length := by simp
        exact h _ authority (by simp) hauth ((ih _ hlt _ rfl).mpr hfront)
      · intro h front authority heq hauth hfront
        rcases hx.cases heq with ⟨rfl, rfl⟩ | ⟨f, rfl, rfl⟩
        · exact hnot hfront
        · have hlt : f.length < (f ++ sep ++ authority).length := by simp
          exact h f authority rfl hauth ((ih _ hlt _ rfl).mp hfront)

/-- Behind a URL the loop starts over at the delimiter that ended it. -/
theorem taken_url {x authority : Text} (hx : NoSep x) (hs : isScheme (schemeRun x) = true)
    (hauthority : ∀ c ∈ authority, isDelimiter c = false) {b : Text}
    (hhead : ∃ c rest, b = c :: rest ∧ isDelimiter c = true) :
    Taken (x ++ sep ++ (authority ++ b)) ↔ Taken b := by
  have hslash : '/' ∉ authority := fun hmem => absurd (hauthority _ hmem) (by decide)
  have htaken : Taken x := (taken_noSep hx).mpr hs
  -- on the text behind the URL: whether a separator is taken depends on
  -- those in front of it
  induction hn : b.length using Nat.strong_induction_on generalizing b with
  | _ n ih =>
      subst hn
      obtain ⟨c, rest, rfl, hc⟩ := hhead
      have hrun : schemeRun (x ++ sep ++ (authority ++ c :: rest)) = schemeRun (c :: rest) := by
        rw [← List.append_assoc, schemeRun, schemeRun,
          Text.rtakeWhile_stop (isSchemeChar_of_isDelimiter hc)]
        exact (Text.rtakeWhile_stop (isSchemeChar_of_isDelimiter hc) [] rest).symm
      rw [taken_iff, taken_iff (c :: rest), hrun]
      refine and_congr_right fun _ => ?_
      have hstep : ∀ front auth, c :: rest = front ++ sep ++ auth →
          ∃ c' rest', front = c' :: rest' ∧ isDelimiter c' = true := by
        intro front auth heq
        cases front with
        | nil =>
            obtain ⟨rfl, _⟩ : c = ':' ∧ rest = '/' :: '/' :: auth := by simpa using heq
            exact absurd hc (by decide)
        | cons c' rest' =>
            obtain ⟨rfl, _⟩ := List.cons.inj heq
            exact ⟨c, rest', rfl, hc⟩
      have hlt : ∀ front auth, c :: rest = front ++ sep ++ auth →
          front.length < (c :: rest).length := by
        intro front auth heq
        rw [heq]
        simp
      constructor
      · intro h front auth heq hauth hfront
        refine h (x ++ sep ++ (authority ++ front)) auth (by simp [heq]) hauth ?_
        exact (ih _ (hlt front auth heq) (hstep front auth heq) rfl).mpr hfront
      · intro h front auth heq hauth hfront
        rcases hx.cases heq with ⟨rfl, hb⟩ | ⟨f, rfl, hf⟩
        · exact absurd hc (by simp [hauth c (by simp [hb])])
        · rcases authority_cases hslash hf with ⟨f', rfl, hb⟩ | ⟨hcolon, hb⟩
          · refine h f' auth hb hauth ?_
            exact (ih _ (hlt f' auth hb) (hstep f' auth hb) rfl).mp hfront
          · -- The authority swallowed this separator's colon.
            refine (taken_iff _).mp hfront |>.2 x f (by simp) ?_ htaken
            intro d hd
            exact hauthority d (by simp [hcolon, hd])

/-! ## The URLs of the cut -/

/-- The cut has a URL behind `before`, with this authority and this tail. -/
def UrlAt (pieces : List Piece) (before authority tail : Text) : Prop :=
  ∃ front scheme back, pieces = front ++ .url scheme authority :: back ∧
    source front ++ scheme = before ∧ source back = tail

theorem acceptedIn_iff_urlAt (wanted : Text → Bool) (pieces : List Piece) (before : Text) :
    AcceptedIn wanted pieces before ↔
      ∃ authority tail, UrlAt pieces before authority tail ∧ wanted authority = true := by
  constructor
  · intro h
    obtain ⟨front, scheme, authority, back, heq, hbefore, hw⟩ := h
    exact ⟨authority, source back, ⟨front, scheme, back, heq, hbefore, rfl⟩, hw⟩
  · intro h
    obtain ⟨authority, tail, ⟨front, scheme, back, heq, hbefore, _⟩, hw⟩ := h
    exact ⟨front, scheme, authority, back, heq, hbefore, hw⟩

theorem followedIn_iff_urlAt (wanted : Text → Bool) (Q : Text → Prop) (pieces : List Piece) :
    FollowedIn wanted Q pieces ↔ ∃ before authority tail,
      UrlAt pieces before authority tail ∧ wanted authority = true ∧ Q tail := by
  constructor
  · intro h
    obtain ⟨front, scheme, authority, back, heq, hw, hQ⟩ := h
    exact ⟨_, authority, _, ⟨front, scheme, back, heq, rfl, rfl⟩, hw, hQ⟩
  · intro h
    obtain ⟨before, authority, tail, ⟨front, scheme, back, heq, _, rfl⟩, hw, hQ⟩ := h
    exact ⟨front, scheme, authority, back, heq, hw, hQ⟩

theorem urlAt_plain (text before authority tail : Text) (pieces : List Piece) :
    UrlAt (.plain text :: pieces) before authority tail ↔
      ∃ rest, before = text ++ rest ∧ UrlAt pieces rest authority tail := by
  constructor
  · intro h
    obtain ⟨front, scheme, back, heq, rfl, rfl⟩ := h
    cases front with
    | nil => simp at heq
    | cons piece front =>
        obtain ⟨rfl, hpieces⟩ := List.cons.inj heq
        exact ⟨source front ++ scheme, by simp [source, Piece.source],
          front, scheme, back, hpieces, rfl, rfl⟩
  · intro h
    obtain ⟨rest, rfl, front, scheme, back, rfl, rfl, rfl⟩ := h
    exact ⟨.plain text :: front, scheme, back, rfl, by simp [source, Piece.source], rfl⟩

theorem urlAt_url (scheme auth before authority tail : Text) (pieces : List Piece) :
    UrlAt (.url scheme auth :: pieces) before authority tail ↔
      (before = scheme ∧ authority = auth ∧ tail = source pieces) ∨
        ∃ rest, before = scheme ++ sep ++ auth ++ rest ∧ UrlAt pieces rest authority tail := by
  constructor
  · intro h
    obtain ⟨front, scheme', back, heq, rfl, rfl⟩ := h
    cases front with
    | nil =>
        obtain ⟨⟨rfl, rfl⟩, rfl⟩ : (scheme = scheme' ∧ auth = authority) ∧ pieces = back := by
          simpa using heq
        exact .inl ⟨rfl, rfl, rfl⟩
    | cons piece front =>
        obtain ⟨rfl, hpieces⟩ := List.cons.inj heq
        exact .inr ⟨source front ++ scheme', by simp [source, Piece.source],
          front, scheme', back, hpieces, rfl, rfl⟩
  · intro h
    obtain ⟨rfl, rfl, rfl⟩ | ⟨rest, rfl, front, scheme', back, rfl, rfl, rfl⟩ := h
    · exact ⟨[], before, pieces, rfl, rfl, rfl⟩
    · exact ⟨.url scheme auth :: front, scheme', back, rfl,
        by simp [source, Piece.source], rfl⟩

theorem isDelimiter_of_mem_authorityOf {after : Text} {c : Char} (h : c ∈ authorityOf after) :
    isDelimiter c = false := by simpa using List.mem_takeWhile_imp h

/-- What stands behind an authority, up to a later separator, starts with the
delimiter that ended it. -/
theorem delimiter_of_afterAuthority {after rest y : Text}
    (h : afterAuthority after = rest ++ sep ++ y) :
    ∃ c back, rest = c :: back ∧ isDelimiter c = true := by
  cases rest with
  | nil => exact absurd (head_afterAuthority (c := ':') (by rw [h]; rfl)) (by decide)
  | cons c back => exact ⟨c, back, rfl, @head_afterAuthority after c (by rw [h]; rfl)⟩

/-- **The URLs of the cut are the taken separators of the text.** -/
theorem urlAt_scan (text : Text) {before authority tail : Text} :
    UrlAt (scan text) before authority tail ↔
      text = before ++ sep ++ (authority ++ tail) ∧ Taken before ∧
        authority = authorityOf (authority ++ tail) := by
  induction text using scan_induction generalizing before with
  -- without a separator neither side has anything to name
  | plain text h =>
      rw [scan_none h, urlAt_plain]
      constructor
      · intro h
        obtain ⟨rest, _, front, scheme, back, heq, _⟩ := h
        simp at heq
      · intro h
        obtain ⟨heq, _⟩ := h
        exact absurd heq (Text.splitOnce_eq_none h)
  | skip text x after h hs ih =>
      -- the loop passes over the first separator and starts again behind it
      have hx := NoSep.of_splitOnce h
      have htext := Text.splitOnce_eq_some h
      rw [scan_skip h hs, urlAt_plain]
      constructor
      · intro h
        obtain ⟨rest, rfl, hat⟩ := h
        obtain ⟨rfl, htaken, hauth⟩ := ih.mp hat
        exact ⟨by simp [htext], (taken_skip hx hs rest).mpr htaken, hauth⟩
      · intro h
        obtain ⟨heq, htaken, hauth⟩ := h
        rcases hx.cases (htext ▸ heq) with ⟨rfl, rfl⟩ | ⟨rest, rfl, rfl⟩
        · rw [taken_noSep hx, hs] at htaken
          cases htaken
        · exact ⟨rest, rfl, ih.mpr ⟨rfl, (taken_skip hx hs rest).mp htaken, hauth⟩⟩
  | url text x after h hs ih =>
      have hx := NoSep.of_splitOnce h
      have htext := text_of_url h
      -- the first separator is a URL's, and the loop starts again behind that
      have hdelim : ∀ c ∈ authorityOf after, isDelimiter c = false :=
        fun c => isDelimiter_of_mem_authorityOf
      have hcut : beforeRun x ++ schemeRun x = x := by
        simpa using beforeRun_append_schemeRun x []
      have hbefore : ∀ rest, beforeRun x ++ (schemeRun x ++ sep ++ authorityOf after ++ rest) =
          x ++ sep ++ (authorityOf after ++ rest) := by
        intro rest
        conv_rhs => rw [← hcut]
        simp only [List.append_assoc]
      rw [scan_url h hs, urlAt_plain]
      constructor
      · intro h
        obtain ⟨rest, rfl, hat⟩ := h
        rcases (urlAt_url ..).mp hat with ⟨rfl, rfl, rfl⟩ | ⟨rest, rfl, hrest⟩
        · rw [source_scan_eq, hcut, authorityOf_append_afterAuthority]
          exact ⟨Text.splitOnce_eq_some h, (taken_noSep hx).mpr hs, rfl⟩
        · obtain ⟨htail, htaken, hauth⟩ := ih.mp hrest
          rw [hbefore]
          refine ⟨by rw [htext, htail]; simp, ?_, hauth⟩
          exact (taken_url hx hs hdelim (delimiter_of_afterAuthority htail)).mpr htaken
      · intro h
        obtain ⟨heq, htaken, hauth⟩ := h
        rw [Text.splitOnce_eq_some h] at heq
        rcases hx.cases heq with ⟨rfl, rfl⟩ | ⟨front, rfl, hfront⟩
        · refine ⟨schemeRun before, hcut.symm, (urlAt_url ..).mpr (.inl ⟨rfl, hauth, ?_⟩)⟩
          have hwhole := authorityOf_append_afterAuthority (authority ++ tail)
          rw [← hauth] at hwhole
          rw [source_scan_eq]
          exact (List.append_cancel_left hwhole).symm
        · rw [← authorityOf_append_afterAuthority after] at hfront
          rcases authority_cases (slash_notMem_authorityOf after) hfront with
            ⟨rest, rfl, htail⟩ | ⟨hcolon, _⟩
          · refine ⟨_, (hbefore rest).symm, (urlAt_url ..).mpr (.inr ⟨rest, rfl, ?_⟩)⟩
            refine ih.mpr ⟨htail, ?_, hauth⟩
            exact (taken_url hx hs hdelim (delimiter_of_afterAuthority htail)).mp htaken
          · -- A separator that lost its colon to the authority is not taken.
            refine absurd ((taken_noSep hx).mpr hs) ((taken_iff _).mp htaken |>.2 x front rfl ?_)
            intro c hc
            exact hdelim c (by simp [hcolon, hc])

/-! ## The spliced base as a userinfo -/

section Base

variable {ip : Ipv4Addr} {base : Base}

theorem isUserinfoChar_of_isDigit {d : Char} (h : d.isDigit = true) :
    isUserinfoChar d = true := by
  simp [isUserinfoChar, Char.isAlphanum, h]

/-- The authority of a base whose host is made of userinfo characters is, too. -/
theorem isUserinfoChar_of_mem_authority (hhost : ∀ c ∈ base.host, isUserinfoChar c = true)
    {c : Char} (h : c ∈ base.authority) : isUserinfoChar c = true := by
  rcases List.mem_append.mp h with h | h
  · exact hhost c h
  · unfold Base.portText at h
    cases hport : base.port with
    | none => simp [hport] at h
    | some digits =>
        rw [hport] at h
        rcases List.mem_cons.mp h with rfl | h
        · decide
        · exact isUserinfoChar_of_isDigit ((base.portOk digits hport).2 c h)

theorem at_notMem_authority (base : Base) : '@' ∉ base.authority := by
  intro hmem
  rcases List.mem_append.mp hmem with hmem | hmem
  · rcases base.hostOk with ⟨_, hall⟩ | ⟨inner, heq, hall⟩
    · exact absurd (hall _ hmem) (by decide)
    · rw [heq] at hmem
      simp only [List.cons_append, List.mem_cons, List.mem_append, List.not_mem_nil,
        or_false] at hmem
      rcases hmem with h | h | h
      · exact absurd h (by decide)
      · exact absurd (hall _ h) (by decide)
      · exact absurd h (by decide)
  · unfold Base.portText at hmem
    cases hport : base.port with
    | none => simp [hport] at hmem
    | some digits =>
        rw [hport] at hmem
        rcases List.mem_cons.mp hmem with h | h
        · exact absurd h (by decide)
        · exact absurd ((base.portOk digits hport).2 _ h) (by decide)

/-- More userinfo, its `@`, and the target. -/
def RunsOn (ip : Ipv4Addr) (tail : Text) : Prop :=
  ∃ user port rest, tail = user ++ '@' :: (ip.display ++ port ++ rest) ∧
    (∀ c ∈ user, isUserinfoChar c = true) ∧ IsPort port ∧ EndsHost rest

/-- The host begins with the target and goes on with a character that ends a
host, as `10.0.0.1_x` does. -/
def BeginsLike (ip : Ipv4Addr) (host : Text) : Prop :=
  ∃ c more, host = ip.display ++ c :: more ∧ continuesHost c = false

/-- What stands behind the host of a spliced base is no part of an address. -/
theorem head_behind_host {tail : Text} (htail : ∀ c, tail.head? = some c → isDelimiter c = true)
    {c : Char} (hc : (base.portText ++ tail).head? = some c) : c.isDigit = false ∧ c ≠ '.' := by
  unfold Base.portText at hc
  cases hport : base.port with
  | none =>
      rw [hport] at hc
      have hdelim := htail c (by simpa using hc)
      simp only [isDelimiter, List.mem_cons, List.not_mem_nil, or_false,
        decide_eq_true_eq] at hdelim
      rcases hdelim with rfl | rfl | rfl | rfl | rfl | rfl | rfl | rfl | rfl | rfl <;> decide
  | some digits =>
      obtain rfl : ':' = c := by simpa [hport] using hc
      decide

/-- Without a userinfo the base's own host is, or begins with, the target. -/
theorem host_of_display {tail port rest : Text} (hreg : IsRegName base.host)
    (htail : ∀ c, tail.head? = some c → isDelimiter c = true)
    (heq : base.authority ++ tail = ip.display ++ (port ++ rest))
    (hport : IsPort port) (hends : EndsHost rest) :
    base.host = ip.display ∨ BeginsLike ip base.host := by
  rw [Base.authority, List.append_assoc] at heq
  rcases List.append_eq_append_iff.mp heq with ⟨w, hdisplay, hback⟩ | ⟨w, hhost, hback⟩
  · cases w with
    | nil => exact .inl (by simpa using hdisplay.symm)
    | cons d w =>
        -- The address would run on behind the host.
        obtain ⟨hdigit, hdot⟩ := head_behind_host htail (by rw [hback]; rfl)
        have hmem : d ∈ ip.display := by simp [hdisplay]
        rcases Ipv4Addr.mem_display hmem with h | h
        · rw [hdigit] at h
          cases h
        · exact absurd h hdot
  · cases w with
    | nil => exact .inl (by simpa using hhost)
    | cons c w =>
        -- The host runs on behind the address, and not with a port.
        have hchar : isHostChar c = true := hreg.2 c (by simp [hhost])
        rcases hport with rfl | ⟨digits, rfl, _⟩
        · refine .inr ⟨c, w, hhost, hends c ?_⟩
          rw [List.nil_append] at hback
          rw [hback]
          rfl
        · obtain ⟨rfl, _⟩ := List.cons.inj hback
          exact absurd hchar (by decide)

/-- The spliced base shows the target with what follows it exactly when its host
does so by itself, or when it reads as a userinfo and the text behind it runs on
to the target. -/
theorem showsBehind_iff (hbase : base.host ≠ ip.display) {tail : Text}
    (htail : ∀ c, tail.head? = some c → isDelimiter c = true) :
    ShowsBehind ip base tail ↔ EndsAlpha base.scheme ∧
      (BeginsLike ip base.host ∨ (∀ c ∈ base.host, isUserinfoChar c = true) ∧ RunsOn ip tail) := by
  refine and_congr_right fun _ => ?_
  constructor
  · intro h
    obtain ⟨authority, rest, heq, ⟨user, port, rfl, huser, hport⟩, hends⟩ := h
    rcases huser with rfl | ⟨name, rfl, hname⟩
    · -- No userinfo: the base itself would have to begin with the target.
      rw [List.nil_append, List.append_assoc] at heq
      rcases base.hostOk with hreg | ⟨inner, hlit, _⟩
      · rcases host_of_display hreg htail heq hport hends with heq | hbegins
        · exact absurd heq hbase
        · exact .inl hbegins
      · obtain ⟨first, back, hdisplay, hdigit⟩ := ip.display_eq_cons
        rw [Base.authority, hlit, hdisplay] at heq
        obtain ⟨rfl, _⟩ := List.cons.inj heq
        exact absurd hdigit (by decide)
    · -- The `@` stands behind the base, so all of the base is userinfo.
      simp only [List.append_assoc, List.singleton_append] at heq
      rcases List.append_eq_append_iff.mp heq with ⟨w, rfl, htail'⟩ | ⟨w, hauth, htail'⟩
      · refine .inr ⟨?_, w, port, rest, by simp [htail'], ?_, hport, hends⟩
        · intro c hc
          exact hname c (by simp [Base.authority, hc])
        · intro c hc
          exact hname c (by simp [hc])
      · cases w with
        | nil => exact absurd (htail '@' (by simpa using congrArg List.head? htail'.symm)) (by decide)
        | cons c w =>
            obtain ⟨rfl, _⟩ := List.cons.inj htail'
            exact absurd (by simp [hauth]) (at_notMem_authority base)
  · intro h
    rcases h with ⟨c, more, hhost, hc⟩ | ⟨hhost, user, port, rest, rfl, huser, hport, hends⟩
    · refine ⟨ip.display, c :: more ++ base.portText ++ tail, ?_, ?_, ?_⟩
      · simp [Base.authority, hhost]
      · exact ⟨[], [], by simp, .inl rfl, .inl rfl⟩
      · intro d hd
        obtain rfl : c = d := by simpa using hd
        exact hc
    · refine ⟨base.authority ++ user ++ ['@'] ++ ip.display ++ port, rest, by simp, ?_, hends⟩
      refine ⟨base.authority ++ user ++ ['@'], port, rfl, .inr ⟨_, rfl, ?_⟩, hport⟩
      intro c hc
      rcases List.mem_append.mp hc with hc | hc
      · exact isUserinfoChar_of_mem_authority hhost hc
      · exact huser c hc

end Base

/-! ## The exact condition -/

/-- Wherever the text shows the target, the loop takes the URL and its authority
is the target alone or the target and a port. -/
def Covered (target : SocketAddrV4) (text : Text) : Prop :=
  ∀ before after, text = before ++ sep ++ after → EndsAlpha before →
    NamesHost target.ip.display after →
      Taken before ∧ IsBareTarget target (authorityOf after)

/-- Where a URL of the target is replaced, the base does not show the target
again: its host does not begin with it, and no text follows that turns the base
into a userinfo of it. -/
def NoRunOn (target : SocketAddrV4) (base : Base) (text : Text) : Prop :=
  EndsAlpha base.scheme → ∀ before after, text = before ++ sep ++ after → Taken before →
    IsBareTarget target (authorityOf after) →
      ¬ BeginsLike target.ip base.host ∧
        ((∀ c ∈ base.host, isUserinfoChar c = true) → ¬ RunsOn target.ip (afterAuthority after))

theorem afterAuthority_eq {authority tail : Text}
    (h : authority = authorityOf (authority ++ tail)) :
    afterAuthority (authority ++ tail) = tail := by
  have hwhole := authorityOf_append_afterAuthority (authority ++ tail)
  rw [← h] at hwhole
  exact List.append_cancel_left hwhole

theorem acceptedIn_scan_iff (target : SocketAddrV4) {text before after : Text}
    (h : text = before ++ sep ++ after) :
    AcceptedIn (fun authority => isTarget authority target) (scan text) before ↔
      Taken before ∧ IsBareTarget target (authorityOf after) := by
  simp only [acceptedIn_iff_urlAt, urlAt_scan, isTarget_iff]
  constructor
  · intro h
    obtain ⟨authority, tail, ⟨heq, htaken, hauth⟩, hbare⟩ := h
    obtain rfl : after = authority ++ tail := List.append_cancel_left (h.symm.trans heq)
    exact ⟨htaken, hauth ▸ hbare⟩
  · intro h
    obtain ⟨htaken, hbare⟩ := h
    exact ⟨authorityOf after, afterAuthority after, ⟨by simp [h], htaken, by simp⟩, hbare⟩

theorem followedIn_scan_iff (target : SocketAddrV4) (Q : Text → Prop) (text : Text) :
    FollowedIn (fun authority => isTarget authority target) Q (scan text) ↔
      ∃ before after, text = before ++ sep ++ after ∧ Taken before ∧
        IsBareTarget target (authorityOf after) ∧ Q (afterAuthority after) := by
  simp only [followedIn_iff_urlAt, urlAt_scan, isTarget_iff]
  constructor
  · intro h
    obtain ⟨before, authority, tail, ⟨heq, htaken, hauth⟩, hbare, hQ⟩ := h
    exact ⟨before, authority ++ tail, heq, htaken, hauth ▸ hbare,
      (afterAuthority_eq hauth).symm ▸ hQ⟩
  · intro h
    obtain ⟨before, after, heq, htaken, hbare, hQ⟩ := h
    exact ⟨before, authorityOf after, afterAuthority after, ⟨by simp [heq], htaken, by simp⟩,
      hbare, hQ⟩

/-- **The rewriter hides the target exactly when** every place that shows it is
a URL the loop takes with an authority `is_target` accepts, and the base it is
replaced by neither begins with the target nor is followed by text that makes a
userinfo of it. -/
theorem rewriteText_leak_free_iff (target : SocketAddrV4) (base : Base) (s : Text)
    (hbase : base.host ≠ target.ip.display) :
    (∃ out, rewriteText target base.asStr s = some out ∧ ¬ Leaks target.ip.display out) ↔
      Covered target s ∧ NoRunOn target base s := by
  have hwanted : ∀ front, isTarget (front ++ [':']) target = false := by
    intro front
    by_contra h
    have hbare := (isTarget_iff ..).mp (Bool.not_eq_false _ ▸ h)
    exact hbare.ne_concat_colon front rfl
  have hcovered : ¬ LeaksAt (fun before =>
        ¬ AcceptedIn (fun authority => isTarget authority target) (scan s) before)
        target.ip.display s ↔ Covered target s := by
    constructor
    · intro h before after heq halpha hnames
      by_contra hnot
      rw [← acceptedIn_scan_iff target heq] at hnot
      exact h ⟨before, after, heq, halpha, hnames, hnot⟩
    · rintro h ⟨before, after, heq, halpha, hnames, hnot⟩
      exact hnot ((acceptedIn_scan_iff target heq).mpr (h before after heq halpha hnames))
  have hrunOn : ¬ FollowedIn (fun authority => isTarget authority target)
        (ShowsBehind target.ip base) (scan s) ↔ NoRunOn target base s := by
    rw [followedIn_scan_iff]
    have hshows (after) := showsBehind_iff hbase fun _ => @head_afterAuthority after _
    constructor
    · intro h halpha before after heq htaken hbare
      have hnot : ¬ ShowsBehind target.ip base (afterAuthority after) := fun hshown =>
        h ⟨before, after, heq, htaken, hbare, hshown⟩
      rw [hshows, not_and, not_or, not_and] at hnot
      exact hnot halpha
    · intro h hfollowed
      obtain ⟨before, after, heq, htaken, hbare, hshown⟩ := hfollowed
      obtain ⟨halpha, hshown⟩ := (hshows after).mp hshown
      obtain ⟨hbegins, hruns⟩ := h halpha before after heq htaken hbare
      rcases hshown with hshown | ⟨hhost, hshown⟩
      · exact hbegins hshown
      · exact hruns hhost hshown
  rw [rewriteText_eq, base.asStr_trimEndMatches]
  rw [← hcovered, ← hrunOn, ← not_or, ← leaks_swap_iff hwanted]
  simp

/-- On a link with a path, whose authority is the target alone. -/
theorem rewriteText_leak_free_link :
    let link := "see https://10.0.0.1/redfish/v1".toList
    proxyBase.host ≠ bmcTarget.ip.display ∧
      ((∃ out, rewriteText bmcTarget proxyBase.asStr link = some out ∧
          ¬ Leaks bmcTarget.ip.display out) ↔
        Covered bmcTarget link ∧ NoRunOn bmcTarget proxyBase link) :=
  ⟨by decide, rewriteText_leak_free_iff bmcTarget proxyBase _ (by decide)⟩

/-- A newline ends a host but not an authority, so this link comes back as it
went in. -/
theorem rewriteText_newline_leaks :
    proxyBase.host ≠ bmcTarget.ip.display ∧
      ∃ out, rewriteText bmcTarget proxyBase.asStr "https://10.0.0.1:8000\n".toList = some out ∧
        Leaks bmcTarget.ip.display out := by
  refine ⟨by decide, "https://10.0.0.1:8000\n".toList, by decide +kernel, ?_⟩
  refine ⟨"https".toList, "10.0.0.1:8000\n".toList, rfl, ⟨"http".toList, 's', rfl, by decide⟩, ?_⟩
  refine ⟨"10.0.0.1:8000".toList, ['\n'], rfl, ⟨[], ":8000".toList, rfl, .inl rfl, ?_⟩, ?_⟩
  · exact .inr ⟨"8000".toList, rfl, by decide⟩
  · intro c hc
    obtain rfl : '\n' = c := by simpa using hc
    decide

end RedfishProxy.Http
