import RedfishProxy.Http.HidesTarget

/-!
# The one cut of a text

`scan` is how the loop cuts a text. Here the cut is put in terms of the text
alone: URLs whose scheme is a maximal run and whose authority ends at the first
delimiter, and between them text in which no `://` opens a URL. A text has
exactly one such cut, and the swap replaces its accepted URLs and nothing else.

Main results:
* `cuts_scan`, `eq_of_isCutOf`: the loop's cut is one, and is the only one.
* `swap_eq_replaced`: the swap writes the cut out again.
* `swap_touches_accepted`: both, and the two corollaries for `is_target`.
-/

namespace RedfishProxy.Http

open Lib

/-- `scheme://authority`. -/
structure Url where
  scheme : Text
  authority : Text
  deriving DecidableEq

def Url.text (u : Url) : Text := u.scheme ++ sep ++ u.authority

/-- `p0 u1 p1 … un pn`, each URL with the text behind it. -/
structure Cut where
  lead : Text
  urls : List (Url × Text)
  deriving DecidableEq

def spellUrls (write : Url → Text) (urls : List (Url × Text)) : Text :=
  urls.flatMap fun p => write p.1 ++ p.2

@[simp] theorem spellUrls_nil (write : Url → Text) : spellUrls write [] = [] := rfl

@[simp] theorem spellUrls_cons (write : Url → Text) (u : Url) (q : Text)
    (urls : List (Url × Text)) :
    spellUrls write ((u, q) :: urls) = write u ++ (q ++ spellUrls write urls) := by
  simp [spellUrls]

namespace Cut

/-- The cut with its URLs written by `write`. -/
def spell (write : Url → Text) (cut : Cut) : Text := cut.lead ++ spellUrls write cut.urls

/-- The text it is a cut of. -/
def source (cut : Cut) : Text := cut.spell Url.text

/-- The text with `base` in the place of every accepted URL. -/
def replaced (base : Text) (wanted : Text → Bool) (cut : Cut) : Text :=
  cut.spell fun u => if wanted u.authority then base else u.text

end Cut

/-! ## What a cut is -/

/-- Behind `before`, no `://` of `p` is directly preceded by a maximal run of
scheme characters that begins with a letter. -/
def NoUrl (before p : Text) : Prop :=
  ∀ front back, p = front ++ sep ++ back → isScheme (schemeRun (before ++ front)) = false

/-- `u` stands between `before` and `after` with a scheme that is a maximal run
and an authority that ends at the first delimiter. -/
structure IsUrlAt (before : Text) (u : Url) (after : Text) : Prop where
  maximal : schemeRun (before ++ u.scheme) = u.scheme
  letter : isScheme u.scheme = true
  inside : ∀ c ∈ u.authority, isDelimiter c = false
  ends : ∀ c, after.head? = some c → isDelimiter c = true

/-- `p u1 p1 … un pn` is cut where it should be, `before` in front of it. -/
def Cuts (before p : Text) : List (Url × Text) → Prop
  | [] => NoUrl before p
  | (u, q) :: urls =>
    NoUrl before p ∧ IsUrlAt (before ++ p) u (q ++ spellUrls Url.text urls) ∧
      Cuts (before ++ p ++ u.text) q urls

def IsCutOf (text : Text) (cut : Cut) : Prop :=
  text = cut.source ∧ Cuts [] cut.lead cut.urls

theorem IsUrlAt.isSchemeChar {before after : Text} {u : Url} (h : IsUrlAt before u after) {c : Char}
    (hc : c ∈ u.scheme) : isSchemeChar c = true := by
  rw [← h.maximal] at hc
  exact List.mem_rtakeWhile_imp hc

/-! ## What stands in front of a cut -/

theorem noUrl_aligned {before p more : Text} (hal : Aligned before (p ++ more)) :
    NoUrl before p ↔ NoUrl [] p := by
  have hrun : ∀ front back, p = front ++ sep ++ back →
      schemeRun (before ++ front) = schemeRun front := by
    intro front back hp
    have hrest : p ++ more = front ++ sep ++ (back ++ more) := by simp [hp]
    exact schemeRun_aligned hal hrest
  constructor
  · intro h front back hp
    rw [List.nil_append, ← hrun front back hp]
    exact h front back hp
  · intro h front back hp
    rw [hrun front back hp]
    exact h front back hp

theorem isUrlAt_aligned {before p after : Text} {u : Url}
    (hal : Aligned before (p ++ (u.text ++ after))) :
    IsUrlAt (before ++ p) u after ↔ IsUrlAt p u after := by
  have hrun : schemeRun (before ++ p ++ u.scheme) = schemeRun (p ++ u.scheme) := by
    rw [List.append_assoc]
    have hrest : p ++ (u.text ++ after) = p ++ u.scheme ++ sep ++ (u.authority ++ after) := by
      simp [Url.text]
    exact schemeRun_aligned hal hrest
  constructor
  · intro h
    exact { h with maximal := hrun ▸ h.maximal }
  · intro h
    exact { h with maximal := hrun.trans h.maximal }

/-- Nothing scheme-shaped reaches back over an aligned cursor, so what stands in
front of it does not matter to the cut behind it. -/
theorem cuts_aligned {before p : Text} {urls : List (Url × Text)}
    (hal : Aligned before (p ++ spellUrls Url.text urls)) :
    Cuts before p urls ↔ Cuts [] p urls := by
  induction urls generalizing before p with
  | nil => exact noUrl_aligned hal
  | cons head urls ih =>
      obtain ⟨u, q⟩ := head
      have hal' : Aligned before (p ++ (u.text ++ (q ++ spellUrls Url.text urls))) := by
        simpa using hal
      unfold Cuts
      rw [noUrl_aligned hal', isUrlAt_aligned hal', List.nil_append]
      refine and_congr_right fun _ => and_congr_right fun hurl => ?_
      exact (ih (.inr hurl.ends)).trans (ih (.inr hurl.ends)).symm

/-! ## The loop's cut is one -/

/-- The pieces of the loop as a cut: text it skipped over joins what follows. -/
def cutOf : List Piece → Cut
  | [] => ⟨[], []⟩
  | .plain text :: pieces => ⟨text ++ (cutOf pieces).lead, (cutOf pieces).urls⟩
  | .url scheme authority :: pieces =>
    ⟨[], (⟨scheme, authority⟩, (cutOf pieces).lead) :: (cutOf pieces).urls⟩

theorem spell_cutOf {write : Url → Text} {f : Piece → Text} (hplain : ∀ t, f (.plain t) = t)
    (hurl : ∀ scheme authority, f (.url scheme authority) = write ⟨scheme, authority⟩)
    (pieces : List Piece) : (cutOf pieces).spell write = pieces.flatMap f := by
  induction pieces with
  | nil => rfl
  | cons piece pieces ih =>
      rw [List.flatMap_cons, ← ih]
      cases piece with
      | plain text => simp [cutOf, Cut.spell, hplain]
      | url scheme authority => simp [cutOf, Cut.spell, hurl]

theorem source_cutOf (text : Text) : (cutOf (scan text)).source = text :=
  (spell_cutOf (fun _ => rfl) (fun _ _ => rfl) _).trans (source_scan text)

/-- The swap writes the loop's cut out again. -/
theorem swap_eq_replaced (base : Text) (wanted : Text → Bool) (text : Text) :
    swap base wanted text = (cutOf (scan text)).replaced base wanted :=
  (spell_cutOf (fun _ => rfl) (fun _ _ => rfl) _).symm

theorem NoSep.noUrl {p : Text} (h : NoSep p) (before : Text) : NoUrl before p := by
  intro front back hp
  exact absurd hp (h front back)

/-- A `://` that opens no URL joins the text behind it. -/
theorem cuts_skip {x p : Text} {urls : List (Url × Text)} (hx : NoSep x)
    (hs : isScheme (schemeRun x) = false) :
    Cuts [] (x ++ sep ++ p) urls ↔ Cuts [] p urls := by
  have hal : ∀ more, Aligned (x ++ sep) (p ++ more) := by
    intro more
    refine .inl ?_
    intro c hc
    simpa using hc.symm
  have hno : NoUrl [] (x ++ sep ++ p) ↔ NoUrl [] p := by
    have hback := hal []
    constructor
    · intro h front back hp
      have hrest : p ++ [] = front ++ sep ++ back := by rw [List.append_nil, hp]
      have hrun : schemeRun (x ++ sep ++ front) = schemeRun front := schemeRun_aligned hback hrest
      rw [List.nil_append, ← hrun]
      exact h (x ++ sep ++ front) back (by simp [hp])
    · intro h front back hp
      rcases hx.cases hp with ⟨rfl, _⟩ | ⟨front, rfl, hp'⟩
      · exact hs
      · have hrest : p ++ [] = front ++ sep ++ back := by rw [List.append_nil, hp']
        have hrun : schemeRun (x ++ sep ++ front) = schemeRun front :=
          schemeRun_aligned hback hrest
        rw [List.nil_append, hrun]
        exact h front back hp'
  cases urls with
  | nil => exact hno
  | cons head urls =>
      obtain ⟨u, q⟩ := head
      unfold Cuts
      rw [hno, List.nil_append, List.nil_append, isUrlAt_aligned (hal _)]
      refine and_congr_right fun _ => and_congr_right fun hurl => ?_
      exact (cuts_aligned (.inr hurl.ends)).trans (cuts_aligned (.inr hurl.ends)).symm

/-- **The loop's cut is a cut.** -/
theorem cuts_scan (text : Text) : Cuts [] (cutOf (scan text)).lead (cutOf (scan text)).urls := by
  induction text using scan_induction with
  | plain text h =>
      rw [scan_none h]
      intro front back hp
      exact absurd (by simpa [cutOf] using hp) (Text.splitOnce_eq_none h (a := front) (b := back))
  | skip text before after h hs ih =>
      rw [scan_skip h hs]
      exact (cuts_skip (NoSep.of_splitOnce h) hs).mpr ih
  | url text before after h hs ih =>
      rw [scan_url h hs]
      have htail : (cutOf (scan (afterAuthority after))).lead ++
          spellUrls Url.text (cutOf (scan (afterAuthority after))).urls = afterAuthority after :=
        source_cutOf _
      have hbefore : beforeRun before ++ schemeRun before = before := by
        simpa using beforeRun_append_schemeRun before []
      have hurl : IsUrlAt (beforeRun before) ⟨schemeRun before, authorityOf after⟩
          (afterAuthority after) := {
        maximal := congrArg schemeRun hbefore
        letter := hs
        inside := fun c hc => isDelimiter_of_mem_authorityOf hc
        ends := fun c hc => head_afterAuthority hc }
      have hlead : NoSep (beforeRun before ++ schemeRun before) :=
        hbefore.symm ▸ NoSep.of_splitOnce h
      refine ⟨?_, ?_, ?_⟩
      · simpa [cutOf] using hlead.of_append.noUrl []
      · simpa [cutOf, htail] using hurl
      · refine (cuts_aligned (.inr ?_)).mpr ih
        rw [htail]
        exact hurl.ends

/-! ## There is no other -/

/-- Where the first `://` of a cut text stands: it opens the first URL, or it
lies in the text in front of that. -/
theorem NoSep.cases_url {x y p rest before : Text} {u : Url} (hx : NoSep x)
    (hurl : IsUrlAt before u rest) (h : x ++ sep ++ y = p ++ (u.text ++ rest)) :
    (p ++ u.scheme = x ∧ y = u.authority ++ rest) ∨
      ∃ p', p = x ++ sep ++ p' ∧ y = p' ++ (u.text ++ rest) := by
  have h' : x ++ sep ++ y = (p ++ u.scheme) ++ sep ++ (u.authority ++ rest) := by
    simpa [Url.text] using h
  rcases hx.cases h' with ⟨hscheme, hy⟩ | ⟨front, hfront, hy⟩
  · exact .inl ⟨hscheme, hy.symm⟩
  · have hsplit : ∃ p', p = x ++ sep ++ p' ∧ front = p' ++ u.scheme := by
      rcases List.append_eq_append_iff.mp hfront with ⟨z, hz, hscheme⟩ | ⟨z, hz, hfront⟩
      · -- the scheme would hold the slash that ends the separator
        rcases List.eq_nil_or_concat z with rfl | ⟨z', c, rfl⟩
        · exact ⟨[], by simpa using hz.symm, by simpa using hscheme.symm⟩
        · rw [show x ++ sep = (x ++ [':', '/']) ++ ['/'] by simp, List.concat_eq_append,
            ← List.append_assoc] at hz
          obtain rfl : '/' = c := by simpa using List.append_inj_right' hz rfl
          exact absurd (hurl.isSchemeChar (c := '/') (by simp [hscheme])) (by decide)
      · exact ⟨z, hz, hfront⟩
    obtain ⟨p', hp, rfl⟩ := hsplit
    exact .inr ⟨p', hp, by simp [hy, Url.text]⟩

theorem schemeRun_append_of_maximal {p scheme : Text} (h : schemeRun (p ++ scheme) = scheme) :
    beforeRun (p ++ scheme) = p := by
  have hwhole := beforeRun_append_schemeRun (p ++ scheme) []
  rw [h, List.append_nil, List.append_nil] at hwhole
  exact List.append_cancel_right hwhole

/-- An authority that ends at the first delimiter is the one the scan reads. -/
theorem IsUrlAt.authorityOf {before rest : Text} {u : Url} (h : IsUrlAt before u rest) :
    authorityOf (u.authority ++ rest) = u.authority := by
  unfold Http.authorityOf
  rw [List.takeWhile_append_of_pos (by simpa using h.inside)]
  cases rest with
  | nil => simp
  | cons c rest => simp [h.ends c rfl]

/-- **A cut is the loop's.** -/
theorem eq_of_cuts (text : Text) : ∀ p urls, text = p ++ spellUrls Url.text urls →
    Cuts [] p urls → cutOf (scan text) = ⟨p, urls⟩ := by
  induction text using scan_induction with
  | plain text h =>
      intro p urls htext hcuts
      cases urls with
      | nil =>
          rw [scan_none h]
          simpa [cutOf] using htext
      | cons head urls =>
          -- a URL holds a separator, and the text holds none
          obtain ⟨u, q⟩ := head
          have hsep : text = (p ++ u.scheme) ++ sep ++
              (u.authority ++ (q ++ spellUrls Url.text urls)) := by
            simp [htext, Url.text]
          exact absurd hsep (Text.splitOnce_eq_none h)
  | skip text before after h hs ih =>
      intro p urls htext hcuts
      have hx := NoSep.of_splitOnce h
      have hafter : ∃ p', p = before ++ sep ++ p' ∧ after = p' ++ spellUrls Url.text urls := by
        cases urls with
        | nil =>
            refine ⟨after, ?_, by simp⟩
            rw [← Text.splitOnce_eq_some h, htext]
            simp
        | cons head urls =>
            obtain ⟨u, q⟩ := head
            obtain ⟨_, hurl, _⟩ := hcuts
            rw [List.nil_append] at hurl
            have heq : before ++ sep ++ after =
                p ++ (u.text ++ (q ++ spellUrls Url.text urls)) := by
              rw [← Text.splitOnce_eq_some h, htext]
              simp
            rcases hx.cases_url hurl heq with ⟨hscheme, _⟩ | ⟨p', hp, hafter⟩
            · rw [← hscheme, hurl.maximal, hurl.letter] at hs
              cases hs
            · exact ⟨p', hp, by simpa using hafter⟩
      obtain ⟨p', rfl, hafter⟩ := hafter
      rw [scan_skip h hs, cutOf, ih p' urls hafter ((cuts_skip hx hs).mp hcuts)]
  | url text before after h hs ih =>
      intro p urls htext hcuts
      have hx := NoSep.of_splitOnce h
      have hno : ∀ p', p ≠ before ++ sep ++ p' := by
        rintro p' rfl
        have hnone : NoUrl [] (before ++ sep ++ p') := by
          cases urls with
          | nil => exact hcuts
          | cons head urls => exact hcuts.1
        exact absurd hs (by simpa using hnone before p' rfl)
      cases urls with
      | nil =>
          refine absurd ?_ (hno after)
          rw [← Text.splitOnce_eq_some h, htext]
          simp
      | cons head urls =>
          obtain ⟨u, q⟩ := head
          obtain ⟨_, hurl, hrest⟩ := hcuts
          have heq : before ++ sep ++ after =
              p ++ (u.text ++ (q ++ spellUrls Url.text urls)) := by
            rw [← Text.splitOnce_eq_some h, htext]
            simp
          rcases hx.cases_url hurl heq with ⟨rfl, rfl⟩ | ⟨p', hp, _⟩
          · have hmax : schemeRun (p ++ u.scheme) = u.scheme := hurl.maximal
            have hauthority := hurl.authorityOf
            have htail : afterAuthority (u.authority ++ (q ++ spellUrls Url.text urls)) =
                q ++ spellUrls Url.text urls := afterAuthority_eq hauthority.symm
            rw [scan_url h hs, cutOf, cutOf, hmax, schemeRun_append_of_maximal hmax, hauthority,
              ih q urls htail ((cuts_aligned (.inr hurl.ends)).mp hrest)]
            simp
          · exact absurd hp (hno p')

theorem eq_of_isCutOf {text : Text} {cut : Cut} (h : IsCutOf text cut) :
    cutOf (scan text) = cut := eq_of_cuts text cut.lead cut.urls h.1 h.2

theorem isCutOf_scan (text : Text) : IsCutOf text (cutOf (scan text)) :=
  ⟨(source_cutOf text).symm, cuts_scan text⟩

/-! ## The swap, cut by cut -/

theorem swapAuthorities_cut {text : Text} {cut : Cut} (h : IsCutOf text cut) (base : Text)
    (wanted : Text → Bool) : swapAuthorities base text wanted =
      some (cut.replaced (base.trimEndMatches '/') wanted) := by
  rw [swapAuthorities_eq, swap_eq_replaced, eq_of_isCutOf h]

instance (target : SocketAddrV4) : DecidablePred (IsBareTarget target) :=
  fun authority => decidable_of_iff _ (isTarget_iff authority target)

/-- What `rewrite_text` accepts, in the cut's terms. -/
theorem replaced_isTarget (cut : Cut) (base : Text) (target : SocketAddrV4) :
    cut.replaced base (isTarget · target) =
      cut.spell fun u => if IsBareTarget target u.authority then base else u.text := by
  refine congrArg (Cut.spell · cut) ?_
  funext u
  exact if_congr (isTarget_iff ..) rfl rfl

/-- **The swap touches nothing but the authorities it accepts.** A text has one
cut, and the swap writes it with the base for each accepted URL. -/
theorem swap_touches_accepted (text : Text) :
    ∃ cut, (IsCutOf text cut ∧ ∀ other, IsCutOf text other → other = cut) ∧
      (∀ base wanted, swapAuthorities base text wanted =
        some (cut.replaced (base.trimEndMatches '/') wanted)) ∧
      (∀ base, swapAuthorities base text (fun _ => false) = some text) ∧
      ∀ base target, rewriteText target base text =
        some (cut.spell fun u =>
          if IsBareTarget target u.authority then base.trimEndMatches '/' else u.text) := by
  have hcut := isCutOf_scan text
  refine ⟨cutOf (scan text), ⟨hcut, ?_⟩, ?_, ?_, ?_⟩
  · intro other h
    exact (eq_of_isCutOf h).symm
  · exact swapAuthorities_cut hcut
  · intro base
    rw [swapAuthorities_cut hcut]
    exact congrArg some hcut.1.symm
  · intro base target
    rw [rewriteText_eq, swap_eq_replaced, replaced_isTarget]

end RedfishProxy.Http
