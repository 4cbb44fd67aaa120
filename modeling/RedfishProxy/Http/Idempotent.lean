import RedfishProxy.Http.Cut
import RedfishProxy.Http.HeaderFrame

/-!
# Rewriting twice

What the second swap of a text finds is read off the cut of the first: the cut
of a swapped text is the cut of the text with the base's own URL for each that
was accepted (`cuts_respell`). In a text the base is cut like any URL, at the
first delimiter, so a host with a quote or a comma is not taken back whole; that
is the only way a second rewrite can differ.

Main results:
* `swap_swap_iff`: when a swap can be repeated, for any predicate.
* `rewriting_idempotent`: what that makes of each rewrite of the code.
-/

namespace RedfishProxy.Http

open Lib

namespace Base

variable (base : Base)

/-- The URL a text with the base in it is cut to. -/
def url : Url := ⟨base.scheme, authorityOf base.authority⟩

/-- What the cut leaves of the base behind that URL. -/
def rest : Text := afterAuthority base.authority

@[simp] theorem url_text_append_rest (t : Text) : base.url.text ++ (base.rest ++ t) =
    base.text ++ t := by
  simp only [url, rest, Url.text, text, List.append_assoc]
  rw [← List.append_assoc (authorityOf _), authorityOf_append_afterAuthority]

theorem slash_notMem_rest : '/' ∉ base.rest := by
  intro h
  exact base.slash_notMem_authority ((List.dropWhile_suffix _).subset h)

theorem rest_ne_concat_colon (front : Text) : base.rest ≠ front ++ [':'] := by
  intro h
  refine base.authority_ne_concat_colon (authorityOf base.authority ++ front) ?_
  rw [List.append_assoc, ← h]
  exact (authorityOf_append_afterAuthority _).symm

theorem isDelimiter_head_rest {c : Char} (h : base.rest.head? = some c) : isDelimiter c = true :=
  head_afterAuthority h

theorem isScheme_scheme : isScheme base.scheme = true := by
  obtain ⟨first, rest, heq, hfirst, _⟩ := base.schemeOk
  simp [isScheme, heq, hfirst]

/-- The host has none of the delimiters a host can have. -/
def Unquoted : Prop := ∀ c ∈ base.host, c ≠ '"' ∧ c ≠ '\'' ∧ c ≠ ','

variable {base} in
theorem mem_host {c : Char} (hc : c ∈ base.host) :
    isHostChar c = true ∨ c.isAlphanum = true ∨ c ∈ ['[', ']', ':', '.'] := by
  rcases base.hostOk with ⟨_, hall⟩ | ⟨inner, heq, hall⟩
  · exact .inl (hall c hc)
  · rw [heq] at hc
    simp only [List.cons_append, List.mem_cons, List.mem_append, List.not_mem_nil, or_false] at hc
    rcases hc with rfl | hc | rfl
    · exact .inr (.inr (by decide))
    · rcases hall c hc with h | rfl | rfl
      · exact .inr (.inl h)
      · exact .inr (.inr (by decide))
      · exact .inr (.inr (by decide))
    · exact .inr (.inr (by decide))

variable {base} in
theorem mem_authority {c : Char} (hc : c ∈ base.authority) :
    c ∈ base.host ∨ c = ':' ∨ c.isDigit = true := by
  rcases List.mem_append.mp hc with hc | hc
  · exact .inl hc
  · unfold portText at hc
    cases hport : base.port with
    | none => simp [hport] at hc
    | some digits =>
        rw [hport] at hc
        rcases List.mem_cons.mp hc with rfl | hc
        · exact .inr (.inl rfl)
        · exact .inr (.inr ((base.portOk digits hport).2 c hc))

theorem isDelimiter_of_mem_host {c : Char} (hc : c ∈ base.host) (hdelimiter : isDelimiter c = true) :
    c = '"' ∨ c = '\'' ∨ c = ',' := by
  simp only [isDelimiter, List.mem_cons, List.not_mem_nil, or_false, decide_eq_true_eq]
    at hdelimiter
  have hclosed : ∀ d ∈ ['/', '?', '#', '<', '>', ' ', '\t'],
      ¬ (isHostChar d = true ∨ d.isAlphanum = true ∨ d ∈ ['[', ']', ':', '.']) := by decide
  have hnot : c ∉ ['/', '?', '#', '<', '>', ' ', '\t'] := fun hmem => hclosed c hmem (mem_host hc)
  simp only [List.mem_cons, List.not_mem_nil, or_false] at hnot
  tauto

theorem rest_eq_nil_iff : base.rest = [] ↔ base.Unquoted := by
  unfold rest afterAuthority
  rw [List.dropWhile_eq_nil_iff]
  constructor
  · intro h c hc
    have hplain := h c (List.mem_append_left _ hc)
    refine ⟨?_, ?_, ?_⟩ <;>
    · rintro rfl
      exact absurd hplain (by decide)
  · intro h c hc
    rw [Bool.not_eq_true', ← Bool.not_eq_true]
    intro hdelimiter
    rcases mem_authority hc with hc | rfl | hdigit
    · have := h c hc
      have := base.isDelimiter_of_mem_host hc hdelimiter
      tauto
    · exact absurd hdelimiter (by decide)
    · -- no delimiter is a digit
      have hscheme : isSchemeChar c = true := by simp [isSchemeChar, Char.isAlphanum, hdigit]
      rw [isSchemeChar_of_isDelimiter hdelimiter] at hscheme
      cases hscheme

theorem isAscii_of_isSchemeChar {c : Char} (hc : isSchemeChar c = true) :
    32 ≤ c.toNat ∧ c.toNat < 127 := by
  have hlt : c.toNat < 128 := by
    have hword := hc
    simp only [isSchemeChar, Bool.or_eq_true, beq_iff_eq] at hword
    rcases hword with ((hword | rfl) | rfl) | rfl
    · exact Text.toNat_of_isAlphanum hword
    all_goals decide
  exact Text.ascii_cases (P := fun c => isSchemeChar c = true → 32 ≤ c.toNat ∧ c.toNat < 127)
    (by decide) hlt hc

/-- `as_str` is printable ASCII. -/
theorem isAscii_asStr (c : Char) (hc : c ∈ base.asStr) : 32 ≤ c.toNat ∧ c.toNat < 127 := by
  have halnum : ∀ c : Char, c.isAlphanum = true → 32 ≤ c.toNat ∧ c.toNat < 127 := by
    intro c hc
    exact isAscii_of_isSchemeChar (by simp [isSchemeChar, hc])
  have hclosed : ∀ c ∈ ['[', ']', ':', '.'], 32 ≤ c.toNat ∧ c.toNat < 127 := by decide
  rcases List.mem_append.mp hc with hc | hc
  · rcases List.mem_append.mp hc with hc | hc
    · rcases List.mem_append.mp hc with hc | hc
      · exact isAscii_of_isSchemeChar (Base.mem_scheme hc)
      · have hsep : ∀ c ∈ sep, 32 ≤ c.toNat ∧ c.toNat < 127 := by decide
        exact hsep c hc
    · rcases mem_authority hc with hc | rfl | hdigit
      · rcases mem_host hc with hhost | hword | hother
        · simp only [isHostChar, Bool.and_eq_true, decide_eq_true_eq] at hhost
          omega
        · exact halnum c hword
        · exact hclosed c hother
      · exact hclosed ':' (by decide)
      · exact halnum c (by simp [Char.isAlphanum, hdigit])
  · cases hslash : base.slash with
    | false => simp [hslash] at hc
    | true =>
        obtain rfl : c = '/' := by simpa [hslash] using hc
        decide

end Base

/-! ## The cut of a swapped text -/

section Respell

variable (base : Base) (wanted : Text → Bool)

/-- A URL and the text behind it, in the swapped text. -/
def respell (p : Url × Text) : Url × Text :=
  if wanted p.1.authority then (base.url, base.rest ++ p.2) else p

theorem spell_respell (urls : List (Url × Text)) :
    spellUrls Url.text (urls.map (respell base wanted)) =
      spellUrls (fun u => if wanted u.authority then base.text else u.text) urls := by
  induction urls with
  | nil => rfl
  | cons head urls ih =>
      obtain ⟨u, q⟩ := head
      rw [List.map_cons, spellUrls_cons _ u, ← ih]
      cases hwanted : wanted u.authority with
      | true => simp [respell, hwanted]
      | false => simp [respell, hwanted]

variable {base wanted}

/-- What ends an authority is still there once the URLs behind it are swapped. -/
theorem head_respell {before q : Text} {urls : List (Url × Text)} (hcuts : Cuts before q urls)
    (hends : ∀ c, (q ++ spellUrls Url.text urls).head? = some c → isDelimiter c = true) {c : Char}
    (hc : (q ++ spellUrls Url.text (urls.map (respell base wanted))).head? = some c) :
    isDelimiter c = true := by
  cases q with
  | cons d q => exact hends c (by simpa using hc)
  | nil =>
      cases urls with
      | nil => simp at hc
      | cons head urls =>
          -- a URL starts with a letter, and no delimiter is one
          obtain ⟨u, q⟩ := head
          obtain ⟨_, hurl, _⟩ := hcuts
          obtain ⟨letter, scheme, hscheme⟩ : ∃ letter scheme, u.scheme = letter :: scheme := by
            cases heq : u.scheme with
            | nil => exact absurd hurl.letter (by simp [heq, isScheme])
            | cons letter scheme => exact ⟨letter, scheme, rfl⟩
          have hletter := hends letter (by simp [Url.text, hscheme])
          have := hurl.isSchemeChar (c := letter) (by simp [hscheme])
          rw [isSchemeChar_of_isDelimiter hletter] at this
          cases this

/-- The rest of the base opens no URL with the text behind it. -/
theorem cuts_rest {q : Text} {urls : List (Url × Text)} (hcuts : Cuts [] q urls)
    (hends : ∀ c, (q ++ spellUrls Url.text urls).head? = some c → isDelimiter c = true) :
    Cuts [] (base.rest ++ q) urls := by
  have hno : NoUrl [] q → NoUrl [] (base.rest ++ q) := by
    intro h front back heq
    rcases authority_cases base.slash_notMem_rest heq with ⟨front, rfl, hq⟩ | ⟨hcolon, _⟩
    · have hal : Aligned base.rest (q ++ spellUrls Url.text urls) := .inr hends
      exact (noUrl_aligned hal).mpr h front back hq
    · exact absurd hcolon (base.rest_ne_concat_colon front)
  cases urls with
  | nil => exact hno hcuts
  | cons head urls =>
      obtain ⟨u, p⟩ := head
      obtain ⟨hnoq, hurl, hrest⟩ := hcuts
      have hal : Aligned base.rest (q ++ (u.text ++ (p ++ spellUrls Url.text urls))) :=
        .inr (by simpa only [spellUrls_cons] using hends)
      refine ⟨hno hnoq, ?_, ?_⟩
      · exact (isUrlAt_aligned hal).mpr hurl
      · exact (cuts_aligned (.inr hurl.ends)).mpr ((cuts_aligned (.inr hurl.ends)).mp hrest)

theorem schemeRun_append {before scheme : Text} (h : ∀ c ∈ scheme, isSchemeChar c = true) :
    schemeRun (before ++ scheme) = schemeRun before ++ scheme := by
  unfold schemeRun List.rtakeWhile
  rw [List.reverse_append, List.takeWhile_append_of_pos (by simpa using h), List.reverse_append,
    List.reverse_reverse]

/-- Where a scheme is a maximal run, so is the base's in its place. -/
theorem maximal_scheme {before after : Text} {u : Url} (h : IsUrlAt before u after) :
    schemeRun (before ++ base.scheme) = base.scheme := by
  have hrun := h.maximal
  rw [schemeRun_append fun c => h.isSchemeChar] at hrun
  rw [schemeRun_append fun c => Base.mem_scheme, List.append_left_eq_self.mp hrun, List.nil_append]

/-- **The cut of a swapped text.** -/
theorem cuts_respell {before p : Text} {urls : List (Url × Text)} (hcuts : Cuts before p urls) :
    Cuts before p (urls.map (respell base wanted)) := by
  induction urls generalizing before p with
  | nil => exact hcuts
  | cons head urls ih =>
      obtain ⟨u, q⟩ := head
      obtain ⟨hno, hurl, hrest⟩ := hcuts
      have hq : Cuts [] q urls := (cuts_aligned (.inr hurl.ends)).mp hrest
      have hends : ∀ c, (q ++ spellUrls Url.text (urls.map (respell base wanted))).head? = some c →
          isDelimiter c = true := fun c => head_respell hq hurl.ends
      have htail := ih hq
      cases hwanted : wanted u.authority with
      | false =>
          rw [List.map_cons, respell, if_neg (by simp [hwanted])]
          exact ⟨hno, { hurl with ends := hends }, (cuts_aligned (.inr hends)).mpr htail⟩
      | true =>
          rw [List.map_cons, respell, if_pos hwanted]
          have hbehind : ∀ c, (base.rest ++ q ++
              spellUrls Url.text (urls.map (respell base wanted))).head? = some c →
              isDelimiter c = true := by
            intro c hc
            cases hrest : base.rest with
            | nil => exact hends c (by simpa [hrest] using hc)
            | cons d rest =>
                exact base.isDelimiter_head_rest (by simpa [hrest] using hc)
          refine ⟨hno, ?_, ?_⟩
          · exact {
              maximal := maximal_scheme hurl
              letter := base.isScheme_scheme
              inside := fun c hc => isDelimiter_of_mem_authorityOf hc
              ends := hbehind }
          · exact (cuts_aligned (.inr hbehind)).mpr (cuts_rest htail hends)

theorem isCutOf_swap {text : Text} {cut : Cut} (h : IsCutOf text cut) :
    IsCutOf (swap base.text wanted text) ⟨cut.lead, cut.urls.map (respell base wanted)⟩ := by
  refine ⟨?_, cuts_respell h.2⟩
  rw [swap_eq_replaced, eq_of_isCutOf h]
  unfold Cut.source Cut.spell
  rw [spell_respell]
  rfl

/-! ## When a swap can be repeated -/

theorem spell_again (hsettled : wanted base.url.authority = true → base.rest = [])
    (urls : List (Url × Text)) :
    spellUrls (fun u => if wanted u.authority then base.text else u.text)
        (urls.map (respell base wanted)) =
      spellUrls (fun u => if wanted u.authority then base.text else u.text) urls := by
  induction urls with
  | nil => rfl
  | cons head urls ih =>
      obtain ⟨u, q⟩ := head
      rw [List.map_cons, spellUrls_cons _ u, ← ih]
      cases hwanted : wanted u.authority with
      | false => simp [respell, hwanted]
      | true =>
          cases hagain : wanted base.url.authority with
          | false => simp [respell, hwanted, hagain]
          | true => simp [respell, hwanted, hagain, hsettled hagain]

theorem swap_swap (hsettled : wanted base.url.authority = true → base.rest = []) (text : Text) :
    swap base.text wanted (swap base.text wanted text) = swap base.text wanted text := by
  have hcut := isCutOf_scan text
  rw [swap_eq_replaced _ _ (swap _ _ _), eq_of_isCutOf (isCutOf_swap hcut), swap_eq_replaced]
  unfold Cut.replaced Cut.spell
  rw [spell_again hsettled]

variable (base) in
/-- A text that is the base's own URL, with what the cut leaves of the base. -/
theorem isCutOf_url {t : Text} (ht : t = [] ∨ t = base.rest) :
    IsCutOf (base.url.text ++ t) ⟨[], [(base.url, t)]⟩ := by
  have hslash : '/' ∉ t := by
    rcases ht with rfl | rfl
    · exact List.not_mem_nil
    · exact base.slash_notMem_rest
  have hno : NoSep t := by
    rintro front back rfl
    simp at hslash
  have hscheme : schemeRun base.scheme = base.scheme := by
    have hrun : schemeRun ([] ++ base.scheme) = schemeRun [] ++ base.scheme :=
      schemeRun_append fun c => Base.mem_scheme
    simpa [schemeRun] using hrun
  refine ⟨by simp [Cut.source, Cut.spell], ?_, ?_, hno.noUrl _⟩
  · intro front back h
    simp at h
  · exact {
      maximal := hscheme
      letter := base.isScheme_scheme
      inside := fun c hc => isDelimiter_of_mem_authorityOf hc
      ends := by
        intro c hc
        rcases ht with rfl | rfl
        · simp at hc
        · exact base.isDelimiter_head_rest (by simpa using hc) }

theorem swap_url_rest (hwanted : wanted base.url.authority = true) {t : Text}
    (ht : t = [] ∨ t = base.rest) :
    swap base.text wanted (base.url.text ++ t) = base.text ++ t := by
  rw [swap_eq_replaced, eq_of_isCutOf (isCutOf_url base ht)]
  simp [Cut.replaced, Cut.spell, hwanted]

/-- A base that is not taken back whole grows when it is swapped for itself. -/
theorem swap_grows (hwanted : wanted base.url.authority = true) :
    swap base.text wanted (swap base.text wanted base.url.text) = base.text ++ base.rest := by
  have hfirst : swap base.text wanted base.url.text = base.text := by
    simpa using swap_url_rest hwanted (.inl rfl)
  have hbase : base.url.text ++ base.rest = base.text := by
    simpa using base.url_text_append_rest []
  rw [hfirst]
  simpa only [hbase] using swap_url_rest hwanted (.inr rfl)

/-- **When a swap can be repeated.** -/
theorem swap_swap_iff :
    (∀ text, swap base.text wanted (swap base.text wanted text) = swap base.text wanted text) ↔
      (wanted base.url.authority = true → base.rest = []) := by
  constructor
  · intro h hwanted
    have hgrows := swap_grows hwanted
    have hfirst : swap base.text wanted base.url.text = base.text := by
      simpa using swap_url_rest hwanted (.inl rfl)
    rw [h, hfirst] at hgrows
    exact List.append_right_eq_self.mp hgrows.symm
  · exact swap_swap

end Respell

/-! ## The rewrites of the code -/

section Twice

variable {ν : Type} (target : SocketAddrV4) (base : Base)

theorem swapped_asStr (wanted : Text → Bool) (text : Text) :
    swapped base.asStr text wanted = swap base.text wanted text := by
  rw [swapped_eq, base.asStr_trimEndMatches]

variable {target base}

theorem rewriteValue_twice
    (h : ∀ text, swap base.text (isTarget · target) (swap base.text (isTarget · target) text) =
      swap base.text (isTarget · target) text) (value : Json ν) :
    rewriteValue target base.asStr (rewriteValue target base.asStr value) =
      rewriteValue target base.asStr value := by
  induction value using Json.induction with
  | null => rfl
  | bool b => rfl
  | number n => rfl
  | string text =>
      rw [rewriteValue_string, rewriteValue_string, swapped_asStr, swapped_asStr, h]
  | array items ih =>
      rw [rewriteValue, rewriteValue, rewriteItems_eq, rewriteItems_eq, List.map_map]
      exact congrArg Json.array (List.map_congr_left ih)
  | object fields ih =>
      rw [rewriteValue, rewriteValue, rewriteFields_eq, rewriteFields_eq, List.map_map]
      refine congrArg Json.object (List.map_congr_left ?_)
      intro field hfield
      simp only [Function.comp_apply, ih field hfield]

variable (target base)

/-- The base, as a URL. -/
def Base.urlString : UrlString where
  asStr := base.asStr
  isAscii := base.isAscii_asStr

theorem rewriteHeaderValue_twice (hrest : base.rest = []) (name : HeaderName)
    (value : HeaderValue) :
    rewriteHeaderValue target base.asStr name (rewriteHeaderValue target base.asStr name value) =
      rewriteHeaderValue target base.asStr name value := by
  cases hread : value.toStr with
  | none => rw [rewriteHeaderValue_of_unreadable target base.asStr name hread,
      rewriteHeaderValue_of_unreadable target base.asStr name hread]
  | some text =>
      have hfirst := rewriteHeaderValue_of_toStr target base.urlString name hread
      have hsecond := rewriteHeaderValue_of_toStr target base.urlString name hfirst
      have hsame : ∀ wanted, swapped base.asStr (swapped base.asStr text wanted) wanted =
          swapped base.asStr text wanted := by
        intro wanted
        rw [swapped_asStr, swapped_asStr]
        exact swap_swap (fun _ => hrest) text
      exact HeaderValue.eq_of_toStr hsecond (hfirst.trans (congrArg some (hsame _).symm))

/-- `Location`, in the case the map keeps it in. -/
def LOCATION : HeaderName := ⟨"location".toList, by decide⟩

theorem getAll_rewriteHeaders_location (base : Text) (value : HeaderValue) (headers : HeaderMap)
    (h : headers.getAll LOCATION = [value]) :
    (rewriteHeaders target base headers).getAll LOCATION =
      [rewriteHeaderValue target base LOCATION value] := by
  rw [getAll_rewriteHeaders, if_pos (by decide), h]
  rfl

/-- A `Location` that is the base's own URL grows with every rewrite, where the
base is not taken back whole. -/
theorem rest_eq_nil_of_headers
    (h : ∀ headers name, (rewriteHeaders target base.asStr
        (rewriteHeaders target base.asStr headers)).getAll name =
      (rewriteHeaders target base.asStr headers).getAll name) : base.rest = [] := by
  have hurl : ∀ c ∈ base.url.text, (32 ≤ c.toNat ∧ c.toNat < 127) ∨ c = '\t' := by
    intro c hc
    have hmem := List.mem_append_left (base.rest ++ []) hc
    rw [base.url_text_append_rest, List.append_nil] at hmem
    exact .inl (base.isAscii_asStr c (List.mem_append_left _ hmem))
  obtain ⟨value, _, hread⟩ := HeaderValue.fromStr_of_visible hurl
  have hfirst := rewriteHeaderValue_of_toStr target base.urlString LOCATION hread
  have hsecond := rewriteHeaderValue_of_toStr target base.urlString LOCATION hfirst
  have hstart : (HeaderMap.new.append LOCATION value).getAll LOCATION = [value] := by simp
  have honce := getAll_rewriteHeaders_location target base.asStr value _ hstart
  have htwice := getAll_rewriteHeaders_location target base.asStr _ _ honce
  have hsame := h (HeaderMap.new.append LOCATION value) LOCATION
  rw [htwice, honce, List.singleton_inj] at hsame
  have hlocation : isBmcRelative LOCATION.name = true := by decide
  have hgrows := Option.some.inj (hsecond.symm.trans ((congrArg HeaderValue.toStr hsame).trans hfirst))
  rw [hlocation] at hgrows
  rw [if_pos rfl, show base.urlString.asStr = base.asStr from rfl, swapped_asStr, swapped_asStr,
    swap_grows rfl] at hgrows
  have hbase : swap base.text (fun _ => true) base.url.text = base.text := by
    have hurl : swap base.text (fun _ => true) (base.url.text ++ []) = base.text ++ [] :=
      swap_url_rest rfl (.inl rfl)
    simpa using hurl
  rw [hbase] at hgrows
  exact List.append_right_eq_self.mp hgrows

theorem isTarget_url_iff : (isTarget base.url.authority target = true → base.rest = []) ↔
    (IsBareTarget target base.url.authority → base.Unquoted) := by
  rw [isTarget_iff, base.rest_eq_nil_iff]

/-- **Rewriting is idempotent exactly when the base is taken back whole.** For
the target's own authorities that is when the base, cut at the first delimiter
of its host, does not name the target, or when there is none. -/
theorem rewriting_idempotent (ν : Type) :
    ((∀ text, (rewriteText target base.asStr text).bind (rewriteText target base.asStr) =
        rewriteText target base.asStr text) ↔
      (IsBareTarget target base.url.authority → base.Unquoted)) ∧
    ((∀ value : Json ν, rewriteValue target base.asStr (rewriteValue target base.asStr value) =
        rewriteValue target base.asStr value) ↔
      (IsBareTarget target base.url.authority → base.Unquoted)) ∧
    ((∀ text, (swapAuthorities base.asStr text fun _ => true).bind
          (swapAuthorities base.asStr · fun _ => true) =
        swapAuthorities base.asStr text fun _ => true) ↔ base.Unquoted) ∧
    ((∀ headers name, (rewriteHeaders target base.asStr
          (rewriteHeaders target base.asStr headers)).getAll name =
        (rewriteHeaders target base.asStr headers).getAll name) ↔ base.Unquoted) := by
  rw [← isTarget_url_iff]
  refine ⟨?_, ?_, ?_, ?_⟩
  · simp only [rewriteText_eq, base.asStr_trimEndMatches, Option.bind_some, Option.some.injEq]
    exact swap_swap_iff
  · have hswap : (∀ text, swap base.text (isTarget · target) (swap base.text (isTarget · target)
        text) = swap base.text (isTarget · target) text) ↔ _ := swap_swap_iff
    refine Iff.trans ?_ hswap
    constructor
    · intro h text
      have := h (.string text)
      rw [rewriteValue_string, rewriteValue_string, swapped_asStr, swapped_asStr] at this
      exact Json.string.inj this
    · exact rewriteValue_twice
  · simp only [swapAuthorities_eq, base.asStr_trimEndMatches, Option.bind_some, Option.some.injEq]
    rw [swap_swap_iff, base.rest_eq_nil_iff]
    simp
  · rw [← base.rest_eq_nil_iff]
    constructor
    · exact rest_eq_nil_of_headers target base
    · intro hrest headers name
      rw [getAll_rewriteHeaders target base.asStr (rewriteHeaders _ _ _)]
      split
      · rename_i hurl
        rw [getAll_rewriteHeaders, if_pos hurl, List.map_map]
        exact List.map_congr_left fun value _ => rewriteHeaderValue_twice target base hrest name value
      · rfl

theorem isRegName_comma : IsRegName "a,b".toList := ⟨by decide, by decide⟩

/-- `https://a,b/`. -/
def commaBase : Base :=
  { proxyBase with host := "a,b".toList, hostOk := .inl isRegName_comma }

/-- A host with a comma in it comes back longer each time. -/
theorem comma_host_grows :
    swapAuthorities commaBase.asStr "http://x".toList (fun _ => true) =
      some "https://a,b".toList ∧
    swapAuthorities commaBase.asStr "https://a,b".toList (fun _ => true) =
      some "https://a,b,b".toList := by
  decide

end Twice

end RedfishProxy.Http
