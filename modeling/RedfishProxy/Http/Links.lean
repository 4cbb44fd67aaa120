import RedfishProxy.Config.Validate
import RedfishProxy.Http.Cut

/-!
# Where a rewritten link points

A link `scheme://<target ip>[:port]R` through `rewrite_text`, with the base of a
configuration that was accepted: the base's scheme, host and port, and what
stands behind the target, its own links to the target rewritten as well.

Main results:
* `rewriteText_link`: the base for the authority, and `R` rewritten.
* `rewritten_link_points`: what the rewritten link parses to.
-/

namespace RedfishProxy.Http

open Lib

/-! ## Links to the target -/

/-- `scheme://<target ip>[:port]R`. -/
structure Link (target : SocketAddrV4) where
  scheme : Text
  port : Option Text
  rest : Text
  schemeOk : WebUrl.IsScheme scheme
  portOk : ∀ digits, port = some digits → digits ≠ [] ∧ ∀ d ∈ digits, d.isDigit = true
  restOk : WebUrl.IsRest rest

namespace Link

variable {target : SocketAddrV4} (link : Link target)

def authority : Text := target.ip.display ++ link.port.elim [] fun digits => ':' :: digits

/-- The link with another rest. -/
def withRest (rest : Text) : Text := link.scheme ++ "://".toList ++ link.authority ++ rest

def text : Text := link.withRest link.rest

theorem isBareTarget : IsBareTarget target link.authority := by
  unfold authority
  cases hport : link.port with
  | none =>
      rw [Option.elim_none, List.append_nil]
      exact .inl rfl
  | some digits =>
      obtain ⟨hne, hdigits⟩ := link.portOk digits hport
      exact .inr ⟨digits, hne, hdigits, rfl⟩

/-- A digit, a dot or a colon. -/
theorem mem_authority {c : Char} (h : c ∈ link.authority) :
    WebUrl.IsAuthorityChar c ∧ isDelimiter c = false := by
  have hdigit : ∀ {c : Char}, c.isDigit = true →
      WebUrl.IsAuthorityChar c ∧ isDelimiter c = false := by
    intro c hc
    have halnum : c.isAlphanum = true := by
      unfold Char.isAlphanum
      rw [hc, Bool.or_true]
    refine ⟨(WebUrl.isAuthorityChar_alphanum halnum).1, ?_⟩
    refine Text.ascii_cases (P := fun c => c.isDigit = true → isDelimiter c = false) ?_
      (Text.toNat_of_isAlphanum halnum) hc
    decide
  unfold authority at h
  rcases List.mem_append.mp h with h | h
  · rcases Ipv4Addr.mem_display h with h | rfl
    · exact hdigit h
    · decide
  · cases hport : link.port with
    | none =>
        rw [hport] at h
        cases h
    | some digits =>
        rw [hport] at h
        rcases List.mem_cons.mp h with rfl | h
        · decide
        · exact hdigit ((link.portOk digits hport).2 c h)

/-- It starts with a digit, so it is neither empty nor a drive letter. -/
theorem authority_starts : link.authority ≠ [] ∧ WebUrl.isDriveLetter link.authority = false := by
  obtain ⟨first, more, hcons, hfirst⟩ := target.ip.display_eq_cons
  have halpha : first.isAlpha = false := by
    refine Text.ascii_cases (P := fun c => c.isDigit = true → c.isAlpha = false) ?_ ?_ hfirst
    · decide
    · have := Text.isDigit_toNat hfirst
      omega
  unfold authority
  rw [hcons, List.cons_append]
  refine ⟨List.cons_ne_nil _ _, ?_⟩
  unfold WebUrl.isDriveLetter
  split
  · rename_i heq
    rw [← (List.cons.inj heq).1, halpha, Bool.false_and]
  · rfl

end Link

/-! ## The swap in a link -/

theorem splitOnce_sep {front : Text} (h : ':' ∉ front) (back : Text) :
    (front ++ sep ++ back).splitOnce sep = some (front, back) := by
  induction front with
  | nil => simp [Text.splitOnce]
  | cons c front ih =>
      have hc : (':' == c) = false := by
        rw [beq_eq_false_iff_ne]
        rintro rfl
        exact h List.mem_cons_self
      have hno : sep.isPrefixOf (c :: (front ++ sep ++ back)) = false := by
        rw [List.isPrefixOf_cons_cons, hc, Bool.false_and]
      rw [List.cons_append, List.cons_append, Text.splitOnce, hno, if_neg Bool.false_ne_true,
        ih fun hmem => h (List.mem_cons_of_mem _ hmem)]
      rfl

/-- A scheme in front of nothing is the whole run. -/
theorem schemeRun_scheme {scheme : Text} (h : WebUrl.IsScheme scheme) :
    schemeRun scheme = scheme ∧ beforeRun scheme = [] ∧ isScheme scheme = true := by
  have hall : ∀ c ∈ scheme, isSchemeChar c = true := fun c hc => h.isSchemeChar hc
  refine ⟨List.rtakeWhile_eq_self_iff.mpr hall, List.rdropWhile_eq_nil_iff.mpr hall, ?_⟩
  obtain ⟨first, more, rfl, hfirst, _⟩ := h
  exact hfirst

theorem authorityOf_append {authority rest : Text}
    (hauthority : ∀ c ∈ authority, isDelimiter c = false) (hrest : WebUrl.IsRest rest) :
    authorityOf (authority ++ rest) = authority ∧ afterAuthority (authority ++ rest) = rest :=
  WebUrl.take_authority (by decide) hauthority hrest

/-- What the swap makes of a rest is one again. -/
theorem isRest_swap {base : Text} {wanted : Text → Bool} {rest : Text}
    (h : WebUrl.IsRest rest) : WebUrl.IsRest (swap base wanted rest) := by
  cases rest with
  | nil =>
      rw [swap_none (by rfl)]
      exact h
  | cons c rest =>
      obtain rfl : c = '/' := h c rfl
      cases hsplit : Text.splitOnce ('/' :: rest) sep with
      | none =>
          rw [swap_none hsplit]
          exact h
      | some pair =>
          obtain ⟨before, after⟩ := pair
          -- the slash is no part of the `://`, nor of a scheme
          obtain ⟨more, rfl⟩ : ∃ more, before = '/' :: more := by
            have htext := Text.splitOnce_eq_some hsplit
            cases before with
            | nil => cases htext
            | cons d more =>
                obtain rfl : '/' = d := (List.cons.inj htext).1
                exact ⟨more, rfl⟩
          cases hs : isScheme (schemeRun ('/' :: more)) with
          | false =>
              rw [swap_skip hsplit hs]
              exact WebUrl.isRest_slash _
          | true =>
              rw [swap_url hsplit hs]
              have hbefore : beforeRun ('/' :: more) = '/' :: beforeRun more :=
                Text.rdropWhile_stop (by decide) [] more
              rw [hbefore]
              exact WebUrl.isRest_slash _

section Swap

variable {target : SocketAddrV4} (link : Link target)

theorem swap_link (base : Text) :
    swap base (isTarget · target) link.text =
      base ++ swap base (isTarget · target) link.rest := by
  have hcolon : ':' ∉ link.scheme := fun hmem =>
    (WebUrl.isAuthorityChar_scheme (link.schemeOk.isSchemeChar hmem)).2 rfl
  have hsplit : link.text.splitOnce sep = some (link.scheme, link.authority ++ link.rest) := by
    rw [← splitOnce_sep hcolon, ← List.append_assoc]
    rfl
  obtain ⟨hrun, hbefore, hscheme⟩ := schemeRun_scheme link.schemeOk
  obtain ⟨hauthority, hafter⟩ :=
    authorityOf_append (fun c hc => (link.mem_authority hc).2) link.restOk
  have hwanted : isTarget link.authority target = true := (isTarget_iff ..).mpr link.isBareTarget
  rw [swap_url hsplit (by rw [hrun]; exact hscheme), hbefore, hauthority, hafter, hwanted]
  rfl

/-- **A link is rewritten** to the base, and what stands behind the target as a
text of its own. -/
theorem rewriteText_link (base : Text) :
    ∃ rest, rewriteText target base link.rest = some rest ∧ WebUrl.IsRest rest ∧
      rewriteText target base link.text = some (base.trimEndMatches '/' ++ rest) := by
  refine ⟨swap (base.trimEndMatches '/') (isTarget · target) link.rest, ?_, ?_, ?_⟩
  · rw [rewriteText_eq]
  · exact isRest_swap link.restOk
  · rw [rewriteText_eq, swap_link]

/-- No URL that the rewriter finds in the text is one of the target. -/
def NamesNoTarget (target : SocketAddrV4) (text : Text) : Prop :=
  ∀ cut, IsCutOf text cut → ∀ url ∈ cut.urls, ¬ IsBareTarget target url.1.authority

theorem rewriteText_namesNoTarget {text : Text} (h : NamesNoTarget target text) (base : Text) :
    rewriteText target base text = some text := by
  obtain ⟨cut, ⟨hcut, _⟩, _, _, hrewrite⟩ := swap_touches_accepted text
  rw [hrewrite]
  refine congrArg some ?_
  conv_rhs => rw [hcut.1]
  unfold Cut.source Cut.spell spellUrls
  refine congrArg (cut.lead ++ ·) (List.flatMap_congr fun url hurl => ?_)
  dsimp only
  rw [if_neg (h cut hcut url hurl)]

/-- A text without a colon names nothing. -/
theorem rewriteText_plain {text : Text} (h : ':' ∉ text) (base : Text) :
    rewriteText target base text = some text := by
  have hsplit : text.splitOnce sep = none := by
    cases hsplit : text.splitOnce sep with
    | none => rfl
    | some pair =>
        have htext := Text.splitOnce_eq_some hsplit
        exact absurd (by rw [htext]; simp) h
  rw [rewriteText_eq, swap_none hsplit]

end Swap

/-! ## Where it points -/

section Points

variable {hosts : WebUrl.HostParser} {ε : Type} {unprintable : Char → Bool}

/-- An accepted base without query and fragment is spliced in as its scheme and
its authority. -/
theorem trimEndMatches_base {config : Config hosts}
    (hconfig : config.validate unprintable = (.ok () : Except (Config.ConfigError ε) Unit))
    {host : Text} (hhost : config.rewrite.externalBaseUrl.url.host = some host) (hne : host ≠ [])
    (hquery : config.rewrite.externalBaseUrl.url.query = none)
    (hfragment : config.rewrite.externalBaseUrl.url.fragment = none) :
    config.rewrite.externalBaseUrl.url.asStr.trimEndMatches '/' =
      config.rewrite.externalBaseUrl.url.scheme ++ "://".toList ++
        config.rewrite.externalBaseUrl.url.authorityText := by
  obtain ⟨_, hpath, _⟩ := (Config.validate_ok_iff unprintable config).mp hconfig
  obtain ⟨input, hparsed⟩ := config.rewrite.externalBaseUrl.parsed
  have hformed := WebUrl.parse_formed hparsed
  rw [WebUrl.Url.asStr_bare hhost hquery hfragment]
  refine WebUrl.trimEndMatches_authority
    (WebUrl.Formed.authorityText_ne_nil hhost hne) ?_ hpath
  intro hslash
  exact (hformed.mem_authorityText hhost hne hslash).2 (by simp)

/-- The rewritten link has scheme, host and port of the base, and path and query
of the link. -/
def PointsTheSame (hosts : WebUrl.HostParser) (base : WebUrl.Url) {target : SocketAddrV4}
    (link : Link target) : Prop :=
  ∃ out url original, rewriteText target base.asStr link.text = some out ∧
    WebUrl.parse hosts out = some url ∧ WebUrl.parse hosts link.text = some original ∧
    url.scheme = base.scheme ∧ url.host = base.host ∧ url.port = base.port ∧
    url.path = original.path ∧ url.query = original.query

/-- **A rewritten link points where it did**, through the base: its scheme, host
and port, and the path and query of the link with its rest rewritten. A rest that
names the target nowhere is left as it is. -/
theorem rewritten_link_points {fromToml : Text → Except ε (Config hosts)} {input : Text}
    {config : Config hosts} (hconfig : Config.parse unprintable fromToml input = .ok config)
    {host : Text} (hhost : config.rewrite.externalBaseUrl.url.host = some host) (hne : host ≠ [])
    (hquery : config.rewrite.externalBaseUrl.url.query = none)
    (hfragment : config.rewrite.externalBaseUrl.url.fragment = none)
    {target : SocketAddrV4} (link : Link target) {original : WebUrl.Url}
    (hlink : WebUrl.parse hosts link.text = some original)
    (hkind : WebUrl.kindOf config.rewrite.externalBaseUrl.url.scheme =
        WebUrl.kindOf original.scheme ∨ WebUrl.IsNeutral link.rest) :
    (∃ out url rest inner,
      rewriteText target config.rewrite.externalBaseUrl.url.asStr link.text = some out ∧
      WebUrl.parse hosts out = some url ∧
      url.scheme = config.rewrite.externalBaseUrl.url.scheme ∧
      url.host = config.rewrite.externalBaseUrl.url.host ∧
      url.port = config.rewrite.externalBaseUrl.url.port ∧
      rewriteText target config.rewrite.externalBaseUrl.url.asStr link.rest = some rest ∧
      WebUrl.parse hosts (link.withRest rest) = some inner ∧
      url.path = inner.path ∧ url.query = inner.query) ∧
    (NamesNoTarget target link.rest →
      PointsTheSame hosts config.rewrite.externalBaseUrl.url link) := by
  obtain ⟨_, hvalid⟩ := (Config.parse_eq_ok_iff unprintable fromToml input config).mp hconfig
  have htrim := trimEndMatches_base hvalid hhost hne hquery hfragment
  generalize config.rewrite.externalBaseUrl = base at *
  obtain ⟨_, hparsed⟩ := base.parsed
  have hformed := WebUrl.parse_formed hparsed
  obtain ⟨rest, hrewrite, hrest, hout⟩ := rewriteText_link link base.url.asStr
  rw [htrim] at hout
  obtain ⟨url, hurl, hscheme, hurlHost, hport, hpath, hurlQuery⟩ :=
    hformed.parse_splice hhost hne hrest
  obtain ⟨hstarts, hdrive⟩ := link.authority_starts
  obtain ⟨_, inner, hinner, hinnerPath, hinnerQuery⟩ := WebUrl.parse_behind link.schemeOk hstarts
    (fun c hc => (link.mem_authority hc).1) hdrive link.restOk hrest hlink
  -- where the kinds differ the rest is neutral, and so it is not rewritten
  have hsame : WebUrl.pathBehind (WebUrl.kindOf base.url.scheme) rest =
        WebUrl.pathBehind (WebUrl.kindOf original.scheme) rest ∧
      WebUrl.queryBehind (WebUrl.kindOf base.url.scheme) rest =
        WebUrl.queryBehind (WebUrl.kindOf original.scheme) rest := by
    rcases hkind with hkind | hneutral
    · rw [hkind]
      exact ⟨rfl, rfl⟩
    · have hcolon : ':' ∉ link.rest := fun hmem => hneutral.plain _ hmem (by simp)
      rw [rewriteText_plain hcolon] at hrewrite
      obtain rfl := Option.some.inj hrewrite
      exact WebUrl.behind_neutral link.restOk hneutral _ _
  have hurlPath : url.path = inner.path := by rw [hpath, hsame.1, hinnerPath]
  have hurlQuery : url.query = inner.query := by rw [hurlQuery, hsame.2, hinnerQuery]
  refine ⟨⟨_, url, rest, inner, hout, hurl, hscheme, hurlHost, hport, hrewrite, hinner, hurlPath,
    hurlQuery⟩, ?_⟩
  intro hnames
  rw [rewriteText_namesNoTarget hnames] at hrewrite
  obtain rfl := Option.some.inj hrewrite
  obtain rfl : original = inner := Option.some.inj (hlink.symm.trans hinner)
  exact ⟨_, url, original, hout, hurl, hlink, hscheme, hurlHost, hport, hurlPath, hurlQuery⟩

end Points

/-! ## On concrete bases -/

def isNameChar (c : Char) : Bool := c.isLower || c.isDigit || c == '.' || c == '-'

/-- Host names and IPv4 addresses in the form they are written in. -/
def nameHosts : WebUrl.HostParser where
  parse _ text := if text.all isNameChar then some text else none
  reparse := by
    intro isOther text host h
    split at h
    · rename_i hall
      obtain rfl := Option.some.inj h
      rw [if_pos hall]
    · cases h
  shape := by
    intro isOther text host h
    split at h
    · rename_i hall
      obtain rfl := Option.some.inj h
      refine .inl fun c hc => ?_
      have hname := List.all_eq_true.mp hall c hc
      have hascii : c.toNat < 128 := by
        unfold isNameChar at hname
        rw [Bool.or_eq_true, Bool.or_eq_true, Bool.or_eq_true, beq_iff_eq, beq_iff_eq] at hname
        rcases hname with ((hlower | hdigit) | rfl) | rfl
        · exact Nat.lt_of_le_of_lt (Text.isLower_toNat hlower).2 (by decide)
        · exact Nat.lt_of_le_of_lt (Text.isDigit_toNat hdigit) (by decide)
        · decide
        · decide
      refine Text.ascii_cases (P := fun c => isNameChar c = true → 32 < c.toNat ∧
        c ∉ ['/', '\\', '?', '#', '@', ':', '[', ']', '|']) ?_ hascii hname
      decide
    · cases h

/-- The file that has the base. -/
def tomlWith (base : Text) : Text :=
  "listen = \"0.0.0.0:8443\"\n[target]\naddress = \"10.0.0.1:8000\"\n".toList ++
    "accept_invalid_certs = true\ntimeout = \"30s\"\n[rewrite]\nexternal_base_url = \"".toList ++
    base ++ "\"\n[logging]\nlevel = \"info\"\ntimestamps = true\n".toList ++
    "[rune]\nscript_dir = \"/scripts\"\ndefault_script = \"default.rn\"\n".toList

/-- No routes and no certificate, and the base. -/
def configWith (base : WebUrl.Parsed nameHosts) : Config nameHosts where
  tls := { certPath := none, keyPath := none }
  rewrite := { externalBaseUrl := base }
  route := []

/-- What TOML and serde make of that file. -/
def readToml (base text : Text) : Except Unit (Config nameHosts) :=
  if text = tomlWith base then
    match h : WebUrl.parse nameHosts base with
    | some url => .ok (configWith { url, parsed := ⟨base, h⟩ })
    | none => .error ()
  else .error ()

theorem parse_tomlWith {base : Text} {url : WebUrl.Url} (h : WebUrl.parse nameHosts base = some url)
    (hpath : url.path.text = [] ∨ url.path.text = ['/']) :
    Config.parse (fun _ => false) (readToml base) (tomlWith base) =
      .ok (configWith { url, parsed := ⟨base, h⟩ }) := by
  rw [Config.parse_eq_ok_iff, Config.validate_ok_iff]
  refine ⟨?_, List.nodup_nil, hpath, Iff.rfl⟩
  unfold readToml
  rw [if_pos rfl]
  split
  · rename_i found hfound
    obtain rfl : url = found := Option.some.inj (h.symm.trans hfound)
    rfl
  · rename_i hnone
    rw [h] at hnone
    cases hnone

theorem isScheme_https : WebUrl.IsScheme "https".toList :=
  ⟨'h', "ttps".toList, rfl, by decide, by decide⟩

/-- `https://10.0.0.1` and a rest. -/
def bmcLink (rest : Text) (h : WebUrl.IsRest rest) : Link bmcTarget where
  scheme := "https".toList
  port := none
  rest := rest
  schemeOk := isScheme_https
  portOk := fun _ hport => nomatch hport
  restOk := h

def redfishLink : Link bmcTarget := bmcLink "/redfish/v1?x=1".toList (WebUrl.isRest_slash _)

/-- `https://10.0.0.1/redfish/v1?x=1` as the parser has it. -/
def redfishUrl : WebUrl.Url where
  scheme := "https".toList
  username := []
  password := []
  host := some "10.0.0.1".toList
  port := none
  path := .segments ["redfish".toList, "v1".toList]
  query := some "x=1".toList
  fragment := none

/-- `https://proxy/`. -/
def proxyUrl : WebUrl.Url where
  scheme := "https".toList
  username := []
  password := []
  host := some "proxy".toList
  port := none
  path := .segments [[]]
  query := none
  fragment := none

theorem rewritten_link_points_proxy : PointsTheSame nameHosts proxyUrl redfishLink := by
  have hbase : WebUrl.parse nameHosts "https://proxy/".toList = some proxyUrl := by decide +kernel
  have hlink : WebUrl.parse nameHosts redfishLink.text = some redfishUrl := by decide +kernel
  refine (rewritten_link_points (parse_tomlWith hbase (.inr (by decide))) rfl (by decide) rfl rfl
    redfishLink hlink (.inl rfl)).2 ?_
  intro cut hcut url hurl
  rw [← eq_of_isCutOf hcut, scan_none (by decide +kernel)] at hurl
  cases hurl

/-- An accepted base with which a link that parses does not point where it did. -/
def Misdirects (base : Text) (link : Link bmcTarget) : Prop :=
  ∃ config, Config.parse (fun _ => false) (readToml base) (tomlWith base) = .ok config ∧
    (WebUrl.parse nameHosts link.text).isSome = true ∧
    ¬ PointsTheSame nameHosts config.rewrite.externalBaseUrl.url link

theorem misdirects {base : Text} {url : WebUrl.Url} {link : Link bmcTarget}
    (hbase : WebUrl.parse nameHosts base = some url)
    (hpath : url.path.text = [] ∨ url.path.text = ['/'])
    (hlink : (WebUrl.parse nameHosts link.text).isSome = true)
    (hne : ((rewriteText bmcTarget url.asStr link.text).bind (WebUrl.parse nameHosts)).map
        (fun url => (url.path, url.query)) ≠
      (WebUrl.parse nameHosts link.text).map fun url => (url.path, url.query)) :
    Misdirects base link := by
  refine ⟨_, parse_tomlWith hbase hpath, hlink, ?_⟩
  rintro ⟨out, rewritten, original, hout, hrewritten, horiginal, _, _, _, hsame, hquery⟩
  have hout : rewriteText bmcTarget url.asStr link.text = some out := hout
  apply hne
  rw [hout, Option.bind_some, hrewritten, horiginal, Option.map_some, Option.map_some, hsame,
    hquery]

/-- A link within the link is rewritten too, a query or a fragment of the base
takes in the path, a base without a host makes one of it, and a base of another
kind drops its slash. -/
theorem rewritten_links_misdirected :
    Misdirects "https://proxy/".toList
        (bmcLink "/redirect?to=https://10.0.0.1/x".toList (WebUrl.isRest_slash _)) ∧
      Misdirects "https://proxy/?v=1".toList redfishLink ∧
      Misdirects "https://proxy/#v1".toList redfishLink ∧
      Misdirects "foo:/".toList (bmcLink "//x".toList (WebUrl.isRest_slash _)) ∧
      Misdirects "foo://proxy".toList (bmcLink [] fun _ hc => nomatch hc) := by
  refine ⟨?_, ?_, ?_, ?_, ?_⟩
  · exact @misdirects _ proxyUrl _ (by decide +kernel) (by decide) (by decide +kernel)
      (by decide +kernel)
  · exact @misdirects _ { proxyUrl with query := some "v=1".toList } _ (by decide +kernel)
      (by decide) (by decide +kernel) (by decide +kernel)
  · exact @misdirects _ { proxyUrl with fragment := some "v1".toList } _ (by decide +kernel)
      (by decide) (by decide +kernel) (by decide +kernel)
  · exact @misdirects _ { proxyUrl with scheme := "foo".toList, host := none } _
      (by decide +kernel) (by decide) (by decide +kernel) (by decide +kernel)
  · exact @misdirects _ { proxyUrl with scheme := "foo".toList, path := .segments [] } _
      (by decide +kernel) (by decide) (by decide +kernel) (by decide +kernel)

end RedfishProxy.Http
