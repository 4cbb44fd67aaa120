import RedfishProxy.Http.Links
import RedfishProxy.Lib.WebPath
import RedfishProxy.RuneHost.Failure
import RedfishProxy.Script.Exchange

/-!
# A link, rewritten or not

`member_path` takes a link that is a path as it is, and the path alone out of an
absolute one. The BMC sends a link the one way, and `rewrite` may have made it
the other. What is fetched is the same as long as the link has no query, which
is lost with the rest of the absolute URL.

Main result:
* `sameLink_iff`: the two ways name the same exactly without a query.
-/

namespace RedfishProxy.Script

open Lib Http

/-- `scheme://host[:port]`. -/
structure LinkBase where
  scheme : Text
  host : Text
  port : Option Text
  schemeOk : WebUrl.IsScheme scheme
  hostOk : host ≠ [] ∧ (WebUrl.IsPlainHost host ∨ WebUrl.IsBracketed host)
  portOk : ∀ digits, port = some digits → digits ≠ [] ∧ ∀ d ∈ digits, d.isDigit = true

namespace LinkBase

/-- `host[:port]`. -/
def authority (base : LinkBase) : Text :=
  base.host ++ base.port.elim [] fun digits => ':' :: digits

def text (base : LinkBase) : Text := base.scheme ++ "://".toList ++ base.authority

/-- A URL, as far as the parser goes. -/
def IsUrl (hosts : WebUrl.HostParser) (base : LinkBase) : Prop :=
  ∃ url, WebUrl.parse hosts base.text = some url

variable {base : LinkBase}

theorem authority_ne_nil (base : LinkBase) : base.authority ≠ [] := by
  intro h
  exact base.hostOk.1 (List.append_eq_nil_iff.mp h).1

theorem mem_authority {c : Char} (h : c ∈ base.authority) : WebUrl.IsAuthorityChar c := by
  rcases List.mem_append.mp h with h | h
  · exact (WebUrl.mem_host base.hostOk.2 h).1
  · cases hport : base.port with
    | none =>
        rw [hport] at h
        cases h
    | some digits =>
        rw [hport] at h
        rcases List.mem_cons.mp h with rfl | h
        · decide
        · have halnum : c.isAlphanum = true := by
            unfold Char.isAlphanum
            rw [(base.portOk digits hport).2 c h, Bool.or_true]
          exact (WebUrl.isAuthorityChar_alphanum halnum).1

/-- A host is no drive letter, and neither is one with a port. -/
theorem not_isDriveLetter (base : LinkBase) : WebUrl.isDriveLetter base.authority = false := by
  have hhost : WebUrl.isDriveLetter base.host = false := by
    unfold WebUrl.isDriveLetter
    split
    · rename_i letter mark heq
      rcases base.hostOk.2 with hplain | ⟨inner, hbracketed, _⟩
      · have hmark := (hplain mark (by rw [heq]; simp)).2
        have hcolon : (mark == ':') = false := beq_eq_false_iff_ne.mpr fun h => hmark (by simp [h])
        have hbar : (mark == '|') = false := beq_eq_false_iff_ne.mpr fun h => hmark (by simp [h])
        rw [hcolon, hbar, Bool.or_self, Bool.and_false]
      · rw [heq] at hbracketed
        obtain ⟨rfl, _⟩ := List.cons.inj hbracketed
        rfl
    · rfl
  unfold authority
  cases hport : base.port with
  | none =>
      rw [Option.elim_none, List.append_nil]
      exact hhost
  | some digits =>
      -- three characters or more
      obtain ⟨first, more, hfirst⟩ := List.exists_cons_of_ne_nil base.hostOk.1
      obtain ⟨digit, digits', hdigits⟩ := List.exists_cons_of_ne_nil (base.portOk digits hport).1
      rw [Option.elim_some, hfirst, hdigits]
      cases more with
      | nil => rfl
      | cons c more => cases more <;> rfl

/-- The URL of the base and a rest has the path of the rest. -/
theorem parse_append (hosts : WebUrl.HostParser) (base : LinkBase) {rest : Text}
    (hrest : WebUrl.IsRest rest) :
    ∃ make : WebUrl.Authority → WebUrl.Url,
      (∀ a, (make a).path =
        WebUrl.pathBehind (WebUrl.kindOf (base.scheme.map Char.toLower)) rest) ∧
      WebUrl.parse hosts (base.text ++ rest) =
        (WebUrl.readAuthority hosts (base.scheme.map Char.toLower) base.authority).map make := by
  have hauthority : ∀ c ∈ base.authority, WebUrl.IsAuthorityChar c := fun c hc => mem_authority hc
  obtain ⟨fragment, hparse⟩ : ∃ fragment, WebUrl.parse hosts (base.text ++ rest) = _ :=
    WebUrl.parse_link base.schemeOk base.authority_ne_nil hauthority
      (fun _ => base.not_isDriveLetter) hrest
  exact ⟨_, fun a => rfl, hparse⟩

/-- Behind a base that is a URL there is one. -/
theorem IsUrl.append {hosts : WebUrl.HostParser} (h : base.IsUrl hosts) {rest : Text}
    (hrest : WebUrl.IsRest rest) :
    ∃ url, WebUrl.parse hosts (base.text ++ rest) = some url ∧
      url.path = WebUrl.pathBehind (WebUrl.kindOf (base.scheme.map Char.toLower)) rest := by
  obtain ⟨url, hurl⟩ := h
  obtain ⟨_, _, hparse⟩ := parse_append hosts base (show WebUrl.IsRest [] from nofun)
  rw [List.append_nil, hurl] at hparse
  obtain ⟨a, hread, _⟩ := Option.map_eq_some_iff.mp hparse.symm
  obtain ⟨make, hpath, hparse⟩ := parse_append hosts base hrest
  rw [hread] at hparse
  exact ⟨make a, hparse, hpath a⟩

end LinkBase

section Link

variable {ν V σ : Type} (host : Host ν V σ) (ctx : RequestCtx)

/-- `bmc::get(bmc::path_of(link)?)`. -/
def getLink (link : Text) : Action σ BmcResponse := do
  subrequest host ctx "GET".toList (← fromResult (memberPath host link)) none

/-- Following one link is following the other, by itself and as a member of a
collection. -/
structure SameLink (link link' : Text) : Prop where
  path : memberPath host link = memberPath host link'
  get : ∀ ctx world, exec (getLink host ctx link) world = exec (getLink host ctx link') world
  member : ∀ ctx path world (member member' : Json ν),
    member.index "@odata.id".toList = .string link →
      member'.index "@odata.id".toList = .string link' →
        exec (expandMember host ctx path member) world =
          exec (expandMember host ctx path member') world

/-- `Url::parse` and `Url::path` are the standard's. -/
def ReadsPaths (hosts : WebUrl.HostParser) : Prop :=
  ∀ id, host.urlPath id = (WebUrl.parse hosts id).map fun url => url.path.text

variable {host} {hosts : WebUrl.HostParser} {base : LinkBase} {p : Text}

/-- The path of an absolute link stands between its base and its query. -/
theorem memberPath_base (hurl : ReadsPaths host hosts) (hbase : base.IsUrl hosts)
    (hp : WebUrl.IsPathAndQuery p) :
    memberPath host (base.text ++ p) = .ok (p.takeWhile (· != '?')) := by
  have hrest : WebUrl.IsRest p := by
    intro c hc
    rw [hp.start] at hc
    exact (Option.some.inj hc).symm
  obtain ⟨url, hparse, hpath⟩ := hbase.append hrest
  unfold memberPath
  rw [hurl, hparse, Option.map_some, hpath, WebUrl.pathBehind_plain hp]

/-- A path is its own. -/
theorem memberPath_path (hurl : ReadsPaths host hosts) (hp : WebUrl.IsPathAndQuery p) :
    memberPath host p = .ok p := by
  obtain ⟨rest, rfl⟩ : ∃ rest, p = '/' :: rest := by
    cases p with
    | nil => cases hp.start
    | cons c rest => exact ⟨rest, by rw [Option.some.inj hp.start]⟩
  unfold memberPath
  rw [hurl, WebUrl.parse_slash]
  rfl

theorem SameLink.of_path {link link' : Text} (h : memberPath host link = memberPath host link') :
    SameLink host link link' := by
  refine ⟨h, fun ctx world => ?_, fun ctx path world member member' hmember hmember' => ?_⟩
  · unfold getLink
    rw [h]
  · unfold expandMember
    rw [hmember, hmember']
    show exec (fromResult (memberPath host link) >>= _) world =
      exec (fromResult (memberPath host link') >>= _) world
    rw [h]

/-- **A link is followed the same, rewritten or not,** exactly where it has no
query. -/
theorem sameLink_iff (hurl : ReadsPaths host hosts) (hbase : base.IsUrl hosts)
    (hp : WebUrl.IsPathAndQuery p) : SameLink host (base.text ++ p) p ↔ '?' ∉ p := by
  have habsolute := memberPath_base hurl hbase hp
  have hrelative := memberPath_path hurl hp
  constructor
  · intro h hmem
    have hsame := h.path
    rw [habsolute, hrelative] at hsame
    have hcut := Except.ok.inj hsame
    rw [← hcut] at hmem
    simpa using List.mem_takeWhile_imp hmem
  · intro hnone
    have hcut : p.takeWhile (· != '?') = p := by
      refine List.takeWhile_eq_self_iff.mpr fun c hc => ?_
      rw [bne_iff_ne]
      rintro rfl
      exact hnone hc
    refine SameLink.of_path ?_
    rw [habsolute, hrelative, hcut]

end Link

/-! ## The second page of a collection -/

/-- The url crate, on the hosts of `nameHosts`. -/
def urlHost : Host Nat Unit Unit := { RuneHost.unreachableHost with
  urlPath := fun id => (WebUrl.parse nameHosts id).map fun url => url.path.text }

theorem readsPaths_urlHost : ReadsPaths urlHost nameHosts := fun _ => rfl

theorem no_port (digits : Text) (h : none = some digits) :
    digits ≠ [] ∧ ∀ d ∈ digits, d.isDigit = true := by
  cases h

theorem isPlainHost_example : WebUrl.IsPlainHost "proxy.example".toList := by
  intro c hc
  revert c hc
  decide

theorem hostOk_example : "proxy.example".toList ≠ [] ∧
    (WebUrl.IsPlainHost "proxy.example".toList ∨ WebUrl.IsBracketed "proxy.example".toList) :=
  ⟨List.cons_ne_nil _ _, .inl isPlainHost_example⟩

/-- `https://proxy.example`. -/
def exampleBase : LinkBase where
  scheme := "https".toList
  host := "proxy.example".toList
  port := none
  schemeOk := isScheme_https
  hostOk := hostOk_example
  portOk := no_port

theorem isUrl_exampleBase : exampleBase.IsUrl nameHosts := ⟨_, rfl⟩

theorem sameLink_iff_systems :
    SameLink urlHost (exampleBase.text ++ "/redfish/v1/Systems".toList)
      "/redfish/v1/Systems".toList ↔ '?' ∉ "/redfish/v1/Systems".toList :=
  sameLink_iff readsPaths_urlHost isUrl_exampleBase ⟨rfl, by decide, by decide⟩

/-- A rewritten link to the second page names the first. -/
theorem not_sameLink_query :
    memberPath urlHost (exampleBase.text ++ "/redfish/v1/Systems?$skip=50".toList) =
        .ok "/redfish/v1/Systems".toList ∧
      memberPath urlHost "/redfish/v1/Systems?$skip=50".toList =
        .ok "/redfish/v1/Systems?$skip=50".toList ∧
      ¬ SameLink urlHost (exampleBase.text ++ "/redfish/v1/Systems?$skip=50".toList)
        "/redfish/v1/Systems?$skip=50".toList := by
  have hp : WebUrl.IsPathAndQuery "/redfish/v1/Systems?$skip=50".toList :=
    ⟨rfl, by decide, by decide⟩
  have habsolute := memberPath_base readsPaths_urlHost isUrl_exampleBase hp
  have hrelative := memberPath_path readsPaths_urlHost hp
  refine ⟨habsolute, hrelative, fun h => ?_⟩
  have hsame := h.path
  rw [habsolute, hrelative] at hsame
  exact absurd (Except.ok.inj hsame) (by decide)

end RedfishProxy.Script
