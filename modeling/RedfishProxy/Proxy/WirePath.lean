import RedfishProxy.Lib.Whatwg
import RedfishProxy.Proxy.MethodFilter
import RedfishProxy.Script.Bmc

/-!
# The path that is routed and the path that is sent

`handle` matches globs against the path as it came in. `forward` pastes that
path into a URL, and the client parses the URL before it sends anything. The
parser resolves dot segments, turns backslashes into slashes and encodes, so the
two paths agree for every table exactly when the path is normal
(`routed_as_sent_iff`).
-/

namespace RedfishProxy.Proxy

open Lib Config Script

/-- The path of the request line `forward` ends up sending, if it sends any. -/
def wirePath (parseHost : Text → Option Text) (set : Char → Bool) (ctx : RequestCtx) :
    Option Text :=
  (Whatwg.parse parseHost set (forward ctx).url).map Whatwg.Url.path

/-- The last arm of the `match` in `handle`. -/
def FallsToDefault (router : Router) (parts : Parts) : Prop :=
  router.resolve parts.method parts.uri.path = none ∧
    router.claimsPath parts.uri.path = false

/-- The paths a parsed request can have: `*`, nothing for a `CONNECT`, or a
slash and characters that are neither blank nor the start of a query. -/
def IsRequestPath (path : Text) : Prop :=
  path = ['*'] ∨ path = [] ∨
    ∃ rest, path = '/' :: rest ∧ ∀ c ∈ rest, 32 < c.toNat ∧ Whatwg.endsPath c = false

section Wire

variable {parseHost : Text → Option Text} {set : Char → Bool} {ctx : RequestCtx}

/-- What follows the path in the URL ends it. -/
theorem pathAndQuery_eq_append (uri : Uri) :
    ∃ back, pathAndQuery uri = uri.path ++ back ∧
      ∀ c, (Whatwg.cleanTail back).head? = some c → Whatwg.endsPath c = true := by
  unfold pathAndQuery
  cases uri.query with
  | none => exact ⟨[], by simp, by simp [Whatwg.cleanTail]⟩
  | some query =>
      refine ⟨'?' :: query, rfl, ?_⟩
      intro c hc
      rw [Whatwg.cleanTail_cons (by decide)] at hc
      obtain rfl : '?' = c := by simpa using hc
      decide

theorem endsAuthority_of_endsPath {c : Char} (h : Whatwg.endsPath c = true) :
    Whatwg.endsAuthority c = true := by
  simp only [Whatwg.endsPath, List.mem_cons, List.not_mem_nil, or_false, decide_eq_true_eq] at h
  rcases h with rfl | rfl <;> decide

/-- A path that is nothing or starts with a slash is sent as the parser leaves
it. -/
theorem wirePath_eq (hhost : parseHost ctx.target.ip.display = some ctx.target.ip.display)
    (hpath : ctx.parts.uri.path = [] ∨ ∃ rest, ctx.parts.uri.path = '/' :: rest ∧
      ∀ c ∈ rest, 32 < c.toNat ∧ Whatwg.endsPath c = false) :
    wirePath parseHost set ctx =
      some (Whatwg.serialize (Whatwg.parsePath set ctx.parts.uri.path)) := by
  obtain ⟨back, hurl, hback⟩ := pathAndQuery_eq_append ctx.parts.uri
  have hplain : ∀ c ∈ ctx.parts.uri.path, 32 < c.toNat ∧ Whatwg.endsPath c = false := by
    intro c hc
    rcases hpath with hnil | ⟨rest, hcons, hrest⟩
    · rw [hnil] at hc
      cases hc
    · rw [hcons] at hc
      rcases List.mem_cons.mp hc with rfl | hc
      · decide
      · exact hrest c hc
  have hclean : Whatwg.cleanTail (ctx.parts.uri.path ++ back) =
      ctx.parts.uri.path ++ Whatwg.cleanTail back :=
    Whatwg.cleanTail_append (fun c hc => (hplain c hc).1) back
  have hhead : ∀ c, (Whatwg.cleanTail (ctx.parts.uri.path ++ back)).head? = some c →
      Whatwg.endsAuthority c = true := by
    intro c hc
    rw [hclean] at hc
    rcases hpath with hnil | ⟨rest, hcons, _⟩
    · rw [hnil] at hc
      exact endsAuthority_of_endsPath (hback c hc)
    · rw [hcons] at hc
      obtain rfl : '/' = c := by simpa using hc
      decide
  have hcut : (ctx.parts.uri.path ++ Whatwg.cleanTail back).takeWhile
      (fun c => !Whatwg.endsPath c) = ctx.parts.uri.path := by
    rw [List.takeWhile_append_of_pos fun c hc => by simp [(hplain c hc).2]]
    cases htail : Whatwg.cleanTail back with
    | nil => simp
    | cons c t => simp [hback c (by simp [htail])]
  have hparse := Whatwg.parse_relayed set ctx.target hhost hhead
  rw [hclean, hcut] at hparse
  unfold wirePath
  show (Whatwg.parse parseHost set
    ("https://".toList ++ ctx.target.display ++ pathAndQuery ctx.parts.uri)).map _ = _
  rw [hurl, hparse]
  rfl

theorem wirePath_asterisk (hhost : parseHost ctx.target.ip.display = some ctx.target.ip.display)
    (hpath : ctx.parts.uri.path = ['*']) : wirePath parseHost set ctx = none := by
  obtain ⟨back, hurl, hback⟩ := pathAndQuery_eq_append ctx.parts.uri
  rw [hpath] at hurl
  have hparse := Whatwg.parse_asterisk set ctx.target hhost
    fun c hc => endsAuthority_of_endsPath (hback c hc)
  unfold wirePath
  show (Whatwg.parse parseHost set
    ("https://".toList ++ ctx.target.display ++ pathAndQuery ctx.parts.uri)).map _ = _
  rw [hurl, List.singleton_append, hparse]
  rfl

end Wire

/-- Every path can be listed literally. -/
def ListsLiterally {ε : Type} (compile : Text → Except ε Matcher) : Prop :=
  ∀ path, ∃ pattern matcher, compile pattern = .ok matcher ∧ ∀ p, matcher p = true ↔ p = path

/-- A table that claims one path, for every method, and nothing else. -/
theorem exists_table_claiming {ε : Type} {compile : Text → Except ε Matcher}
    (hliteral : ListsLiterally compile) (path : Text) :
    ∃ configs router, Router.build compile configs = .ok router ∧
      router.claimsPath path = true ∧
      ∀ parts : Parts, parts.uri.path ≠ path → FallsToDefault router parts := by
  obtain ⟨pattern, matcher, hcompile, hmatcher⟩ := hliteral path
  have hbuild : Router.build compile [{ method := [], path := pattern, script := [] }] =
      .ok (Router.ofRoutes [{
        matcher, methods := [], specificity := literalPrefixLen pattern, script := [] }]) := by
    unfold Router.build buildRoutes buildRoute
    rw [hcompile]
    rfl
  refine ⟨_, _, hbuild, ?_, ?_⟩
  · show (matcher path || false) = true
    rw [(hmatcher path).mpr rfl]
    rfl
  · intro parts hne
    have hno : matcher parts.uri.path = false := by
      by_contra h
      exact hne ((hmatcher _).mp (Bool.not_eq_false _ ▸ h))
    refine ⟨?_, ?_⟩
    · rw [Router.resolve_build_eq_none_iff hbuild]
      intro config hconfig hmatch
      obtain rfl : config = _ := List.mem_singleton.mp hconfig
      simp [RouteConfig.matchesPath, hcompile, hno] at hmatch
    · rw [Router.claimsPath_build_eq_false_iff hbuild]
      intro config hconfig
      obtain rfl : config = _ := List.mem_singleton.mp hconfig
      simp [RouteConfig.matchesPath, hcompile, hno]

/-- **When the path that is routed is the path that is sent.** Over every route
table, the path on the wire of a relayed default request is unclaimed exactly
when the request path is normal already, or is the `*` that is never sent. -/
theorem routed_as_sent_iff {ε : Type} {compile : Text → Except ε Matcher}
    (hliteral : ListsLiterally compile)
    {parseHost : Text → Option Text} {target : SocketAddrV4}
    (hhost : parseHost target.ip.display = some target.ip.display)
    {set : Char → Bool} (hset : Whatwg.SparesEscapes set)
    (base : Http.Base) {parts : Parts} (hpath : IsRequestPath parts.uri.path)
    (body : List UInt8) :
    (∀ configs router, Router.build compile configs = .ok router →
      FallsToDefault router parts →
      ∀ wire, wirePath parseHost set (requestCtx target base parts body) = some wire →
        router.claimsPath wire = false) ↔
      parts.uri.path = ['*'] ∨ Whatwg.IsNormalPath set parts.uri.path := by
  rcases hpath with hstar | hsent
  · have hnone : wirePath parseHost set (requestCtx target base parts body) = none :=
      wirePath_asterisk hhost hstar
    simp [hnone, hstar]
  · have hstar : parts.uri.path ≠ ['*'] := by
      intro h
      rcases hsent with hnil | ⟨rest, hcons, _⟩
      · simp [hnil] at h
      · simp [hcons] at h
    have hwire : wirePath parseHost set (requestCtx target base parts body) =
        some (Whatwg.serialize (Whatwg.parsePath set parts.uri.path)) := wirePath_eq hhost hsent
    rw [or_iff_right hstar, ← Whatwg.parsePath_eq_self_iff hset]
    constructor
    · intro h
      by_contra hne
      -- A table that claims what is sent, and only that.
      obtain ⟨configs, router, hbuild, hclaims, hother⟩ := exists_table_claiming hliteral
        (Whatwg.serialize (Whatwg.parsePath set parts.uri.path))
      rw [h configs router hbuild (hother parts fun heq => hne heq.symm) _ hwire] at hclaims
      cases hclaims
    · intro h configs router _ hdefault wire hsome
      rw [hwire, h] at hsome
      rw [← Option.some.inj hsome]
      exact hdefault.2

/-! ## A spelling that gets through -/

/-- The glob crate on patterns that escape with a backslash and use no other
syntax. -/
def unescape : Text → Option Text
  | [] => some []
  | '\\' :: c :: t => (unescape t).map (c :: ·)
  | '\\' :: [] => none
  | c :: t => if c ∈ ['*', '?', '[', '\x7b', '\x7d'] then none else (unescape t).map (c :: ·)

def literalGlob (pattern : Text) : Except Unit Matcher :=
  match unescape pattern with
  | some path => .ok fun p => p == path
  | none => .error ()

theorem unescape_escaped (path : Text) :
    unescape (path.flatMap fun c => ['\\', c]) = some path := by
  induction path with
  | nil => rfl
  | cons c path ih =>
      show (unescape (path.flatMap fun c => ['\\', c])).map (c :: ·) = some (c :: path)
      rw [ih]
      rfl

theorem literalGlob_listsLiterally : ListsLiterally literalGlob := by
  intro path
  refine ⟨path.flatMap fun c => ['\\', c], fun p => p == path, ?_, ?_⟩
  · unfold literalGlob
    rw [unescape_escaped]
  · intro p
    exact beq_iff_eq

/-- The path percent-encode set. -/
def pathSet (c : Char) : Bool :=
  c.toNat ≤ 32 || 126 < c.toNat ||
    c ∈ ['"', '#', '<', '>', '?', '^', '\x7b', '\x7d'] || c.toNat == 96

theorem pathSet_sparesEscapes : Whatwg.SparesEscapes pathSet := by
  refine ⟨by decide, ?_⟩
  intro n hn
  have hall : ∀ n : Fin 16, pathSet (Whatwg.hexDigit n) = false := by decide
  exact hall ⟨n, hn⟩

def patchAccounts (path : Text) : Parts where
  method := .PATCH
  uri := { path, query := none }
  headers := .new

theorem routed_as_sent_systems :
    let parts := patchAccounts "/redfish/v1/Systems".toList
    IsRequestPath parts.uri.path ∧
      ((∀ configs router, Router.build literalGlob configs = .ok router →
        FallsToDefault router parts →
        ∀ wire, wirePath some pathSet (requestCtx Http.bmcTarget Http.proxyBase parts []) =
          some wire → router.claimsPath wire = false) ↔
        parts.uri.path = ['*'] ∨ Whatwg.IsNormalPath pathSet parts.uri.path) := by
  intro parts
  have hpath : IsRequestPath parts.uri.path :=
    .inr (.inr ⟨"redfish/v1/Systems".toList, rfl, by decide⟩)
  exact ⟨hpath, routed_as_sent_iff literalGlob_listsLiterally rfl pathSet_sparesEscapes
    Http.proxyBase hpath []⟩

def accountRoute : RouteConfig where
  method := ["GET".toList]
  path := "/redfish/v1/AccountService".toList
  script := "accounts.rn".toList

/-- A `PATCH` of the restricted path is refused; with a dot segment in it, it
falls to the default script and is sent to that very path. -/
theorem dot_segment_reaches_claimed_path :
    ∃ router, Router.build literalGlob [accountRoute] = .ok router ∧
      FallsToDefault router (patchAccounts "/redfish/v1/./AccountService".toList) ∧
      wirePath some pathSet (requestCtx Http.bmcTarget Http.proxyBase
        (patchAccounts "/redfish/v1/./AccountService".toList) []) = some accountRoute.path ∧
      router.claimsPath accountRoute.path = true := by
  refine ⟨_, rfl, ⟨by rfl, by rfl⟩, by rfl, by rfl⟩

end RedfishProxy.Proxy
