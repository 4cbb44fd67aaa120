import RedfishProxy.Lib.Message
import RedfishProxy.Lib.Precedence

/-!
# Route matching

`Route`, `Router::build`, `resolve` and `claims_path`. The glob crate is the
parameter `compile`, which stands for
`GlobBuilder::new(path).literal_separator(true).build()` followed by
`compile_matcher`: a pattern is refused or becomes a matcher.

Main results:
* `Router.resolve_isBest`: the route that decides is the most specific one that
  takes the method and the path, the first declared on a tie.
* `Router.resolve_build_eq_none_iff`, `Router.claimsPath_build_eq_false_iff`:
  what the two lookups say about the configuration the table was built from.
-/

namespace RedfishProxy.Config

open Lib

/-- A compiled glob. -/
abbrev Matcher := Text → Bool

/-- One `[[route]]`. -/
structure RouteConfig where
  /-- Empty means any method. -/
  method : List Text
  path : Text
  script : Text
  deriving DecidableEq

/-- `ε` is the glob crate's own error. -/
inductive RouteError (ε : Type) where
  | glob (path : Text) (source : ε)
  | method (path : Text) (method : Text)

structure Route where
  matcher : Matcher
  /-- Empty means any method. -/
  methods : List Method
  /-- Literal prefix length, used for precedence. -/
  specificity : Nat
  script : Text

namespace Route

def matchesPath (route : Route) (path : Text) : Bool := route.matcher path

def allows (route : Route) (method : Method) : Bool :=
  route.methods.isEmpty || route.methods.contains method

def «matches» (route : Route) (method : Method) (path : Text) : Bool :=
  route.allows method && route.matchesPath path

end Route

/-- The characters that end a literal prefix. -/
def isWildcard (c : Char) : Bool := c ∈ ['*', '?', '[', '\x7b']

/-- Length of the leading run of literal characters, in bytes. -/
def literalPrefixLen (pattern : Text) : Nat :=
  (pattern.findChar isWildcard).getD pattern.byteLen

section Build

variable {ε : Type} (compile : Text → Except ε Matcher)

/-- The inner loop of `build`, which stops at the first method it cannot parse. -/
def parseMethods (path : Text) : List Text → Except (RouteError ε) (List Method)
  | [] => .ok []
  | raw :: rest => do
    match Method.parse raw with
    | none => .error (.method path raw)
    | some method => return method :: (← parseMethods path rest)

/-- One turn of the outer loop: the glob first, then the methods. -/
def buildRoute (config : RouteConfig) : Except (RouteError ε) Route :=
  match compile config.path with
  | .error source => .error (.glob config.path source)
  | .ok matcher => do
    let methods ← parseMethods config.path config.method
    return {
      matcher, methods
      specificity := literalPrefixLen config.path
      script := config.script }

def buildRoutes : List RouteConfig → Except (RouteError ε) (List Route)
  | [] => .ok []
  | config :: rest => do
    let route ← buildRoute compile config
    return route :: (← buildRoutes rest)

end Build

/-- The table, sorted most specific first, so that the first match wins. -/
structure Router where
  routes : List Route
  sorted : routes.Pairwise (Precedence.Outranks Route.specificity)

namespace Router

/-- `sort_by_key` with `Reverse(specificity)`, which is stable. -/
def ofRoutes (declared : List Route) : Router where
  routes := Precedence.sortByRank Route.specificity declared
  sorted := Precedence.pairwise_sortByRank Route.specificity declared

def build {ε : Type} (compile : Text → Except ε Matcher) (configs : List RouteConfig) :
    Except (RouteError ε) Router := do
  return ofRoutes (← buildRoutes compile configs)

/-- The handling route, or `none` for direct pass-through. -/
def resolve (router : Router) (method : Method) (path : Text) : Option Route :=
  router.routes.find? fun route => route.matches method path

/-- Whether some route claims this path, for whatever method. -/
def claimsPath (router : Router) (path : Text) : Bool :=
  router.routes.any fun route => route.matchesPath path

end Router

/-! ## What the lookups say about the declared table -/

section Table

variable {declared : List Route} {method : Method} {path : Text}

theorem Route.matches_iff (route : Route) :
    route.matches method path = true ↔
      route.allows method = true ∧ route.matchesPath path = true := by
  simp [Route.matches]

/-- The route that decides is the best of those that take the request. -/
theorem Router.resolve_isBest {route : Route}
    (h : (Router.ofRoutes declared).resolve method path = some route) :
    Precedence.IsBest Route.specificity (fun r => r.matches method path) declared route :=
  Precedence.find?_sortByRank Route.specificity h

theorem Router.resolve_eq_none_iff :
    (Router.ofRoutes declared).resolve method path = none ↔
      ∀ route ∈ declared, route.matchesPath path = true → route.allows method = false := by
  unfold Router.resolve Router.ofRoutes
  rw [List.find?_eq_none]
  constructor
  · intro h route hroute hpath
    have := h route ((Precedence.mem_sortByRank Route.specificity).mpr hroute)
    simpa [Route.matches, hpath] using this
  · intro h route hroute hmatch
    obtain ⟨hallows, hpath⟩ := route.matches_iff.mp hmatch
    rw [h route ((Precedence.mem_sortByRank Route.specificity).mp hroute) hpath] at hallows
    cases hallows

theorem Router.claimsPath_eq_false_iff :
    (Router.ofRoutes declared).claimsPath path = false ↔
      ∀ route ∈ declared, route.matchesPath path = false := by
  unfold Router.claimsPath Router.ofRoutes
  simp [List.any_eq_false, Precedence.mem_sortByRank]

end Table

/-! ## The declared table and the configuration -/

section Configured

variable {ε : Type} {compile : Text → Except ε Matcher}

/-- The glob of this route matches the path. -/
def RouteConfig.matchesPath (compile : Text → Except ε Matcher) (config : RouteConfig)
    (path : Text) : Bool :=
  match compile config.path with
  | .ok matcher => matcher path
  | .error _ => false

/-- The method list of this route lets the method through. -/
def RouteConfig.allows (config : RouteConfig) (method : Method) : Bool :=
  config.method.isEmpty || config.method.contains method.name

theorem parseMethods_eq_ok {path : Text} {raws : List Text} {methods : List Method}
    (h : parseMethods (ε := ε) path raws = .ok methods) : methods.map Method.name = raws := by
  induction raws generalizing methods with
  | nil =>
      obtain rfl : [] = methods := by simpa [parseMethods] using h
      rfl
  | cons raw raws ih =>
      unfold parseMethods at h
      cases hraw : Method.parse raw with
      | none =>
          rw [hraw] at h
          cases h
      | some method =>
          rw [hraw] at h
          cases hrest : parseMethods (ε := ε) path raws with
          | error e =>
              rw [hrest] at h
              cases h
          | ok rest =>
              rw [hrest] at h
              obtain rfl : method :: rest = methods := by injection h
              rw [List.map_cons, ih hrest, Method.name_of_parse hraw]

/-- What a built route keeps of its configuration. -/
theorem buildRoute_eq_ok {config : RouteConfig} {route : Route}
    (h : buildRoute compile config = .ok route) :
    (∀ path, route.matchesPath path = config.matchesPath compile path) ∧
      (∀ method, route.allows method = config.allows method) ∧
      route.specificity = literalPrefixLen config.path ∧ route.script = config.script := by
  unfold buildRoute at h
  cases hglob : compile config.path with
  | error e =>
      rw [hglob] at h
      cases h
  | ok matcher =>
      rw [hglob] at h
      cases hmethods : parseMethods (ε := ε) config.path config.method with
      | error e =>
          rw [hmethods] at h
          cases h
      | ok methods =>
          rw [hmethods] at h
          obtain rfl : Route.mk matcher methods (literalPrefixLen config.path) config.script =
            route := by injection h
          refine ⟨?_, ?_, rfl, rfl⟩
          · intro path
            simp [Route.matchesPath, RouteConfig.matchesPath, hglob]
          · intro method
            have hnames := parseMethods_eq_ok hmethods
            have hinj : ∀ m : Method, m ∈ methods ↔ m.name ∈ config.method := by
              intro m
              rw [← hnames, List.mem_map]
              constructor
              · intro hm
                exact ⟨m, hm, rfl⟩
              · intro h
                obtain ⟨m', hm', hname⟩ := h
                rwa [← Method.ext hname]
            have hempty : methods.isEmpty = config.method.isEmpty := by
              rw [← hnames]
              cases methods <;> rfl
            simp only [Route.allows, RouteConfig.allows, hempty, List.contains_eq_mem, hinj]

theorem buildRoutes_eq_ok {configs : List RouteConfig} {declared : List Route}
    (h : buildRoutes compile configs = .ok declared) :
    List.Forall₂ (fun config route => buildRoute compile config = .ok route) configs declared := by
  induction configs generalizing declared with
  | nil =>
      obtain rfl : [] = declared := by simpa [buildRoutes] using h
      exact .nil
  | cons config configs ih =>
      unfold buildRoutes at h
      cases hroute : buildRoute compile config with
      | error e =>
          rw [hroute] at h
          cases h
      | ok route =>
          rw [hroute] at h
          cases hrest : buildRoutes compile configs with
          | error e =>
              rw [hrest] at h
              cases h
          | ok rest =>
              rw [hrest] at h
              obtain rfl : route :: rest = declared := by injection h
              exact .cons hroute (ih hrest)

theorem Router.build_eq_ok {configs : List RouteConfig} {router : Router}
    (h : Router.build compile configs = .ok router) :
    ∃ declared, buildRoutes compile configs = .ok declared ∧ router = Router.ofRoutes declared := by
  unfold Router.build at h
  cases hroutes : buildRoutes compile configs with
  | error e =>
      rw [hroutes] at h
      cases h
  | ok declared =>
      rw [hroutes] at h
      exact ⟨declared, rfl, by injection h with h; exact h.symm⟩

/-- A fact of every route is one of every configured route. -/
theorem forall_declared_iff {configs : List RouteConfig} {declared : List Route}
    (h : buildRoutes compile configs = .ok declared) {P : Route → Prop} {Q : RouteConfig → Prop}
    (hPQ : ∀ config route, buildRoute compile config = .ok route → (P route ↔ Q config)) :
    (∀ route ∈ declared, P route) ↔ ∀ config ∈ configs, Q config := by
  have hall := buildRoutes_eq_ok h
  clear h
  induction hall with
  | nil => simp
  | cons hroute _ ih =>
      rw [List.forall_mem_cons, List.forall_mem_cons]
      exact and_congr (hPQ _ _ hroute) ih

variable {configs : List RouteConfig} {router : Router} {method : Method} {path : Text}

/-- No route takes the request exactly when every route whose glob matches
refuses the method. -/
theorem Router.resolve_build_eq_none_iff (h : Router.build compile configs = .ok router) :
    router.resolve method path = none ↔
      ∀ config ∈ configs, config.matchesPath compile path = true →
        config.allows method = false := by
  obtain ⟨declared, hdeclared, rfl⟩ := Router.build_eq_ok h
  rw [Router.resolve_eq_none_iff]
  refine forall_declared_iff hdeclared ?_
  intro config route hroute
  obtain ⟨hpath, hallows, _⟩ := buildRoute_eq_ok hroute
  rw [hpath, hallows]

theorem Router.claimsPath_build_eq_false_iff (h : Router.build compile configs = .ok router) :
    router.claimsPath path = false ↔
      ∀ config ∈ configs, config.matchesPath compile path = false := by
  obtain ⟨declared, hdeclared, rfl⟩ := Router.build_eq_ok h
  rw [Router.claimsPath_eq_false_iff]
  refine forall_declared_iff hdeclared ?_
  intro config route hroute
  rw [(buildRoute_eq_ok hroute).1]

/-- The route that decides runs a configured script. -/
theorem Router.script_mem_of_resolve (h : Router.build compile configs = .ok router) {route : Route}
    (hroute : router.resolve method path = some route) :
    route.script ∈ configs.map RouteConfig.script := by
  obtain ⟨declared, hdeclared, rfl⟩ := Router.build_eq_ok h
  have hall : ∀ route ∈ declared, route.script ∈ configs.map RouteConfig.script := by
    refine (forall_declared_iff hdeclared
      (Q := fun config => config.script ∈ configs.map RouteConfig.script) ?_).mpr ?_
    · intro config route hbuilt
      rw [(buildRoute_eq_ok hbuilt).2.2.2]
    · intro config hconfig
      exact List.mem_map_of_mem hconfig
  exact hall route (Router.resolve_isBest hroute).mem.1

end Configured

end RedfishProxy.Config
