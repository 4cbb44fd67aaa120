import RedfishProxy.Proxy.MethodFilter

/-!
# The route that decides

The table is sorted and searched; the declared rule has neither. A request runs
the script of the best of the routes that take it, is refused where a glob
matches and no route takes it, and runs the default script where no glob
matches.
-/

namespace RedfishProxy.Proxy

open Lib Config

/-- `handle` runs this script, whatever scripts do. -/
def Runs (state : AppState) (parts : Parts) (script : Text) : Prop :=
  ∀ (σ ρ : Type) (runScript : RunScript σ ρ) (bytes : List UInt8) (world : σ),
    handle runScript state parts (.ok bytes) world =
      runScript state.target state.externalBase script parts bytes world

theorem runs_iff_selectScript (state : AppState) (parts : Parts) (script : Text) :
    Runs state parts script ↔ selectScript state parts = .ok script := by
  constructor
  · intro h
    -- Scripts that answer with their own name show which of them ran.
    have hname := h Unit Text (fun _ _ script _ _ world => (.ok script, world)) [] ()
    unfold handle at hname
    cases hscript : selectScript state parts with
    | error error => simp [hscript] at hname
    | ok ran =>
        rw [hscript] at hname
        have hran : ran = script := by simpa using hname
        rw [hran]
  · intro h σ ρ runScript bytes world
    unfold handle
    rw [h]

section Table

variable {ε : Type} {compile : Text → Except ε Matcher} {configs : List RouteConfig}

/-- The route takes the method and the path. -/
def Takes (compile : Text → Except ε Matcher) (method : Method) (path : Text)
    (config : RouteConfig) : Bool :=
  config.allows method && config.matchesPath compile path

/-- The most specific route of those that take the request: the longest literal
prefix, the first declared on a tie. -/
def IsChosen (compile : Text → Except ε Matcher) (configs : List RouteConfig) (method : Method)
    (path : Text) (config : RouteConfig) : Prop :=
  Precedence.IsBest (fun config : RouteConfig => literalPrefixLen config.path)
    (Takes compile method path) configs config

variable {router : Router} {method : Method} {path : Text}

theorem isChosen_of_resolve (h : Router.build compile configs = .ok router) {route : Route}
    (hroute : router.resolve method path = some route) :
    ∃ config, IsChosen compile configs method path config ∧ route.script = config.script := by
  obtain ⟨declared, hdeclared, rfl⟩ := Router.build_eq_ok h
  have hsame : ∀ config route, buildRoute compile config = .ok route →
      literalPrefixLen config.path = route.specificity ∧
        Takes compile method path config = route.matches method path := by
    intro config route hbuilt
    obtain ⟨hpath, hallows, hrank, _⟩ := buildRoute_eq_ok hbuilt
    refine ⟨hrank.symm, ?_⟩
    rw [Takes, Route.matches, hpath, hallows]
  obtain ⟨config, hbuilt, hchosen⟩ := Precedence.IsBest.of_forall₂ _ hsame
    (buildRoutes_eq_ok hdeclared) (Router.resolve_isBest hroute)
  exact ⟨config, hchosen, (buildRoute_eq_ok hbuilt).2.2.2⟩

theorem takes_iff {config : RouteConfig} : Takes compile method path config = true ↔
    config.allows method = true ∧ config.matchesPath compile path = true := by
  rw [Takes, Bool.and_eq_true]

/-- The script of a route that takes the request is looked up. -/
theorem resolve_of_takes (h : Router.build compile configs = .ok router) {config : RouteConfig}
    (hmem : config ∈ configs) (htakes : Takes compile method path config = true) :
    ∃ route, router.resolve method path = some route := by
  cases hroute : router.resolve method path with
  | some route => exact ⟨route, rfl⟩
  | none =>
      obtain ⟨hallows, hpath⟩ := takes_iff.mp htakes
      have hrefuses := (Router.resolve_build_eq_none_iff h).mp hroute config hmem hpath
      rw [hallows] at hrefuses
      cases hrefuses

theorem claimsPath_iff (h : Router.build compile configs = .ok router) :
    router.claimsPath path = true ↔
      ∃ config ∈ configs, config.matchesPath compile path = true := by
  constructor
  · intro hclaims
    by_contra hnone
    have hfalse : router.claimsPath path = false := by
      refine (Router.claimsPath_build_eq_false_iff h).mpr fun config hconfig => ?_
      rw [← Bool.not_eq_true]
      exact fun hpath => hnone ⟨config, hconfig, hpath⟩
    rw [hclaims] at hfalse
    cases hfalse
  · rintro ⟨config, hconfig, hpath⟩
    by_contra hnot
    rw [Bool.not_eq_true, Router.claimsPath_build_eq_false_iff h] at hnot
    rw [hnot config hconfig] at hpath
    cases hpath

variable {state : AppState} {parts : Parts}

theorem runs_of_isChosen (h : Router.build compile configs = .ok state.routes)
    {config : RouteConfig}
    (hchosen : IsChosen compile configs parts.method parts.uri.path config) :
    Runs state parts config.script := by
  obtain ⟨hmem, htakes⟩ := hchosen.mem
  obtain ⟨route, hroute⟩ := resolve_of_takes h hmem htakes
  obtain ⟨other, hother, hscript⟩ := isChosen_of_resolve h hroute
  obtain rfl := hchosen.unique _ hother
  rw [runs_iff_selectScript, selectScript, hroute, ← hscript]

theorem refuses_ok_iff (h : Router.build compile configs = .ok state.routes)
    (body : Except Text (List UInt8)) :
    Refuses state parts body ↔ (∃ bytes, body = .ok bytes) ∧
      (∃ config ∈ configs, config.matchesPath compile parts.uri.path = true) ∧
      ∀ config ∈ configs, config.matchesPath compile parts.uri.path = true →
        config.allows parts.method = false := by
  rw [refuses_iff_selectScript, selectScript_refuses_iff, Router.resolve_build_eq_none_iff h,
    claimsPath_iff h, and_comm (a := ∀ _ ∈ configs, _)]

/-- The default script runs, whichever it is. -/
theorem runs_default_iff (h : Router.build compile configs = .ok state.routes) :
    (∀ script, Runs { state with defaultScript := script } parts script) ↔
      ∀ config ∈ configs, config.matchesPath compile parts.uri.path = false := by
  rw [← Router.claimsPath_build_eq_false_iff h]
  constructor
  · intro hruns
    have hselect : ∀ script, selectScript { state with defaultScript := script } parts =
        .ok script := fun script => (runs_iff_selectScript ..).mp (hruns script)
    cases hroute : state.routes.resolve parts.method parts.uri.path with
    | some route =>
        -- the route has one script, which is not both of these
        have hnil := hselect []
        have hone := hselect ['d']
        simp only [selectScript, hroute] at hnil hone
        rw [hnil] at hone
        cases hone
    | none =>
        have hnil := hselect []
        simp only [selectScript, hroute] at hnil
        by_contra hclaims
        rw [if_pos (by simpa using hclaims)] at hnil
        cases hnil
  · intro hclaims script
    have hroute : state.routes.resolve parts.method parts.uri.path = none := by
      refine (Router.resolve_build_eq_none_iff h).mpr fun config hconfig hpath => ?_
      rw [(Router.claimsPath_build_eq_false_iff h).mp hclaims config hconfig] at hpath
      cases hpath
    simp [runs_iff_selectScript, selectScript, hroute, hclaims]

/-- **Route selection is the declared precedence.** Of the routes that take the
request the chosen one runs, and there is one where any takes it; 405 is the
answer where a glob matches and no route takes it, and the default script runs
where no glob matches. -/
theorem route_choice (h : Router.build compile configs = .ok state.routes) (parts : Parts) :
    (∀ config, IsChosen compile configs parts.method parts.uri.path config →
      Runs state parts config.script) ∧
    ((∃ config ∈ configs, Takes compile parts.method parts.uri.path config = true) →
      ∃! config, IsChosen compile configs parts.method parts.uri.path config) ∧
    (∀ bytes, Refuses state parts (.ok bytes) ↔
      (∃ config ∈ configs, config.matchesPath compile parts.uri.path = true) ∧
        ∀ config ∈ configs, config.matchesPath compile parts.uri.path = true →
          config.allows parts.method = false) ∧
    ((∀ script, Runs { state with defaultScript := script } parts script) ↔
      ∀ config ∈ configs, config.matchesPath compile parts.uri.path = false) := by
  refine ⟨fun config => runs_of_isChosen h, ?_, ?_, runs_default_iff h⟩
  · rintro ⟨config, hconfig, htakes⟩
    obtain ⟨route, hroute⟩ := resolve_of_takes h hconfig htakes
    obtain ⟨chosen, hchosen, _⟩ := isChosen_of_resolve h hroute
    exact ⟨chosen, hchosen, fun other hother => hother.unique _ hchosen⟩
  · intro bytes
    rw [refuses_ok_iff h, and_iff_right ⟨bytes, rfl⟩]

end Table

/-- A read of the Bios is the Bios route's, though the broader one is declared
first. -/
theorem route_choice_bios :
    Runs (stateFor [builtTreeRoute, builtBiosRoute]) { patchBios with method := .GET }
        biosRoute.script ∧
      ∃! config, IsChosen treeGlob [treeRoute, biosRoute] .GET biosRoute.path config := by
  have hchoice := route_choice build_bios_tree { patchBios with method := .GET }
  constructor
  · refine hchoice.1 biosRoute ⟨[treeRoute], [], rfl, by decide, ?_, by simp⟩
    intro config hconfig _
    obtain rfl : config = treeRoute := by simpa using hconfig
    decide
  · exact hchoice.2.1 ⟨biosRoute, by simp, by decide⟩

end RedfishProxy.Proxy
