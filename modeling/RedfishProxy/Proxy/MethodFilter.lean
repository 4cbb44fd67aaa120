import RedfishProxy.Proxy.Handle

/-!
# What a method list restricts

`resolve` drops a route that refuses the method before it looks for the most
specific one, so a write the best route refuses can still be taken by a broader
one. `refuses_iff` says exactly when it is not.
-/

namespace RedfishProxy.Proxy

open Lib Config

/-- `handle` answers 405 and runs no script: whatever the scripts would do, the
world they live in is left as it was. -/
def Refuses (state : AppState) (parts : Parts) (body : Except Text (List UInt8)) : Prop :=
  ∀ (σ ρ : Type) (runScript : RunScript σ ρ) (world : σ),
    handle runScript state parts body world =
      (.error (.methodNotAllowed parts.method.name), world)

theorem refuses_iff_selectScript (state : AppState) (parts : Parts)
    (body : Except Text (List UInt8)) :
    Refuses state parts body ↔
      (∃ bytes, body = .ok bytes) ∧ ∃ error, selectScript state parts = .error error := by
  constructor
  · intro h
    -- Scripts that flip the world show that none of them ran.
    have hflip := h Bool Unit (fun _ _ _ _ _ world => (.ok (), !world)) false
    unfold handle at hflip
    cases body with
    | error e => simp at hflip
    | ok bytes =>
        refine ⟨⟨bytes, rfl⟩, ?_⟩
        cases hscript : selectScript state parts with
        | error e => exact ⟨e, rfl⟩
        | ok script => simp [hscript] at hflip
  · intro h σ ρ runScript world
    obtain ⟨⟨bytes, rfl⟩, error, herror⟩ := h
    unfold handle
    simp only [herror, selectScript_error herror]

section Table

variable {ε : Type} {compile : Text → Except ε Matcher} {configs : List RouteConfig}

/-- The most specific route whose glob matches: the longest literal prefix, the
first declared on a tie. -/
def IsMostSpecific (compile : Text → Except ε Matcher) (configs : List RouteConfig)
    (path : Text) (best : RouteConfig) : Prop :=
  Precedence.IsBest (fun config : RouteConfig => literalPrefixLen config.path)
    (fun config => config.matchesPath compile path) configs best

/-- **When a method list restricts its path.** The most specific route refuses
the method; the request is refused exactly when its body arrived and every
broader route that matches refuses the method too. -/
theorem refuses_iff {state : AppState} (hbuild : Router.build compile configs = .ok state.routes)
    {parts : Parts} {best : RouteConfig}
    (hbest : IsMostSpecific compile configs parts.uri.path best)
    (hrefuse : best.allows parts.method = false) (body : Except Text (List UInt8)) :
    Refuses state parts body ↔ (∃ bytes, body = .ok bytes) ∧
      ∀ config ∈ configs, config ≠ best →
        config.matchesPath compile parts.uri.path = true →
          config.allows parts.method = false := by
  obtain ⟨hmem, hmatch⟩ := hbest.mem
  have hclaims : state.routes.claimsPath parts.uri.path = true := by
    by_contra hnot
    rw [Bool.not_eq_true, Router.claimsPath_build_eq_false_iff hbuild] at hnot
    rw [hnot best hmem] at hmatch
    cases hmatch
  rw [refuses_iff_selectScript, selectScript_refuses_iff,
    Router.resolve_build_eq_none_iff hbuild, and_iff_left hclaims]
  refine and_congr_right fun _ => ?_
  constructor
  · intro h config hconfig _ hpath
    exact h config hconfig hpath
  · intro h config hconfig hpath
    by_cases heq : config = best
    · rw [heq]
      exact hrefuse
    · exact h config hconfig heq hpath

end Table

/-! ## A table with a hole -/

/-- The glob crate on patterns without wildcards and on those that end in
`/**`. -/
def treeGlob (pattern : Text) : Except Unit Matcher :=
  let stem := if "/**".toList.isSuffixOf pattern then pattern.take (pattern.length - 2) else pattern
  if stem.any isWildcard then .error ()
  else if stem = pattern then .ok fun path => path == pattern
  else .ok fun path => stem.isPrefixOf path

def biosRoute : RouteConfig where
  method := ["GET".toList]
  path := "/redfish/v1/Systems/1/Bios".toList
  script := "bios.rn".toList

def treeRoute : RouteConfig where
  method := []
  path := "/redfish/v1/**".toList
  script := "tree.rn".toList

def patchBios : Parts where
  method := .PATCH
  uri := { path := "/redfish/v1/Systems/1/Bios".toList, query := none }
  headers := .new

/-- A state that serves these routes. -/
def stateFor (routes : List Route) : AppState where
  target := Http.bmcTarget
  externalBase := Http.proxyBase
  defaultScript := "default.rn".toList
  routes := Router.ofRoutes routes

def builtBiosRoute : Route where
  matcher := fun path => path == biosRoute.path
  methods := [.GET]
  specificity := 26
  script := biosRoute.script

def builtTreeRoute : Route where
  matcher := fun path => "/redfish/v1/".toList.isPrefixOf path
  methods := []
  specificity := 12
  script := treeRoute.script

theorem build_bios : Router.build treeGlob [biosRoute] = .ok (stateFor [builtBiosRoute]).routes := by
  rfl

theorem build_bios_tree : Router.build treeGlob [treeRoute, biosRoute] =
    .ok (stateFor [builtTreeRoute, builtBiosRoute]).routes := by
  rfl

/-- Alone, the Bios route refuses the write. -/
theorem refuses_iff_bios :
    Router.build treeGlob [biosRoute] = .ok (stateFor [builtBiosRoute]).routes ∧
      IsMostSpecific treeGlob [biosRoute] patchBios.uri.path biosRoute ∧
      biosRoute.allows patchBios.method = false ∧
      (Refuses (stateFor [builtBiosRoute]) patchBios (.ok []) ↔
        (∃ bytes : List UInt8, (.ok [] : Except Text (List UInt8)) = .ok bytes) ∧
          ∀ config ∈ [biosRoute], config ≠ biosRoute →
            config.matchesPath treeGlob patchBios.uri.path = true →
            config.allows patchBios.method = false) := by
  have hbest : IsMostSpecific treeGlob [biosRoute] patchBios.uri.path biosRoute :=
    ⟨[], [], rfl, by decide, by simp, by simp⟩
  exact ⟨build_bios, hbest, by decide, refuses_iff build_bios hbest (by decide) (.ok [])⟩

/-- With a broader route declared too, the refused write runs that route's
script. -/
theorem broader_route_runs :
    Router.build treeGlob [treeRoute, biosRoute] =
        .ok (stateFor [builtTreeRoute, builtBiosRoute]).routes ∧
      IsMostSpecific treeGlob [treeRoute, biosRoute] patchBios.uri.path biosRoute ∧
      biosRoute.method ≠ [] ∧ patchBios.method.name ∉ biosRoute.method ∧
      handle (fun _ _ script _ _ (ran : List Text) => (.ok (), ran ++ [script]))
          (stateFor [builtTreeRoute, builtBiosRoute]) patchBios (.ok []) [] =
        (.ok (), [treeRoute.script]) := by
  refine ⟨build_bios_tree, ⟨[treeRoute], [], rfl, by decide, ?_, by simp⟩, by decide,
    by decide, by rfl⟩
  intro config hconfig _
  obtain rfl : config = treeRoute := by simpa using hconfig
  decide

end RedfishProxy.Proxy
