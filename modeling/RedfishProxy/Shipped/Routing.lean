import Mathlib.Data.List.Find
import RedfishProxy.Lib.PathGlob
import RedfishProxy.Proxy.RouteChoice
import RedfishProxy.Shipped.Catalog

/-!
# The shipped table

What `config.toml` comes to: which script a path is given. The table is sorted by
its literal prefixes before it is searched, and as it is shipped that makes no
difference: the first route that matches is the one that decides.

Main result:
* `shipped_routing`: every request is given the script of the first route that
  matches its path, or the default one, and the script is there.
-/

namespace RedfishProxy.Shipped

open Lib Config Script RuneHost
open PathGlob (globMatches globsOverlap)

/-- The script of a path, as the table is declared. -/
def scriptFor (path : Text) : Text :=
  match shippedRoutes.find? fun route => globMatches route.path path with
  | some route => route.script
  | none => shippedConfig.defaultScript

/-- The glob crate takes a pattern of the table, and matches as documented. -/
def Globs {ε : Type} (compile : Text → Except ε Matcher) (pattern : Text) : Prop :=
  ∃ matcher, compile pattern = .ok matcher ∧ ∀ path, matcher path = globMatches pattern path

/-- Of two routes that one path can match, the later does not outrank the
earlier. `Chassis/` and `Chassis/*` are two such. -/
theorem shippedRoutes_ranked : shippedRoutes.Pairwise fun route later =>
    globsOverlap route.path later.path = true →
      literalPrefixLen later.path ≤ literalPrefixLen route.path := by
  decide +kernel

/-- The table has no method lists. -/
theorem allows_shipped : ∀ config ∈ shippedRoutes, config.method = [] :=
  List.forall_mem_map.mpr fun _ _ => rfl

/-- Its scripts are there. -/
theorem unitFor_shipped : ∀ config ∈ shippedRoutes,
    ∃ script : ShippedScript, config.script = script.file :=
  List.forall_mem_map.mpr fun entry _ => ⟨entry.2, rfl⟩

section Table

variable {ε : Type} {compile : Text → Except ε Matcher}

/-- Without method lists a table builds if its globs do. -/
theorem buildRoutes_ok {configs : List RouteConfig}
    (hglobs : ∀ config ∈ configs, Globs compile config.path)
    (hmethods : ∀ config ∈ configs, config.method = []) :
    ∃ routes, buildRoutes compile configs = .ok routes := by
  induction configs with
  | nil => exact ⟨[], rfl⟩
  | cons config configs ih =>
      obtain ⟨matcher, hmatcher, _⟩ := hglobs config List.mem_cons_self
      obtain ⟨rest, hrest⟩ := ih (fun c hc => hglobs c (List.mem_cons_of_mem _ hc))
        fun c hc => hmethods c (List.mem_cons_of_mem _ hc)
      have hroute : buildRoute compile config =
          .ok ⟨matcher, [], literalPrefixLen config.path, config.script⟩ := by
        unfold buildRoute
        rw [hmatcher, hmethods config List.mem_cons_self]
        rfl
      refine ⟨⟨matcher, [], literalPrefixLen config.path, config.script⟩ :: rest, ?_⟩
      unfold buildRoutes
      rw [hroute, hrest]
      rfl

variable (hglobs : ∀ config ∈ shippedRoutes, Globs compile config.path)

include hglobs

theorem takes_shipped {config : RouteConfig} (hconfig : config ∈ shippedRoutes)
    (method : Method) (path : Text) :
    Proxy.Takes compile method path config = globMatches config.path path := by
  obtain ⟨matcher, hmatcher, hpath⟩ := hglobs config hconfig
  unfold Proxy.Takes RouteConfig.allows RouteConfig.matchesPath
  rw [allows_shipped config hconfig, hmatcher, ← hpath]
  rfl

/-- The first route that matches is chosen. -/
theorem isChosen_of_find? {config : RouteConfig} {path : Text} (method : Method)
    (h : (shippedRoutes.find? fun route => globMatches route.path path) = some config) :
    Proxy.IsChosen compile shippedRoutes method path config := by
  have hsame : ∀ config ∈ shippedRoutes,
      Proxy.Takes compile method path config = globMatches config.path path :=
    fun config hconfig => takes_shipped hglobs hconfig method path
  have hfound : shippedRoutes.find? (Proxy.Takes compile method path) = some config := by
    rw [← h]
    exact List.find?_congr hsame
  refine Precedence.isBest_of_find? _ hfound ?_
  refine (shippedRoutes_ranked.imp_of_mem fun {route later} hroute hlater hranked => ?_)
  rw [hsame _ hroute, hsame _ hlater]
  exact fun hmatch hmatch' => hranked (PathGlob.globsOverlap_of_matches hmatch hmatch')

/-- **The shipped table.** It builds, whatever a request's method and path it is
given the script of the first route that matches the path, or the default script,
and the directory has it. -/
theorem shipped_routing :
    ∃ router, Router.build compile shippedRoutes = .ok router ∧
      ∀ (state : Proxy.AppState) (parts : Parts), state.routes = router →
        state.defaultScript = shippedConfig.defaultScript →
        Proxy.selectScript state parts = .ok (scriptFor parts.uri.path) ∧
          ∃ script : ShippedScript, scriptFor parts.uri.path = script.file ∧
            unitOrFailure shippedScripts (scriptFor parts.uri.path) = .ok script := by
  obtain ⟨routes, hroutes⟩ := buildRoutes_ok hglobs allows_shipped
  have hbuild : Router.build compile shippedRoutes = .ok (.ofRoutes routes) := by
    unfold Router.build
    rw [hroutes]
    rfl
  refine ⟨_, hbuild, fun state parts hstate hdefault => ?_⟩
  rw [← hstate] at hbuild
  cases hfound : shippedRoutes.find? fun route => globMatches route.path parts.uri.path with
  | some config =>
      have hscript : scriptFor parts.uri.path = config.script := by
        unfold scriptFor
        rw [hfound]
      obtain ⟨script, hfile⟩ := unitFor_shipped config (List.mem_of_find?_eq_some hfound)
      rw [hscript, hfile]
      refine ⟨?_, script, rfl, ?_⟩
      · rw [← hfile, ← Proxy.runs_iff_selectScript]
        exact Proxy.runs_of_isChosen hbuild (isChosen_of_find? hglobs _ hfound)
      · unfold unitOrFailure
        rw [unitFor_file]
  | none =>
      have hscript : scriptFor parts.uri.path = ShippedScript.passthrough.file := by
        unfold scriptFor
        rw [hfound]
        rfl
      have hnone : ∀ config ∈ shippedRoutes,
          config.matchesPath compile parts.uri.path = false := by
        intro config hconfig
        obtain ⟨matcher, hmatcher, hpath⟩ := hglobs config hconfig
        unfold RouteConfig.matchesPath
        rw [hmatcher]
        simpa [hpath] using List.find?_eq_none.mp hfound config hconfig
      have hresolve : state.routes.resolve parts.method parts.uri.path = none :=
        (Router.resolve_build_eq_none_iff hbuild).mpr fun config hconfig hpath => by
          rw [hnone config hconfig] at hpath
          cases hpath
      have hclaims : state.routes.claimsPath parts.uri.path = false :=
        (Router.claimsPath_build_eq_false_iff hbuild).mpr hnone
      rw [hscript]
      refine ⟨?_, .passthrough, rfl, ?_⟩
      · unfold Proxy.selectScript
        rw [hresolve, hclaims, hdefault]
        rfl
      · unfold unitOrFailure
        rw [unitFor_file]

end Table

/-- Globs as they are documented. -/
def documentedGlob (pattern : Text) : Except Unit Matcher := .ok (globMatches pattern)

theorem shipped_routing_documented :
    ∃ router, Router.build documentedGlob shippedRoutes = .ok router ∧
      ∀ (state : Proxy.AppState) (parts : Parts), state.routes = router →
        state.defaultScript = shippedConfig.defaultScript →
        Proxy.selectScript state parts = .ok (scriptFor parts.uri.path) ∧
          ∃ script : ShippedScript, scriptFor parts.uri.path = script.file ∧
            unitOrFailure shippedScripts (scriptFor parts.uri.path) = .ok script :=
  shipped_routing fun _ _ => ⟨_, rfl, fun _ => rfl⟩

end RedfishProxy.Shipped
