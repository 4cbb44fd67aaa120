import RedfishProxy.Lib.Run
import RedfishProxy.Proxy.Handle
import RedfishProxy.RuneHost.Scripts

/-!
# Reloading the scripts

`load_for` accepts a configuration only if every script it names was found.
`reload` swaps in whatever compiled, and does not look at the configuration, so
what startup established can be lost: `reload_callable_iff` says for which
histories of the directory it is not.
-/

namespace RedfishProxy.RuneHost

open Lib Config

variable {υ : Type}

/-- What `load_for` reads of the configuration. -/
structure ScriptConfig where
  scriptDir : Text
  defaultScript : Text
  route : List RouteConfig

/-- Every script a request can be given. -/
def ScriptConfig.scripts (config : ScriptConfig) : List Text :=
  config.defaultScript :: config.route.map RouteConfig.script

/-- The loop over the routes. -/
def checkRoutes (unprintable : Char → Bool) (dir : Text) (scripts : Scripts υ) :
    List RouteConfig → Except RuneError Unit
  | [] => .ok ()
  | route :: rest =>
    if (scripts.unitFor route.script).isNone then
      .error (.compile ("route ".toList ++ route.path.debug unprintable ++
        " names script ".toList ++ route.script ++ ", which was not found in ".toList ++ dir))
    else checkRoutes unprintable dir scripts rest

/-- `found` is what stands at `rune.script_dir`, when it is a directory. -/
def loadFor (unprintable : Char → Bool) (compileOne : Text → Text → Except Text υ)
    (config : ScriptConfig) (found : Option Dir) :
    Except RuneError (Option Text × Scripts υ) :=
  let dir := config.scriptDir
  match found with
  | none =>
    .error (.compile ("rune.script_dir ".toList ++ dir ++
      " does not exist, and every request needs a script".toList))
  | some contents => do
    let scripts ← compileDir compileOne dir contents
    if (scripts.unitFor config.defaultScript).isNone then
      .error (.compile ("rune.default_script names ".toList ++ config.defaultScript ++
        ", which was not found in ".toList ++ dir))
    else
      checkRoutes unprintable dir scripts config.route
      return (some dir, scripts)

/-- The live scripts, so SIGHUP can swap them under running requests. -/
structure ScriptStore (υ : Type) where
  dir : Option Text
  current : Scripts υ

/-- Recompiles from disk, where `contents` stands now. On failure the previous
units keep serving. -/
def reload (compileOne : Text → Text → Except Text υ) (store : ScriptStore υ)
    (contents : Dir) : ScriptStore υ :=
  match store.dir with
  | none => store
  | some dir =>
    match compileDir compileOne dir contents with
    | .ok scripts => { store with current := scripts }
    | .error _ => store

/-- The lookup `execute` starts with. -/
def unitOrFailure (scripts : Scripts υ) (script : Text) : Except Text υ :=
  match scripts.unitFor script with
  | some unit => .ok unit
  | none => .error ("no compiled script named ".toList ++ script)

/-- No request fails for want of a script. -/
def Callable (config : ScriptConfig) (scripts : Scripts υ) : Prop :=
  ∀ script ∈ config.scripts, ∃ unit, unitOrFailure scripts script = .ok unit

section Requests

variable {ε : Type} {compile : Text → Except ε Matcher} {config : ScriptConfig}
  {state : Proxy.AppState}

/-- A request is only ever given a configured script. -/
theorem selectScript_configured (hdefault : state.defaultScript = config.defaultScript)
    (hroutes : Router.build compile config.route = .ok state.routes) {parts : Parts}
    {script : Text} (h : Proxy.selectScript state parts = .ok script) :
    script ∈ config.scripts := by
  unfold Proxy.selectScript at h
  cases hroute : state.routes.resolve parts.method parts.uri.path with
  | some route =>
      rw [hroute] at h
      injection h with h
      rw [← h]
      exact List.mem_cons_of_mem _ (Router.script_mem_of_resolve hroutes hroute)
  | none =>
      rw [hroute] at h
      change (if _ then _ else _) = _ at h
      split at h
      · cases h
      · injection h with h
        rw [← h, hdefault]
        exact List.mem_cons_self

/-- So while the scripts are callable, no request goes without one. -/
theorem Callable.serves {scripts : Scripts υ} (hcallable : Callable config scripts)
    (hdefault : state.defaultScript = config.defaultScript)
    (hroutes : Router.build compile config.route = .ok state.routes) {parts : Parts}
    {script : Text} (h : Proxy.selectScript state parts = .ok script) :
    ∃ unit, unitOrFailure scripts script = .ok unit :=
  hcallable script (selectScript_configured hdefault hroutes h)

end Requests

theorem unitOrFailure_ok_iff (scripts : Scripts υ) (script : Text) :
    (∃ unit, unitOrFailure scripts script = .ok unit) ↔ (scripts.unitFor script).isSome := by
  unfold unitOrFailure
  cases scripts.unitFor script <;> simp

/-! ## What startup establishes -/

section Startup

variable {unprintable : Char → Bool} {compileOne : Text → Text → Except Text υ}
  {config : ScriptConfig} {found : Option Dir} {dir : Option Text} {scripts : Scripts υ}

theorem checkRoutes_ok {name : Text} {routes : List RouteConfig}
    (h : checkRoutes unprintable name scripts routes = .ok ()) :
    ∀ route ∈ routes, (scripts.unitFor route.script).isSome := by
  induction routes with
  | nil => simp
  | cons route routes ih =>
      unfold checkRoutes at h
      split at h
      · cases h
      · rename_i hsome
        intro r hr
        rcases List.mem_cons.mp hr with heq | hr
        · rw [heq]
          simpa [Option.isSome_iff_ne_none] using hsome
        · exact ih h r hr

/-- A configuration that is accepted has every script it names. -/
theorem loadFor_callable (h : loadFor unprintable compileOne config found = .ok (dir, scripts)) :
    dir = some config.scriptDir ∧ Callable config scripts := by
  unfold loadFor at h
  cases found with
  | none => cases h
  | some contents =>
      cases hcompile : compileDir compileOne config.scriptDir contents with
      | error e =>
          simp only [hcompile] at h
          cases h
      | ok compiled =>
          simp only [hcompile] at h
          change (if _ then _ else _) = _ at h
          split at h
          · cases h
          · rename_i hdefault
            cases hroutes : checkRoutes unprintable config.scriptDir compiled config.route with
            | error e =>
                rw [hroutes] at h
                cases h
            | ok u =>
                rw [hroutes] at h
                injection h with h
                obtain ⟨rfl, rfl⟩ : some config.scriptDir = dir ∧ compiled = scripts := by
                  simpa using h
                refine ⟨rfl, ?_⟩
                intro script hscript
                rw [unitOrFailure_ok_iff]
                rcases List.mem_cons.mp hscript with heq | hmem
                · rw [heq]
                  simpa [Option.isSome_iff_ne_none] using hdefault
                · obtain ⟨route, hroute, rfl⟩ := List.mem_map.mp hmem
                  exact checkRoutes_ok hroutes route hroute

end Startup

/-! ## What reloads keep -/

section Reloads

variable {unprintable : Char → Bool} {compileOne : Text → Text → Except Text υ}
  {config : ScriptConfig}

/-- The directory compiles. -/
def Compiles (compileOne : Text → Text → Except Text υ) (dir : Text) (contents : Dir) : Prop :=
  ∃ scripts, compileDir compileOne dir contents = .ok scripts

/-- Every configured script stands in the directory. -/
def HoldsAll (config : ScriptConfig) (contents : Dir) : Prop :=
  ∀ script ∈ config.scripts, contents.HasScript (components script)

theorem reload_of_error {store : ScriptStore υ} {dir : Text} (hdir : store.dir = some dir)
    {contents : Dir} {error : RuneError} (h : compileDir compileOne dir contents = .error error) :
    reload compileOne store contents = store := by
  unfold reload
  simp only [hdir, h]

theorem reload_of_ok {store : ScriptStore υ} {dir : Text} (hdir : store.dir = some dir)
    {contents : Dir} {scripts : Scripts υ} (h : compileDir compileOne dir contents = .ok scripts) :
    reload compileOne store contents = { store with current := scripts } := by
  unfold reload
  simp only [hdir, h]

theorem reload_dir {store : ScriptStore υ} {dir : Text} (hdir : store.dir = some dir)
    (contents : Dir) : (reload compileOne store contents).dir = some dir := by
  cases h : compileDir compileOne dir contents with
  | error e => rw [reload_of_error hdir h, hdir]
  | ok scripts => rw [reload_of_ok hdir h, hdir]

/-- One reload: a directory that does not compile changes nothing, one that does
decides alone. -/
theorem reload_callable_iff_of_dir {store : ScriptStore υ} (hdir : store.dir = some config.scriptDir)
    (hstore : Callable config store.current) (contents : Dir) :
    Callable config (reload compileOne store contents).current ↔
      (Compiles compileOne config.scriptDir contents → HoldsAll config contents) := by
  cases hcompile : compileDir compileOne config.scriptDir contents with
  | error e =>
      have hnot : ¬ Compiles compileOne config.scriptDir contents := by
        intro h
        obtain ⟨scripts, hok⟩ := h
        rw [hcompile] at hok
        cases hok
      rw [reload_of_error hdir hcompile]
      exact ⟨fun _ h => absurd h hnot, fun _ => hstore⟩
  | ok scripts =>
      have hyes : Compiles compileOne config.scriptDir contents := ⟨scripts, hcompile⟩
      have heach : Callable config scripts ↔ HoldsAll config contents := by
        refine forall₂_congr ?_
        intro script _
        rw [unitOrFailure_ok_iff, compileDir_unitFor hcompile]
      rw [reload_of_ok hdir hcompile]
      show Callable config scripts ↔ _
      rw [heach]
      exact ⟨fun h _ => h, fun h => h hyes⟩

/-- **What a history of reloads keeps callable.** From an accepted
configuration, every state the reloads go through has every configured script
exactly when each directory that compiled held them all. -/
theorem reload_callable_iff {found : Option Dir} {dir : Option Text} {scripts : Scripts υ}
    (hload : loadFor unprintable compileOne config found = .ok (dir, scripts))
    (reloads : List Dir) :
    (∀ store, Visits (reload compileOne) ⟨dir, scripts⟩ reloads store →
      Callable config store.current) ↔
      ∀ contents ∈ reloads, Compiles compileOne config.scriptDir contents →
        HoldsAll config contents := by
  obtain ⟨rfl, hcallable⟩ := loadFor_callable hload
  -- The run lemma, for any start that is callable already.
  suffices h : ∀ start : ScriptStore υ, start.dir = some config.scriptDir →
      Callable config start.current →
      ((∀ store, Visits (reload compileOne) start reloads store →
        Callable config store.current) ↔
        ∀ contents ∈ reloads, Compiles compileOne config.scriptDir contents →
          HoldsAll config contents) from h _ rfl hcallable
  clear hload hcallable
  induction reloads with
  | nil =>
      intro start _ hstart
      constructor
      · intro _ contents hmem
        cases hmem
      · intro _ store hvisit
        rw [hvisit.eq_of_nil]
        exact hstart
  | cons contents reloads ih =>
      intro start hdir hstart
      have hstep : Callable config (reload compileOne start contents).current ↔
          (Compiles compileOne config.scriptDir contents → HoldsAll config contents) :=
        reload_callable_iff_of_dir hdir hstart contents
      have hdir' : (reload compileOne start contents).dir = some config.scriptDir :=
        reload_dir hdir contents
      rw [List.forall_mem_cons, ← hstep]
      constructor
      · intro h
        have hnext := h _ (Visits.cons_iff.mpr (.inr (Visits.first _)))
        refine ⟨hnext, (ih _ hdir' hnext).mp ?_⟩
        intro store hvisit
        exact h store (Visits.cons_iff.mpr (.inr hvisit))
      · intro h store hvisit
        obtain ⟨hnext, hrest⟩ := h
        rcases Visits.cons_iff.mp hvisit with heq | hvisit
        · rw [heq]
          exact hstart
        · exact (ih _ hdir' hnext).mpr hrest store hvisit

end Reloads

/-! ## A deleted script -/

def onlyDefault : ScriptConfig where
  scriptDir := "/etc/scripts".toList
  defaultScript := "default.rn".toList
  route := []

/-- The directory with the default script in it. -/
def defaultDir : Dir := .listing (.file "default.rn".toList (.ok "pub fn handle() {}".toList) .nil)

/-- A compiler that accepts everything. -/
def acceptAll (_name _text : Text) : Except Text Unit := .ok ()

theorem reload_callable_iff_unchanged :
    ∃ dir scripts, loadFor (fun _ => false) acceptAll onlyDefault (some defaultDir) =
        .ok (dir, scripts) ∧
      ((∀ store, Visits (reload acceptAll) ⟨dir, scripts⟩ [defaultDir] store →
        Callable onlyDefault store.current) ↔
        ∀ contents ∈ [defaultDir], Compiles acceptAll onlyDefault.scriptDir contents →
          HoldsAll onlyDefault contents) := by
  have hload : ∃ dir scripts, loadFor (fun _ => false) acceptAll onlyDefault (some defaultDir) =
      .ok (dir, scripts) := ⟨_, _, rfl⟩
  obtain ⟨dir, scripts, hload⟩ := hload
  exact ⟨dir, scripts, hload, reload_callable_iff hload [defaultDir]⟩

/-- With the default script deleted, a reload leaves nothing to run. -/
theorem reload_drops_deleted_script :
    ∃ dir scripts, loadFor (fun _ => false) acceptAll onlyDefault (some defaultDir) =
        .ok (dir, scripts) ∧
      unitOrFailure (reload acceptAll ⟨dir, scripts⟩ (.listing .nil)).current
          onlyDefault.defaultScript =
        .error "no compiled script named default.rn".toList :=
  ⟨_, _, rfl, rfl⟩

end RedfishProxy.RuneHost
