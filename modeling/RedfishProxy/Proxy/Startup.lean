import RedfishProxy.Config.Validate
import RedfishProxy.RuneHost.Reload

/-!
# Startup

`AppState::build`: what an operator can fix is refused before traffic arrives.
The client of the BMC comes of `upstream_client`, where a CA that is not to be
used is a contradiction. What a file holds, what is a certificate or a regular
expression and whether the client can be built are parameters.

Main results:
* `build_ok`: what a proxy that starts has.
* `upstreamClient_ok`: what its client trusts.
-/

namespace RedfishProxy.Proxy

open Lib Config RuneHost

/-- Everything about the BMC this instance fronts, but for how long a request may
take. -/
structure TargetConfig where
  address : SocketAddrV4
  acceptInvalidCerts : Bool
  caPath : Option Text

/-- What `AppState::build` reads of the configuration. -/
structure BuildConfig where
  target : TargetConfig
  externalBaseUrl : Http.Base
  envAllow : Option Text
  rune : ScriptConfig

inductive UpstreamError (δ : Type) where
  | build (source : δ)
  | readCa (path : Text) (source : Text)
  | parseCa (path : Text) (source : Option δ)
  | contradictoryTls

/-- What the client is built with. -/
structure ClientBuilder (κ : Type) where
  acceptInvalidCerts : Bool
  builtInRoots : Bool
  roots : List κ

inductive BuildError (ε τ δ : Type) where
  | route (error : RouteError ε)
  | config (error : ConfigError τ)
  | upstream (error : UpstreamError δ)
  | rune (error : RuneError)

/-- What a request handler needs, and `handle` does not read. -/
structure SharedState (χ ρ υ : Type) where
  app : AppState
  client : χ
  /-- Which environment variables a script may read. `none` denies every one. -/
  envAllow : Option ρ
  scripts : RuneHost.ScriptStore υ

section Build

variable {ε τ δ κ χ ρ υ : Type} (compile : Text → Except ε Matcher)
  (regex : Text → Except Text ρ) (readFile : Text → Except Text (List UInt8))
  (fromPemBundle : List UInt8 → Except δ (List κ)) (buildClient : ClientBuilder κ → Except δ χ)
  (unprintable : Char → Bool) (compileOne : Text → Text → Except Text υ)

/-- What is to be trusted. `from_pem_bundle` answers with an empty list where
there is no certificate, and nothing would be left to trust. -/
def clientBuilder (config : TargetConfig) : Except (UpstreamError δ) (ClientBuilder κ) :=
  match config.caPath with
  | none => return {
      acceptInvalidCerts := config.acceptInvalidCerts
      builtInRoots := true
      roots := [] }
  | some path => do
    let pem ← (readFile path).mapError (.readCa path)
    let certs ← (fromPemBundle pem).mapError fun source => .parseCa path (some source)
    if certs.isEmpty then throw (.parseCa path none)
    else return {
      acceptInvalidCerts := config.acceptInvalidCerts
      builtInRoots := false
      roots := certs }

def upstreamClient (config : TargetConfig) : Except (UpstreamError δ) χ :=
  if config.caPath.isSome && config.acceptInvalidCerts then .error .contradictoryTls
  else do
    let builder ← clientBuilder readFile fromPemBundle config
    (buildClient builder).mapError .build

/-- Compiles the environment allowlist, anchored at both ends. -/
def envMatcher (envAllow : Option Text) : Except (ConfigError τ) (Option ρ) :=
  match envAllow with
  | none => .ok none
  | some pattern =>
    ((regex ("^(?:".toList ++ pattern ++ ")$".toList)).map some).mapError fun error =>
      .invalid ("rune.env_allow ".toList ++ pattern.debug unprintable ++ ": ".toList ++ error)

/-- `found` is what stands at `rune.script_dir`, when it is a directory. -/
def build (config : BuildConfig) (found : Option Dir) :
    Except (BuildError ε τ δ) (SharedState χ ρ υ) := do
  let routes ← (Router.build compile config.rune.route).mapError .route
  let envAllow ← (envMatcher regex unprintable config.envAllow).mapError .config
  let client ← (upstreamClient readFile fromPemBundle buildClient config.target).mapError .upstream
  let (scriptDir, scripts) ← (loadFor unprintable compileOne config.rune found).mapError .rune
  return {
    app := {
      target := config.target.address
      externalBase := config.externalBaseUrl
      defaultScript := config.rune.defaultScript
      routes }
    client, envAllow
    scripts := ⟨scriptDir, scripts⟩ }

variable {compile regex readFile fromPemBundle buildClient unprintable compileOne}

/-- What the client of a target may trust. -/
structure Trusts (readFile : Text → Except Text (List UInt8))
    (fromPemBundle : List UInt8 → Except δ (List κ)) (config : TargetConfig)
    (builder : ClientBuilder κ) : Prop where
  asTold : builder.acceptInvalidCerts = config.acceptInvalidCerts
  noCa : config.caPath = none → builder.builtInRoots = true ∧ builder.roots = []
  /-- A CA is all that is trusted, and is checked against. -/
  ca : ∀ path, config.caPath = some path → builder.acceptInvalidCerts = false ∧
    builder.builtInRoots = false ∧ builder.roots ≠ [] ∧
      ∃ pem, readFile path = .ok pem ∧ fromPemBundle pem = .ok builder.roots

theorem upstreamClient_ok {config : TargetConfig} {client : χ}
    (h : upstreamClient readFile fromPemBundle buildClient config = .ok client) :
    ∃ builder, Trusts readFile fromPemBundle config builder ∧ buildClient builder = .ok client := by
  unfold upstreamClient at h
  split at h
  · cases h
  · rename_i hplain
    obtain ⟨builder, hbuilder, hclient⟩ := bind_ok h
    refine ⟨builder, ?_, mapError_ok hclient⟩
    unfold clientBuilder at hbuilder
    cases hpath : config.caPath with
    | none =>
        rw [hpath] at hbuilder
        obtain rfl := Except.ok.inj hbuilder
        exact ⟨rfl, fun _ => ⟨rfl, rfl⟩, fun path heq => by cases hpath.symm.trans heq⟩
    | some path =>
        rw [hpath] at hbuilder hplain
        obtain ⟨pem, hpem, hbuilder⟩ := bind_ok hbuilder
        obtain ⟨certs, hcerts, hbuilder⟩ := bind_ok hbuilder
        split at hbuilder
        · cases hbuilder
        · rename_i hsome
          obtain rfl := Except.ok.inj hbuilder
          -- with a CA, certificates that go unchecked have been refused
          have hchecked : config.acceptInvalidCerts = false := by simpa using hplain
          have hthere : config.caPath ≠ none := by simp [hpath]
          refine ⟨rfl, fun heq => absurd heq hthere, fun path' heq => ?_⟩
          obtain rfl := Option.some.inj (hpath.symm.trans heq)
          exact ⟨hchecked, rfl, by simpa using hsome, pem, mapError_ok hpem, mapError_ok hcerts⟩

/-- What a proxy that starts has. -/
structure Started (compile : Text → Except ε Matcher)
    (readFile : Text → Except Text (List UInt8)) (fromPemBundle : List UInt8 → Except δ (List κ))
    (buildClient : ClientBuilder κ → Except δ χ) (config : BuildConfig)
    (state : SharedState χ ρ υ) : Prop where
  routes : Router.build compile config.rune.route = .ok state.app.routes
  default : state.app.defaultScript = config.rune.defaultScript
  dir : state.scripts.dir = some config.rune.scriptDir
  callable : Callable config.rune state.scripts.current
  closed : config.envAllow = none → state.envAllow = none
  client : ∃ builder, Trusts readFile fromPemBundle config.target builder ∧
    buildClient builder = .ok state.client

theorem build_ok {config : BuildConfig} {found : Option Dir} {state : SharedState χ ρ υ}
    (h : build (τ := τ) compile regex readFile fromPemBundle buildClient unprintable compileOne
      config found = .ok state) :
    Started compile readFile fromPemBundle buildClient config state := by
  unfold build at h
  obtain ⟨routes, hroutes, h⟩ := bind_ok h
  obtain ⟨envAllow, henv, h⟩ := bind_ok h
  obtain ⟨client, hclient, h⟩ := bind_ok h
  obtain ⟨⟨dir, scripts⟩, hload, h⟩ := bind_ok h
  obtain rfl := Except.ok.inj h
  obtain ⟨hdir, hcallable⟩ := loadFor_callable (mapError_ok hload)
  refine ⟨mapError_ok hroutes, rfl, hdir, hcallable, fun hnone => ?_,
    upstreamClient_ok (mapError_ok hclient)⟩
  rw [hnone] at henv
  exact (Except.ok.inj henv).symm

end Build

end RedfishProxy.Proxy
