import RedfishProxy.Proxy.Startup
import RedfishProxy.Shipped.Requests

/-!
# The proxy from its start

What `run` goes on with once the state is built: connections bring requests, and
SIGHUP has the scripts reloaded, at any time. A reload swaps the units and
nothing else, and a request runs the units it found, so what it is served with
was settled when it came.

Main results:
* `reached_process`: the requests are in service as if there were no reloads.
* `never_without_a_script`: with reloads that keep what the configuration names,
  a request is only refused for its body or its method.
-/

namespace RedfishProxy.Shipped

open Lib Http Config Script RuneHost
open Proxy (build build_ok BuildConfig SharedState ClientBuilder)

/-- The proxy, once it has started. -/
structure Process (ν : Type) where
  scripts : RuneHost.ScriptStore ShippedScript
  pool : InService ν

inductive ProcessEvent (ν : Type) where
  | arrive (parts : Parts) (body : Except Text (List UInt8)) (disk : Disk)
  | go (id : Nat) (outside : Outside (@Ask.Answer ν))
  /-- SIGHUP, with what stands at the script directory then. -/
  | hangup (contents : Dir)

section Process

variable {ν σ : Type} (host : Rune ν σ) (app : Proxy.AppState) (scriptDir : Text)
  (compileOne : Text → Text → Except Text ShippedScript)

/-- What the requests in service see of an event. -/
def ProcessEvent.service (scripts : Scripts ShippedScript) :
    ProcessEvent ν → Option (ServiceEvent ν)
  | .arrive parts body disk => some (.arrive { parts, body, scripts, disk })
  | .go id outside => some (.go id outside)
  | .hangup _ => none

/-- What the listener for SIGHUP does. -/
def ProcessEvent.reloads (scripts : RuneHost.ScriptStore ShippedScript) :
    ProcessEvent ν → RuneHost.ScriptStore ShippedScript
  | .hangup contents => reload compileOne scripts contents
  | _ => scripts

def processStep (process : Process ν) (event : ProcessEvent ν) : Process ν where
  scripts := event.reloads compileOne process.scripts
  pool :=
    match event.service process.scripts.current with
    | some event => serviceStep host app scriptDir process.pool event
    | none => process.pool

/-- Nobody is served yet, and nothing is kept. -/
def Process.fresh (scripts : RuneHost.ScriptStore ShippedScript) : Process ν where
  scripts := scripts
  pool := Threads.empty ScriptStore.new

/-- The requests in the order they came, each with the units of its time. -/
def incomings (scripts : RuneHost.ScriptStore ShippedScript) : List (ProcessEvent ν) → List Incoming
  | [] => []
  | .arrive parts body disk :: events =>
    { parts, body, scripts := scripts.current, disk } :: incomings scripts events
  | .go _ _ :: events => incomings scripts events
  | .hangup contents :: events => incomings (reload compileOne scripts contents) events

variable {host app scriptDir compileOne}

/-- Going on does not change what was asked for. -/
theorem requests_go (pool : InService ν) (id : Nat) (outside : Outside (@Ask.Answer ν)) :
    (Threads.go (storeShared host) pool id outside).threads.map Thread.request =
      pool.threads.map Thread.request := by
  rcases Threads.go_cases (storeShared host) pool id outside with
    ⟨request, heard, question, next, hthread, hgo⟩ | hgo
  -- the request goes back to where it stood, with less to do
  · rw [hgo, List.map_set]
    refine List.ext_getElem? fun other => ?_
    rw [List.getElem?_set]
    split
    · rename_i heq
      subst heq
      have hplaced : id < (pool.threads.map Thread.request).length := by
        simpa using (List.getElem?_eq_some_iff.mp hthread).1
      rw [List.getElem?_map, hthread, if_pos hplaced]
      rfl
    · rfl
  · rw [hgo]

/-- A step of the proxy is one of the requests in service, or none. -/
theorem reached_processStep {process : Process ν} (event : ProcessEvent ν)
    (h : Reached host app scriptDir ScriptStore.new process.pool) :
    Reached host app scriptDir ScriptStore.new
      (processStep host app scriptDir compileOne process event).pool := by
  obtain ⟨events, done, rest, -, hpool⟩ := h
  unfold processStep
  cases event.service process.scripts.current with
  -- a hangup is nothing to them
  | none => exact ⟨done, hpool ▸ Visits.last _⟩
  | some event =>
      refine ⟨done ++ [event], ?_⟩
      show Visits _ _ _ (serviceStep host app scriptDir process.pool event)
      rw [hpool, ← after_concat (serviceStep host app scriptDir)]
      exact Visits.last _

/-- **Reloads are nothing to the requests in service.** -/
theorem reached_process (scripts : RuneHost.ScriptStore ShippedScript)
    (events : List (ProcessEvent ν)) :
    Reached host app scriptDir ScriptStore.new
      (after (processStep host app scriptDir compileOne) (.fresh scripts) events).pool := by
  induction events using List.reverseRecOn with
  | nil => exact ⟨[], Visits.last []⟩
  | append_singleton events event ih =>
      rw [after_concat]
      exact reached_processStep event ih

/-- What was asked for is what came. -/
theorem requests_after (process : Process ν) (events : List (ProcessEvent ν)) :
    (after (processStep host app scriptDir compileOne) process events).pool.threads.map
        Thread.request =
      process.pool.threads.map Thread.request ++ incomings compileOne process.scripts events := by
  induction events generalizing process with
  | nil => exact (List.append_nil _).symm
  | cons event events ih =>
      show (after _ (processStep host app scriptDir compileOne process event)
        events).pool.threads.map Thread.request = _
      rw [ih]
      cases event with
      | arrive parts body disk =>
          show (process.pool.threads ++ [_]).map Thread.request ++ _ = _
          rw [List.map_append, List.append_assoc]
          rfl
      | go id outside =>
          show (Threads.go (storeShared host) process.pool id outside).threads.map
            Thread.request ++ _ = _
          rw [requests_go]
          rfl
      | hangup contents => rfl

/-- The scripts of a request are those the configuration names, while reloads keep
them. -/
theorem callable_incomings {config : ScriptConfig} {scripts : RuneHost.ScriptStore ShippedScript}
    (hdir : scripts.dir = some config.scriptDir) (hcallable : Callable config scripts.current)
    {events : List (ProcessEvent ν)}
    (hkeeps : ∀ contents, .hangup contents ∈ events →
      Compiles compileOne config.scriptDir contents → HoldsAll config contents) :
    ∀ incoming ∈ incomings compileOne scripts events, Callable config incoming.scripts := by
  induction events generalizing scripts with
  | nil => simp [incomings]
  | cons event events ih =>
      have hlater := fun contents hmem => hkeeps contents (List.mem_cons_of_mem event hmem)
      cases event with
      | arrive parts body disk =>
          intro incoming hincoming
          rcases List.mem_cons.mp hincoming with rfl | hincoming
          · exact hcallable
          · exact ih hdir hcallable hlater incoming hincoming
      -- only a hangup changes the units
      | go id outside => exact ih hdir hcallable hlater
      | hangup contents =>
          refine ih (reload_dir hdir contents) ?_ hlater
          exact (reload_callable_iff_of_dir hdir hcallable contents).mpr
            (hkeeps contents List.mem_cons_self)

/-- With its scripts there, a request is refused for its body or its method alone. -/
theorem receive_error_cases {ε : Type} {compile : Text → Except ε Matcher} {config : ScriptConfig}
    (hdefault : app.defaultScript = config.defaultScript)
    (hroutes : Router.build compile config.route = .ok app.routes) {incoming : Incoming}
    (hcallable : Callable config incoming.scripts) {error : Proxy.ProxyError}
    (h : receive app incoming = .error error) :
    (∃ reason, error = .requestBody reason) ∨
      error = .methodNotAllowed incoming.parts.method.name := by
  unfold receive at h
  split at h
  · rename_i reason _
    exact .inl ⟨reason, (Except.error.inj h).symm⟩
  · split at h
    · rename_i refusal hrefuses
      rw [← Except.error.inj h]
      exact .inr (Proxy.selectScript_error hrefuses)
    · rename_i script hselect
      obtain ⟨unit, hunit⟩ := hcallable.serves hdefault hroutes hselect
      rw [hunit] at h
      cases h

/-- **A proxy that starts, and whose reloads keep what its configuration names,
turns nobody away for want of a script**: its requests are in service as if there
were no reloads, each with the units of the time it came, and one that is refused
is so for its body or its method. -/
theorem never_without_a_script {ε τ δ κ χ ρ : Type} {compile : Text → Except ε Matcher}
    {regex : Text → Except Text ρ} {readFile : Text → Except Text (List UInt8)}
    {fromPemBundle : List UInt8 → Except δ (List κ)} {buildClient : ClientBuilder κ → Except δ χ}
    {unprintable : Char → Bool} {config : BuildConfig} {found : Option Dir}
    {state : SharedState χ ρ ShippedScript}
    (hbuild : build (τ := τ) compile regex readFile fromPemBundle buildClient unprintable compileOne
      config found = .ok state)
    {events : List (ProcessEvent ν)}
    (hkeeps : ∀ contents, .hangup contents ∈ events →
      Compiles compileOne config.rune.scriptDir contents → HoldsAll config.rune contents)
    {process : Process ν} (hprocess : process = after
      (processStep host state.app config.rune.scriptDir compileOne) (.fresh state.scripts) events) :
    Reached host state.app config.rune.scriptDir ScriptStore.new process.pool ∧
      process.pool.threads.map Thread.request = incomings compileOne state.scripts events ∧
      ∀ thread ∈ process.pool.threads, ∀ error,
        receive state.app thread.request = .error error →
          (∃ reason, error = .requestBody reason) ∨
            error = .methodNotAllowed thread.request.parts.method.name := by
  subst hprocess
  have hstarted := build_ok hbuild
  have hrequests : (after (processStep host state.app config.rune.scriptDir compileOne)
      (.fresh state.scripts) events).pool.threads.map Thread.request =
        incomings compileOne state.scripts events := requests_after (.fresh state.scripts) events
  refine ⟨reached_process state.scripts events, hrequests, fun thread hthread error herror => ?_⟩
  have hincoming : thread.request ∈ incomings compileOne state.scripts events := by
    rw [← hrequests]
    exact List.mem_map_of_mem hthread
  exact receive_error_cases hstarted.default hstarted.routes
    (callable_incomings hstarted.dir hstarted.callable hkeeps _ hincoming) herror

end Process

/-! ## A proxy that only relays -/

def relayOnly : BuildConfig where
  target := { address := bmcTarget, acceptInvalidCerts := true, caPath := none }
  externalBaseUrl := proxyBase
  envAllow := none
  rune := onlyDefault

def compilesToRelay (_name _text : Text) : Except Text ShippedScript := .ok .passthrough

/-- A reload, and a request that comes after it. -/
def reloadFirst : List (ProcessEvent Nat) :=
  [.hangup defaultDir,
    .arrive (incomingTo .passthrough .GET "/redfish/v1".toList).parts (.ok []) bareDisk]

/-- The request has its script. -/
theorem never_without_a_script_relay :
    ∃ state : SharedState (ClientBuilder Unit) Unit ShippedScript,
      build (ε := Unit) (τ := Unit) (fun _ => .error ()) (fun _ => .error []) (fun _ => .error [])
          (fun _ => .ok []) (fun builder => (.ok builder : Except Unit _)) (fun _ => false)
          compilesToRelay relayOnly (some defaultDir) = .ok state ∧
        ∀ thread ∈ (after (processStep quietHost state.app relayOnly.rune.scriptDir compilesToRelay)
            (.fresh state.scripts) reloadFirst).pool.threads,
          ∀ error, receive state.app thread.request = .error error →
            (∃ reason, error = .requestBody reason) ∨
              error = .methodNotAllowed thread.request.parts.method.name := by
  obtain ⟨state, hbuild⟩ : ∃ state : SharedState (ClientBuilder Unit) Unit ShippedScript,
      build (ε := Unit) (τ := Unit) (fun _ => .error ()) (fun _ => .error []) (fun _ => .error [])
        (fun _ => .ok []) (fun builder => (.ok builder : Except Unit _)) (fun _ => false)
        compilesToRelay relayOnly (some defaultDir) = .ok state := ⟨_, rfl⟩
  refine ⟨state, hbuild, (never_without_a_script hbuild ?_ rfl).2.2⟩
  intro contents hmem _
  obtain rfl : contents = defaultDir := by simpa [reloadFirst] using hmem
  have hcomponents : components "default.rn".toList = ["default.rn".toList] := by decide
  intro script hscript
  rw [show script = "default.rn".toList from List.mem_singleton.mp hscript, hcomponents]
  exact .inl ⟨rfl, by decide⟩

end RedfishProxy.Shipped
