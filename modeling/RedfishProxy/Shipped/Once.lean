import RedfishProxy.Shipped.Requests

/-!
# How often a request acts

Nothing is tried again but the two BIOS documents, which the BMC may have under a
second spelling. So however requests are mixed, and whatever the BMC answers or
fails to, what a caller sends once is not carried out twice.

Main result:
* `written_once`: how often a request acts on the BMC, and calls the store.
-/

namespace RedfishProxy.Shipped

open Lib Http Config Script RuneHost ScriptUtil

/-- A request to the BMC that is no fetch. -/
def Ask.acts {ν : Type} : Ask ν → Bool
  | .send outbound => outbound.method ≠ .GET
  | .call _ | .log _ => false

/-- A call of the store. -/
def Ask.calls {ν : Type} : Ask ν → Bool
  | .call _ => true
  | .send _ | .log _ => false

section Once

variable {ν σ : Type} {host : Rune ν σ} {app : Proxy.AppState} {scriptDir : Text}

theorem acts_of_allows {licence : Licence ν} {ctx : RequestCtx} {stage stage' : Stage}
    {question : Ask ν} (h : licence.Allows ctx stage question stage') :
    stage'.left.acts + (if question.acts then 1 else 0) ≤ stage.left.acts := by
  cases h with
  | opens left | calls _ calls acts | answers left => exact Nat.le_refl _
  | fetches _ hget left => simp [Ask.acts, hget]
  | acts _ calls acts =>
      show acts + _ ≤ acts + 1
      split <;> omega

theorem calls_of_allows {licence : Licence ν} {ctx : RequestCtx} {stage stage' : Stage}
    {question : Ask ν} (h : licence.Allows ctx stage question stage') :
    stage'.left.calls + (if question.calls then 1 else 0) ≤ stage.left.calls := by
  cases h <;> exact Nat.le_refl _

/-- The first stage is that of the script. -/
theorem firstStage_left {incoming : Incoming} {admitted : Admitted}
    (h : receive app incoming = .ok admitted) :
    (firstStage host app incoming).left = admitted.left host := by
  unfold firstStage
  rw [h]

variable {store : ScriptStore.Store (Json ν)} {pool : InService ν}

/-- **Nothing is carried out twice.** A request acts on the BMC as often as its
script may, and calls the store as often, however far it is and whatever the
others do. -/
theorem written_once (h : Reached host app scriptDir store pool) {id : Nat}
    {thread : Thread (@Ask.Answer ν) Incoming Response} (hthread : pool.threads[id]? = some thread)
    {admitted : Admitted} (hreceive : receive app thread.request = .ok admitted) :
    (pool.askedBy id).countP Ask.acts ≤ admitted.script.acts ∧
      (pool.askedBy id).countP Ask.calls ≤ admitted.script.storeCalls host admitted.req := by
  obtain ⟨stage, hwalks, _⟩ := follows h id thread hthread
  have hacts := hwalks.spent Ask.acts (fun stage => stage.left.acts)
    fun _ _ _ ⟨_, _, hallows⟩ => acts_of_allows hallows
  have hcalls := hwalks.spent Ask.calls (fun stage => stage.left.calls)
    fun _ _ _ ⟨_, _, hallows⟩ => calls_of_allows hallows
  rw [firstStage_left hreceive] at hacts hcalls
  exact ⟨(Nat.le_add_left ..).trans hacts, (Nat.le_add_left ..).trans hcalls⟩

end Once

/-- A reset of a system, up to its request to the BMC. -/
def systemReset : List (ServiceEvent Nat) :=
  [.arrive (incomingTo .oemSystemReset .POST
    "/redfish/v1/Systems/1/Actions/Oem/OemSystemExtensions.Reset".toList),
    .go 0 nobody, .go 0 nobody]

/-- The proxy at that point. -/
def systemResetPool : InService Nat :=
  after (serviceStep quietHost (appWith .oemSystemReset) []) (Threads.empty ScriptStore.new)
    systemReset

theorem written_once_reset :
    (systemResetPool.askedBy 0).countP Ask.acts = 1 ∧
      (systemResetPool.askedBy 0).countP Ask.acts ≤ ShippedScript.oemSystemReset.acts := by
  have hreached : Reached quietHost (appWith .oemSystemReset) [] ScriptStore.new systemResetPool :=
    ⟨systemReset, Visits.last _⟩
  obtain ⟨thread, hthread, hrequest⟩ : ∃ thread, systemResetPool.threads[0]? = some thread ∧
      thread.request = incomingTo .oemSystemReset .POST
        "/redfish/v1/Systems/1/Actions/Oem/OemSystemExtensions.Reset".toList := ⟨_, rfl, rfl⟩
  have hreceive := receive_appWith .oemSystemReset .POST
    "/redfish/v1/Systems/1/Actions/Oem/OemSystemExtensions.Reset".toList
  rw [← hrequest] at hreceive
  exact ⟨by decide, (written_once hreached hthread hreceive).1⟩

end RedfishProxy.Shipped
