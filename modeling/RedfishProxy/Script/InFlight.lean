import RedfishProxy.Lib.Threads
import RedfishProxy.Script.Credentials
import RedfishProxy.Script.Relay
import RedfishProxy.Script.Shelf
import RedfishProxy.Script.Traffic

/-!
# Requests to the BMC, of many callers

Whatever scripts an operator writes: any number of requests in service, each with
a script that makes any calls of the `bmc` module and does anything with the
answers, taken on in any order, while the BMC answers anything.

Main result:
* `sent_for_its_caller`: what goes out goes to the target, and shows the
  credentials of the caller it goes out for, and of no other.
-/

namespace RedfishProxy.Script

open Lib Http

/-- A script, as far as it goes through the `bmc` module: its next call, and how
it goes on with the answer. -/
abbrev Program (V : Type) := Dialogue (Call V) (fun _ => Except Fault (Answer V)) Unit

section Program

variable {ν V σ : Type} (host : Host ν V σ) (ctx : RequestCtx)

/-- A call that fails is an error the script goes on from, or does not. -/
def runProgram : Program V → Action σ Unit
  | .done _ => pure ()
  | .ask call next => do
    let answer ← attempt (runCall host ctx call)
    runProgram (next answer)

variable {host ctx}

/-- **Whatever a script does**, it sends the inbound request, or requests that
`dispatch` made for it. -/
def Sends.program : ∀ program : Program V,
    Sends host (AnyIssued ctx) .anytime .anytime (runProgram host ctx program)
  | .done _ => .pure ()
  | .ask call next => Sends.andThen (Told.attempt (Sends.runCall call)) fun answer =>
    Sends.program (next answer)

end Program

/-- A request, and the script that serves it. -/
structure Caller (V : Type) where
  parts : Parts
  body : List UInt8
  program : Program V

/-- What may go out for a caller. -/
structure ForCaller (parseHost : Text → Option Text) (set : Char → Bool) (ctx : RequestCtx)
    (outbound : Outbound) : Prop where
  /-- It goes to the target, unless it relays a request for something else than a path. -/
  authority : (outbound = forward ctx → ctx.parts.uri.path.head? = some '/') → ∃ url,
    Whatwg.parse parseHost set outbound.url = some url ∧ url.credentials = none ∧
      url.host = ctx.target.ip.display ∧ url.portOrDefault = ctx.target.port
  credentials : ∀ n : HeaderName, isRedacted n.name = true →
    ∀ value ∈ outbound.headers.getAll n, value ∈ ctx.parts.headers.getAll n
  perHop : ∀ n : HeaderName, isHopByHop n.name = true → outbound.headers.getAll n = []

def Caller.ctx {V : Type} (target : SocketAddrV4) (base : Base) (caller : Caller V) : RequestCtx :=
  requestCtx target base caller.parts caller.body

section Callers

variable {ν V σ : Type} {host : Host ν V σ} {target : SocketAddrV4} {base : Base}
  {parts : Parts} {body : List UInt8}

/-- A URL of the target, and a path. -/
theorem authority_urlTo (host : Host ν V σ) (set : Char → Bool) (target : SocketAddrV4)
    {rest : Text} (hrest : rest.head? = some '/') : ∃ url,
      Whatwg.parse host.parseHost set (urlTo target rest) = some url ∧ url.credentials = none ∧
        url.host = target.ip.display ∧ url.portOrDefault = target.port := by
  obtain ⟨back, rfl⟩ := List.head?_eq_some_iff.mp hrest
  have hback : ∀ c, (Whatwg.cleanTail ('/' :: back)).head? = some c →
      Whatwg.endsAuthority c = true := by
    intro c hc
    rw [Whatwg.cleanTail_cons (by decide)] at hc
    obtain rfl : '/' = c := by simpa using hc
    decide
  refine ⟨_, Whatwg.parse_relayed set target (host.parseHost_display target.ip) hback,
    rfl, rfl, ?_⟩
  show (if target.port.val = 443 then none else some target.port.val).getD 443 = target.port.val
  split
  · rename_i hdefault
    rw [hdefault]
    rfl
  · rfl

theorem isEndToEnd_of_isHopByHop {n : HeaderName} (h : isHopByHop n.name = true) :
    isEndToEnd n = false := by simp [isEndToEnd, h]

theorem forCaller_forward (host : Host ν V σ) (target : SocketAddrV4) (base : Base)
    (parts : Parts) (body : List UInt8) :
    ForCaller host.parseHost host.pathSet (requestCtx target base parts body)
      (forward (requestCtx target base parts body)) := by
  refine ⟨fun hrelayed => authority_urlTo host _ target ?_, fun n _ value hvalue => ?_,
    fun n hhop => ?_⟩
  · have hpath : parts.uri.path.head? = some '/' := hrelayed rfl
    show (pathAndQuery parts.uri).head? = some '/'
    unfold pathAndQuery
    split
    · rw [List.head?_append, hpath]
      rfl
    · exact hpath
  · rw [getAll_forward] at hvalue
    split at hvalue
    · exact hvalue
    · cases hvalue
  · rw [getAll_forward, if_neg (by simp [isEndToEnd_of_isHopByHop hhop])]

theorem forCaller_dispatch {request : BmcRequest} {outbound : Outbound}
    (h : dispatch (requestCtx target base parts body) request = .ok outbound) :
    ForCaller host.parseHost host.pathSet (requestCtx target base parts body) outbound := by
  obtain ⟨⟨rest, hpath, _⟩, _, hurl, hheaders, _⟩ := dispatch_eq_ok h
  refine ⟨fun _ => ?_, fun n hn value hvalue => ?_, fun n hhop => ?_⟩
  · rw [hurl]
    exact authority_urlTo host _ target (by rw [hpath]; rfl)
  · rw [hheaders, getAll_dispatchHeaders_of_forbidden (scriptMaySet_of_isRedacted hn)] at hvalue
    change value ∈ (((relayHeaders parts.headers).getAll n).getLast?).toList at hvalue
    have hrelayed : value ∈ (relayHeaders parts.headers).getAll n :=
      List.mem_of_getLast? (by simpa using hvalue)
    rw [getAll_relayHeaders] at hrelayed
    split at hrelayed
    · exact hrelayed
    · cases hrelayed
  · have hframing : isFraming n = true := by simp [isFraming, hhop]
    rw [hheaders, getAll_dispatchHeaders_of_forbidden (scriptMaySet_of_isFraming hframing)]
    show (((relayHeaders parts.headers).getAll n).getLast?).toList = []
    rw [getAll_relayHeaders_of_isFraming hframing]
    rfl

theorem forCaller_issued {outbound : Outbound}
    (h : Issued (requestCtx target base parts body) outbound) :
    ForCaller host.parseHost host.pathSet (requestCtx target base parts body) outbound := by
  rcases h with rfl | ⟨request, hsent⟩
  · exact forCaller_forward host target base parts body
  · exact forCaller_dispatch hsent

variable (host target base) in
/-- The requests a caller's script sends, one by one. -/
def Caller.opening (caller : Caller V) :
    Dialogue Outbound (fun _ => Except TransportError Reply) Unit :=
  ((Sends.program caller.program : Sends host (AnyIssued (caller.ctx target base)) .anytime
    .anytime _).dialogue none).bind fun _ => .done ()

theorem keeps_caller (caller : Caller V) : (caller.opening host target base).Keeps
    (AnyIssued (caller.ctx target base)) (fun _ _ => True) .anytime :=
  (Told.keeps _ none Anytime.anytime le_rfl).bind fun _ _ _ => True.intro

/-- Callers have nothing in common but the BMC. -/
def nothingShared : Sharing (fun _ : Outbound => Except TransportError Reply) Unit := fun _ => none

/-- **What goes out for a caller is the caller's.** In any run of any scripts,
every request to the BMC goes to the target, shows no credential but those its
own caller sent, and no header that is for one hop. -/
theorem sent_for_its_caller
    {events : List (ThreadEvent (fun _ : Outbound => Except TransportError Reply) (Caller V))}
    {pool : Threads (fun _ : Outbound => Except TransportError Reply) (Caller V) Unit Unit}
    (h : Visits (Threads.step nothingShared (Caller.opening host target base))
      (Threads.empty ()) events pool) {id : Nat} {outbound : Outbound}
    (hasked : (id, outbound) ∈ pool.asked) :
    ∃ thread, pool.threads[id]? = some thread ∧
      ForCaller host.parseHost host.pathSet (thread.request.ctx target base) outbound := by
  have hlt : id < pool.threads.length := Threads.arrived h _ hasked
  obtain ⟨_, hwalks, _⟩ := Threads.keeps_protocol keeps_caller h id _
    (List.getElem?_eq_getElem hlt)
  have hmem : outbound ∈ pool.askedBy id :=
    List.mem_map.mpr ⟨(id, outbound), List.mem_filter.mpr ⟨hasked, by simp⟩, rfl⟩
  obtain ⟨_, _, hissued⟩ := hwalks.rule_of_mem outbound hmem
  exact ⟨_, List.getElem?_eq_getElem hlt, forCaller_issued hissued⟩

end Callers

/-- A caller with a token, whose script fetches, and one without, whose script relays. -/
def tokenCaller : Caller (Json Nat) where
  parts := { inboundParts with
    headers := HeaderMap.new.append ⟨"x-auth-token".toList, by decide⟩ ⟨[116, 49], by decide⟩ }
  body := []
  program := .ask (.get "/redfish/v1/Systems".toList) fun _ => .done ()

def plainCaller : Caller (Json Nat) where
  parts := inboundParts
  body := []
  program := .ask .forward fun _ => .done ()

def callerEvents :
    List (ThreadEvent (fun _ : Outbound => Except TransportError Reply) (Caller (Json Nat))) :=
  [.arrive tokenCaller, .arrive plainCaller, .go 1 fun _ => .ok (shelfReply none),
    .go 0 fun _ => .ok (shelfReply none)]

theorem sent_for_its_caller_two :
    ∃ (pool : Threads (fun _ : Outbound => Except TransportError Reply) (Caller (Json Nat)) Unit
        Unit) (relayed fetched : Outbound),
      pool.asked = [(1, relayed), (0, fetched)] ∧
      ∃ thread, pool.threads[0]? = some thread ∧
        ForCaller (shelfHost bmcTarget []).parseHost (shelfHost bmcTarget []).pathSet
          (thread.request.ctx bmcTarget proxyBase) fetched :=
  ⟨after (Threads.step nothingShared (Caller.opening (shelfHost bmcTarget []) bmcTarget
      proxyBase)) (Threads.empty ()) callerEvents, _, _, rfl,
    sent_for_its_caller (Visits.last callerEvents) (List.mem_cons_of_mem _ List.mem_cons_self)⟩

end RedfishProxy.Script
