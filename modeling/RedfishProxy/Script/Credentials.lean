import RedfishProxy.Lib.Whatwg
import RedfishProxy.Script.Bmc

/-!
# A script chooses neither the credentials nor the authority

Two requests a script builds for the same inbound request may differ in
everything it can set. `dispatch_pinned` compares what they put on the wire: the
credential headers are the same, they come from the relayed headers, no framing
header is there at all, and both URLs parse to the configured target.
-/

namespace RedfishProxy.Script

open Lib Http

/-- The headers that frame a message or name its host. -/
def isFraming (n : HeaderName) : Bool :=
  isHopByHop n.name || n.name == "host".toList || n.name == "content-length".toList

/-- What a script cannot change about the requests it sends. -/
structure Pinned (parseHost : Text → Option Text) (set : Char → Bool) (ctx : RequestCtx)
    (out out' : Outbound) : Prop where
  /-- A credential header has the same values whatever the script built. -/
  credentials : ∀ n : HeaderName, isRedacted n.name = true →
    out.headers.getAll n = out'.headers.getAll n
  /-- And it has them from the inbound request. -/
  relayed : ∀ n : HeaderName, isRedacted n.name = true →
    ∀ value ∈ out.headers.getAll n, value ∈ ctx.relayHeaders.getAll n
  framing : ∀ n : HeaderName, isFraming n = true → out.headers.getAll n = []
  /-- The request goes to the configured target and nowhere else. -/
  authority : ∃ url, Whatwg.parse parseHost set out.url = some url ∧
    url.credentials = none ∧ url.host = ctx.target.ip.display ∧
    url.portOrDefault = ctx.target.port

/-- Nothing a script sets survives under a name it may not set. -/
theorem getAll_dispatchHeaders_of_forbidden {n : HeaderName} (hn : scriptMaySet n.name = false)
    (ctx : RequestCtx) (request : BmcRequest) : (dispatchHeaders ctx request).getAll n =
      (ctx.relayHeaders.getAll n).getLast?.toList := by
  have hne : n ≠ CONTENT_TYPE := by
    intro h
    subst h
    exact absurd hn (by decide)
  rw [getAll_dispatchHeaders ctx fun h => absurd h hne, hn]
  cases (ctx.relayHeaders.getAll n).getLast? <;> rfl

theorem scriptMaySet_of_isRedacted {n : HeaderName} (h : isRedacted n.name = true) :
    scriptMaySet n.name = false := by simp [scriptMaySet, h]

theorem eqIgnoreAsciiCase_self (t : Text) : t.eqIgnoreAsciiCase t = true := by
  simp [Text.eqIgnoreAsciiCase]

theorem scriptMaySet_of_isFraming {n : HeaderName} (h : isFraming n = true) :
    scriptMaySet n.name = false := by
  simp only [isFraming, Bool.or_eq_true, beq_iff_eq] at h
  rcases h with (h | h) | h
  · simp [scriptMaySet, h]
  · simp [scriptMaySet, h, eqIgnoreAsciiCase_self]
  · simp [scriptMaySet, h, eqIgnoreAsciiCase_self]

/-- No framing header is relayed. -/
theorem getAll_relayHeaders_of_isFraming {n : HeaderName} (h : isFraming n = true)
    (headers : HeaderMap) : (relayHeaders headers).getAll n = [] := by
  rw [getAll_relayHeaders, if_neg]
  intro hmem
  have hnot : ∀ t ∈ relayed, t ∉ hopByHop ∧ t ≠ "host".toList ∧ t ≠ "content-length".toList := by
    decide
  obtain ⟨hhop, hhost, hlength⟩ := hnot _ hmem
  simp only [isFraming, Bool.or_eq_true, beq_iff_eq, isHopByHop_iff] at h
  rcases h with (h | h) | h
  · exact hhop h
  · exact hhost h
  · exact hlength h

/-- **A script chooses neither the credentials nor the authority.** -/
theorem dispatch_pinned {parseHost : Text → Option Text} (set : Char → Bool)
    {target : SocketAddrV4} (base : Base) (parts : Parts)
    (body : List UInt8) (hhost : parseHost target.ip.display = some target.ip.display)
    {request request' : BmcRequest} {out out' : Outbound}
    (hsent : dispatch (requestCtx target base parts body) request = .ok out)
    (hsent' : dispatch (requestCtx target base parts body) request' = .ok out') :
    Pinned parseHost set (requestCtx target base parts body) out out' := by
  obtain ⟨⟨rest, hpath, _⟩, _, hurl, hheaders, _⟩ := dispatch_eq_ok hsent
  obtain ⟨_, _, _, hheaders', _⟩ := dispatch_eq_ok hsent'
  refine ⟨?_, ?_, ?_, ?_⟩
  · intro n hn
    rw [hheaders, hheaders',
      getAll_dispatchHeaders_of_forbidden (scriptMaySet_of_isRedacted hn),
      getAll_dispatchHeaders_of_forbidden (scriptMaySet_of_isRedacted hn)]
  · intro n hn value hvalue
    rw [hheaders, getAll_dispatchHeaders_of_forbidden (scriptMaySet_of_isRedacted hn)] at hvalue
    exact List.mem_of_getLast? (by simpa using hvalue)
  · intro n hn
    rw [hheaders, getAll_dispatchHeaders_of_forbidden (scriptMaySet_of_isFraming hn)]
    show (((relayHeaders parts.headers).getAll n).getLast?).toList = []
    rw [getAll_relayHeaders_of_isFraming hn]
    rfl
  · have hback : ∀ c, (Whatwg.cleanTail ('/' :: rest)).head? = some c →
        Whatwg.endsAuthority c = true := by
      intro c hc
      rw [Whatwg.cleanTail_cons (by decide)] at hc
      obtain rfl : '/' = c := by simpa using hc
      decide
    have hparse := Whatwg.parse_relayed set target hhost hback
    rw [← hpath, show "https://".toList ++ target.display ++ request.path = out.url from
      hurl.symm] at hparse
    refine ⟨_, hparse, rfl, rfl, ?_⟩
    show (if target.port.val = 443 then none else some target.port.val).getD 443 = target.port.val
    split
    · rename_i hdefault
      rw [hdefault]
      rfl
    · rfl

/-- A forged `Authorization` and a second request without headers. -/
def forgedRequest : BmcRequest where
  method := "GET".toList
  path := "/redfish/v1".toList
  body := none
  contentType := none
  headers := [("AUTHORIZATION".toList, "Basic Zm9yZ2Vk".toList)]

def plainRequest : BmcRequest := { forgedRequest with headers := [] }

def inboundParts : Parts where
  method := .GET
  uri := { path := "/redfish/v1".toList, query := none }
  headers := .new

/-- The forged value goes nowhere. -/
theorem dispatch_pinned_forged :
    let ctx := requestCtx bmcTarget proxyBase inboundParts []
    ∃ out out', dispatch ctx forgedRequest = .ok out ∧
      dispatch ctx plainRequest = .ok out' ∧
      Pinned some (fun _ => false) ctx out out' := by
  intro ctx
  have hforged : ∃ out, dispatch ctx forgedRequest = .ok out := ⟨_, rfl⟩
  have hplain : ∃ out, dispatch ctx plainRequest = .ok out := ⟨_, rfl⟩
  obtain ⟨out, hout⟩ := hforged
  obtain ⟨out', hout'⟩ := hplain
  exact ⟨out, out', hout, hout', dispatch_pinned (fun _ => false) proxyBase
    inboundParts [] rfl hout hout'⟩

end RedfishProxy.Script
