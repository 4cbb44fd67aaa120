import RedfishProxy.Lib.LastWrite
import RedfishProxy.RuneHost.Failure
import RedfishProxy.Script.Relay

/-!
# What a request to the BMC inherits per hop

`forward()` copies the inbound headers end to end. A script's request starts from
`inbound()` and goes through a chain of builder calls, and `dispatch` filters what
comes out of it. No hop-by-hop header and no `Host` gets through either way.
`Accept-Encoding` is on the list of `copy_end_to_end` and not on the one of
`script_may_set`, so the seed hands it on wherever a script can read it.

Main results:
* `perHopFree_forward`: `forward()` inherits nothing per hop.
* `inherits_nothing_iff`: what a chain from `inbound()` inherits.
-/

namespace RedfishProxy.Script

open Lib Http

/-! ## Builder calls -/

/-- A builder call on a request, with its arguments. -/
inductive Builder (V : Type) where
  | path (value : Text)
  | json (value : V)
  | text (body : Text)
  | base64 (body : Text)
  | contentType (value : Text)
  | header (name value : Text)

namespace Builder

variable {ν V σ : Type} (host : Host ν V σ)

def apply (request : BmcRequest) : Builder V → Except Fault BmcRequest
  | .path value => request.setPath value
  | .json value => request.json host value
  | .text body => .ok (request.text body)
  | .base64 body => request.base64 host body
  | .contentType value => .ok (request.setContentType value)
  | .header name value => request.header name value

/-- The calls of a chain, each on what the one before it returned. -/
def build (request : BmcRequest) (calls : List (Builder V)) : Except Fault BmcRequest :=
  calls.foldlM (apply host) request

/-- The call asks for no encoding of its own. -/
def AsksNoEncoding : Builder V → Prop
  | .header name _ => name.eqIgnoreAsciiCase ACCEPT_ENCODING.name = false
  | _ => True

/-- The header the call adds. -/
def added : Builder V → List (Text × Text)
  | .header name value => [(name, value)]
  | _ => []

/-- What the call does to the type of the body. -/
def assign : Builder V → Assign Text
  | .json _ => .fill "application/json".toList
  | .text _ => .fill "text/plain; charset=utf-8".toList
  | .base64 _ => .fill "application/octet-stream".toList
  | .contentType value => .put value
  | _ => .keep

section Built

variable {host : Host ν V σ} {request request' : BmcRequest}

/-- **What one call leaves** of the headers and the type. -/
theorem of_apply {call : Builder V} (h : call.apply host request = .ok request') :
    request'.headers = request.headers ++ call.added ∧
      request'.contentType = call.assign.apply request.contentType := by
  have hnone := (List.append_nil request.headers).symm
  cases call with
  | path value =>
      obtain ⟨_, _, h⟩ := bind_ok h
      obtain rfl := Except.ok.inj h
      exact ⟨hnone, rfl⟩
  | json value =>
      obtain ⟨_, _, h⟩ := bind_ok h
      obtain rfl := Except.ok.inj h
      exact ⟨hnone, rfl⟩
  | text body =>
      obtain rfl := Except.ok.inj h
      exact ⟨hnone, rfl⟩
  | base64 body =>
      obtain ⟨_, _, h⟩ := bind_ok h
      obtain rfl := Except.ok.inj h
      exact ⟨hnone, rfl⟩
  | contentType value =>
      obtain rfl := Except.ok.inj h
      exact ⟨hnone, rfl⟩
  | header name value =>
      have h : request.header name value = .ok request' := h
      unfold BmcRequest.header at h
      split at h
      · obtain rfl := Except.ok.inj h
        exact ⟨rfl, rfl⟩
      · cases h

/-- What a chain leaves of them. -/
theorem of_build {calls : List (Builder V)} (h : build host request calls = .ok request') :
    request'.headers = request.headers ++ calls.flatMap added ∧
      request'.contentType = settled assign request.contentType calls := by
  induction calls generalizing request with
  | nil =>
      obtain rfl := Except.ok.inj h
      exact ⟨(List.append_nil _).symm, rfl⟩
  | cons call calls ih =>
      rw [build, List.foldlM_cons] at h
      obtain ⟨next, hcall, hrest⟩ := bind_ok h
      obtain ⟨hheaders, htype⟩ := of_apply hcall
      obtain ⟨hheaders', htype'⟩ := ih hrest
      refine ⟨?_, ?_⟩
      · rw [hheaders', hheaders, List.append_assoc]
        rfl
      · rw [htype', htype]
        rfl

end Built

end Builder

/-- A request with headers added to it, none of them `Accept-Encoding`. -/
def Adds (request request' : BmcRequest) : Prop :=
  ∃ added, request'.headers = request.headers ++ added ∧
    ∀ header ∈ added, header.1.eqIgnoreAsciiCase ACCEPT_ENCODING.name = false

namespace Adds

variable {first second : BmcRequest}

/-- What was added gives `Accept-Encoding` no value. -/
theorem filterMap_scriptValue (h : Adds first second) :
    second.headers.filterMap (scriptValue ACCEPT_ENCODING) =
      first.headers.filterMap (scriptValue ACCEPT_ENCODING) := by
  obtain ⟨added, heq, hadded⟩ := h
  have hnone : added.filterMap (scriptValue ACCEPT_ENCODING) = [] := by
    rw [List.filterMap_eq_nil_iff]
    exact fun header hheader => scriptValue_eq_none (hadded header hheader)
  rw [heq, List.filterMap_append, hnone, List.append_nil]

end Adds

section Chain

variable {ν V σ : Type} {host : Host ν V σ} {request request' : BmcRequest}

theorem adds_of_build {calls : List (Builder V)} (hcalls : ∀ call ∈ calls, call.AsksNoEncoding)
    (h : Builder.build host request calls = .ok request') : Adds request request' := by
  refine ⟨calls.flatMap Builder.added, (Builder.of_build h).1, fun header hheader => ?_⟩
  obtain ⟨call, hcall, hadded⟩ := List.mem_flatMap.mp hheader
  cases call with
  | header name value =>
      obtain rfl := List.mem_singleton.mp hadded
      exact hcalls _ hcall
  | _ => cases hadded

end Chain

/-! ## What the client is handed -/

/-- No header that is the proxy's own business with the other side. -/
def PerHopFree (headers : HeaderMap) : Prop :=
  ∀ n : HeaderName, isHopByHop n.name = true ∨ n = HOST ∨ n = ACCEPT_ENCODING →
    headers.getAll n = []

theorem perHopFree_copyEndToEnd (source : HeaderMap) : PerHopFree (copyEndToEnd source .new) := by
  intro n hn
  have hnot : isEndToEnd n = false := by
    unfold isEndToEnd
    rcases hn with hn | rfl | rfl
    · simp [hn]
    · simp
    · simp
  simp [hnot]

/-- **`forward()` inherits nothing per hop.** -/
theorem perHopFree_forward (ctx : RequestCtx) : PerHopFree (forward ctx).headers :=
  perHopFree_copyEndToEnd _

section Dispatched

variable {target : SocketAddrV4} {base : Http.Base} {parts : Parts} {body : List UInt8}
  {request : BmcRequest} {outbound : Outbound} {n : HeaderName}

/-- A header that is neither relayed nor a content type is the script's own. -/
theorem getAll_dispatched (h : dispatch (requestCtx target base parts body) request = .ok outbound)
    (hnot : n.name ∉ relayed) (hne : n ≠ CONTENT_TYPE) : outbound.headers.getAll n =
      if scriptMaySet n.name then request.headers.filterMap (scriptValue n) else [] := by
  obtain ⟨_, _, _, hheaders, _⟩ := dispatch_eq_ok h
  have hrelayed : (requestCtx target base parts body).relayHeaders.getAll n = [] := by
    show (relayHeaders parts.headers).getAll n = []
    rw [getAll_relayHeaders, if_neg hnot]
  rw [hheaders, getAll_dispatchHeaders _ fun heq => absurd heq hne, hrelayed]
  rfl

/-- What a script may not set is not sent, whatever the request holds. -/
theorem getAll_dispatched_hop
    (h : dispatch (requestCtx target base parts body) request = .ok outbound)
    (hn : isHopByHop n.name = true ∨ n = HOST) : outbound.headers.getAll n = [] := by
  have hlists : ∀ t ∈ hopByHop, t ∉ relayed ∧ t ≠ CONTENT_TYPE.name := by decide
  have hown : n.name ∉ relayed ∧ n ≠ CONTENT_TYPE := by
    rcases hn with hn | rfl
    · obtain ⟨hnot, hne⟩ := hlists _ ((isHopByHop_iff n).mp hn)
      exact ⟨hnot, fun heq => hne (by rw [heq])⟩
    · decide
  have hset : scriptMaySet n.name = false := by
    unfold scriptMaySet
    rcases hn with hn | rfl
    · simp [hn]
    · decide
  rw [getAll_dispatched h hown.1 hown.2, hset]
  rfl

/-- Of the encodings a client accepts, a chain from the seed sends the readable
ones. -/
theorem getAll_dispatched_accept_encoding
    (hadds : Adds (inbound (requestCtx target base parts body)) request)
    (h : dispatch (requestCtx target base parts body) request = .ok outbound) :
    outbound.headers.getAll ACCEPT_ENCODING =
      (parts.headers.getAll ACCEPT_ENCODING).filter isReadable := by
  have hset : scriptMaySet ACCEPT_ENCODING.name = true := by decide
  rw [getAll_dispatched h (by decide) (by decide), if_pos hset, hadds.filterMap_scriptValue,
    filterMap_inbound hset]
  rfl

end Dispatched

/-- **What a chain of builder calls from `inbound()` inherits per hop**: nothing
exactly when no `Accept-Encoding` of the client can be read as text. -/
theorem inherits_nothing_iff {ν V σ : Type} (host : Host ν V σ) (target : SocketAddrV4)
    (base : Http.Base) (parts : Parts) (body : List UInt8) (calls : List (Builder V))
    {request : BmcRequest} {outbound : Outbound}
    (hcalls : ∀ call ∈ calls, call.AsksNoEncoding)
    (hbuild : Builder.build host (inbound (requestCtx target base parts body)) calls = .ok request)
    (hsend : dispatch (requestCtx target base parts body) request = .ok outbound) :
    (PerHopFree outbound.headers ∧
        PerHopFree (forward (requestCtx target base parts body)).headers) ↔
      ∀ value ∈ parts.headers.getAll ACCEPT_ENCODING, value.toStr = none := by
  have hsent := getAll_dispatched_accept_encoding (adds_of_build hcalls hbuild) hsend
  have hread : (parts.headers.getAll ACCEPT_ENCODING).filter isReadable = [] ↔
      ∀ value ∈ parts.headers.getAll ACCEPT_ENCODING, value.toStr = none := by
    simp [List.filter_eq_nil_iff, isReadable]
  rw [← hread, ← hsent]
  constructor
  · intro h
    exact h.1 _ (.inr (.inr rfl))
  · intro h
    refine ⟨?_, perHopFree_forward _⟩
    intro n hn
    rcases hn with hn | hn | rfl
    · exact getAll_dispatched_hop hsend (.inl hn)
    · exact getAll_dispatched_hop hsend (.inr hn)
    · exact h

/-! ## A client that asks for compression -/

/-- `GET /redfish/v1` with `Accept-Encoding: gzip`. -/
def getCompressed : Parts where
  method := .GET
  uri := { path := "/redfish/v1".toList, query := none }
  headers := HeaderMap.new.append ACCEPT_ENCODING ⟨[103, 122, 105, 112], by decide⟩

def compressedCtx : RequestCtx := requestCtx bmcTarget proxyBase getCompressed []

theorem dispatch_compressed : dispatch compressedCtx (inbound compressedCtx) =
    .ok (seeded compressedCtx) :=
  dispatch_inbound ⟨"redfish/v1".toList, rfl, by decide⟩

/-- A body and a header of the script. -/
def runChain : List (Builder Unit) := [.text ['x'], .header "x-run".toList ['1']]

def patched : BmcRequest :=
  { (inbound compressedCtx).text ['x'] with
    headers := (inbound compressedCtx).headers ++ [("x-run".toList, ['1'])] }

theorem build_runChain : Builder.build RuneHost.unreachableHost (inbound compressedCtx) runChain =
    .ok patched := by
  have hset : scriptMaySet "x-run".toList = true := by decide
  have hheader : ((inbound compressedCtx).text ['x']).header "x-run".toList ['1'] =
      .ok patched := by
    unfold BmcRequest.header
    rw [if_pos hset]
    rfl
  show ((inbound compressedCtx).text ['x']).header "x-run".toList ['1'] >>= pure = .ok patched
  rw [hheader]
  rfl

theorem inherits_nothing_iff_compressed :
    (∀ call ∈ runChain, call.AsksNoEncoding) ∧
      Builder.build RuneHost.unreachableHost (inbound compressedCtx) runChain = .ok patched ∧
      ∃ outbound, dispatch compressedCtx patched = .ok outbound ∧
        ((PerHopFree outbound.headers ∧ PerHopFree (forward compressedCtx).headers) ↔
          ∀ value ∈ getCompressed.headers.getAll ACCEPT_ENCODING, value.toStr = none) := by
  have hcalls : ∀ call ∈ runChain, call.AsksNoEncoding := by
    intro call hcall
    rcases List.mem_pair.mp hcall with rfl | rfl
    · exact trivial
    · show Text.eqIgnoreAsciiCase "x-run".toList ACCEPT_ENCODING.name = false
      decide
  have hsend : ∃ outbound, dispatch compressedCtx patched = .ok outbound := ⟨_, rfl⟩
  obtain ⟨outbound, hsend⟩ := hsend
  exact ⟨hcalls, build_runChain, outbound, hsend, inherits_nothing_iff RuneHost.unreachableHost
    bmcTarget proxyBase getCompressed [] runChain hcalls build_runChain hsend⟩

/-- Sent as it was seeded, the request invites the BMC to compress. -/
theorem seed_asks_for_compression :
    ∃ outbound, Builder.build RuneHost.unreachableHost (inbound compressedCtx) [] =
        .ok (inbound compressedCtx) ∧
      dispatch compressedCtx (inbound compressedCtx) = .ok outbound ∧
      ¬ PerHopFree outbound.headers := by
  refine ⟨seeded compressedCtx, rfl, dispatch_compressed, ?_⟩
  intro h
  have hnone := h ACCEPT_ENCODING (.inr (.inr rfl))
  exact absurd hnone (by decide)

end RedfishProxy.Script
