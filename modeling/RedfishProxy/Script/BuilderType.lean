import RedfishProxy.Script.PerHop

/-!
# The type of a built body

`content_type` sets the type of a request. The three calls that set its body
give it one where it has none, and so does `dispatch`; a request seeded from the
inbound one starts with the declared type. A type that is no header value leaves
the `Content-Type` headers of the seed.

Main result:
* `content_type_sent`: what a chain of builder calls sends for `Content-Type`.
-/

namespace RedfishProxy.Script

open Lib Http

/-- Where a built request starts. -/
inductive Seed where
  | request (method path : Text)
  | inbound

namespace Seed

variable (ctx : RequestCtx)

def start : Seed → Except Fault BmcRequest
  | request method path => newRequest method path
  | inbound => .ok (Script.inbound ctx)

/-- The type it starts with. -/
def declared : Seed → Option Text
  | request .. => none
  | inbound => contentType ctx.parts.headers

/-- The `Content-Type` values among the headers it starts with. -/
def carried : Seed → List HeaderValue
  | request .. => []
  | inbound => (ctx.parts.headers.getAll CONTENT_TYPE).filter isReadable

variable {ctx} {seed : Seed} {first : BmcRequest}

theorem contentType_of_start (h : seed.start ctx = .ok first) :
    first.contentType = seed.declared ctx := by
  cases seed with
  | request method path =>
      obtain ⟨_, _, h⟩ := bind_ok h
      obtain rfl := Except.ok.inj h
      rfl
  | inbound =>
      obtain rfl := Except.ok.inj h
      rfl

theorem filterMap_of_start (h : seed.start ctx = .ok first) :
    first.headers.filterMap (scriptValue CONTENT_TYPE) = seed.carried ctx := by
  cases seed with
  | request method path =>
      obtain ⟨_, _, h⟩ := bind_ok h
      obtain rfl := Except.ok.inj h
      rfl
  | inbound =>
      obtain rfl := Except.ok.inj h
      exact filterMap_inbound (by decide)

end Seed

section Chain

variable {V : Type} (ctx : RequestCtx) (seed : Seed) (calls : List (Builder V))

/-- The arguments of its `content_type` calls. -/
def explicitTypes : List Text := puts Builder.assign calls

/-- The types its bodies imply. -/
def impliedTypes : List Text := fills Builder.assign calls

/-- The type a chain asks for: the last it sets, else the declared one of its
seed, else the one its last body implies. -/
def wantedType : Text :=
  ((explicitTypes calls).getLast?.or
    ((seed.declared ctx).or (impliedTypes calls).getLast?)).getD "application/json".toList

/-- The type is settled without the bodies, or the first body implies what the
last one does. -/
def OneType : Prop :=
  explicitTypes calls = [] → seed.declared ctx = none →
    (impliedTypes calls).head? = (impliedTypes calls).getLast?

/-- Its headers leave `Content-Type` alone. -/
def LeavesTypeHeader : Prop :=
  ∀ name value, .header name value ∈ calls → name.eqIgnoreAsciiCase CONTENT_TYPE.name = false

variable {ctx seed calls}

/-- The type the chain ends with is the one it asks for. -/
theorem settled_eq_wantedType (h : OneType ctx seed calls) :
    (settled Builder.assign (seed.declared ctx) calls).getD "application/json".toList =
      wantedType ctx seed calls := by
  rw [settled_eq, wantedType, explicitTypes, impliedTypes]
  cases hlast : (puts Builder.assign calls).getLast? with
  | some value => rfl
  | none =>
      cases hdeclared : seed.declared ctx with
      | some value => rfl
      | none =>
          have hone := h (List.getLast?_eq_none_iff.mp hlast) hdeclared
          rw [impliedTypes] at hone
          rw [hone]

theorem fromStr_declared {text : Text} (h : seed.declared ctx = some text) :
    ∃ value, HeaderValue.fromStr text = some value := by
  cases seed with
  | request method path => cases h
  | inbound =>
      obtain ⟨value, _, hread⟩ := Option.bind_eq_some_iff.mp h
      exact ⟨value, HeaderValue.fromStr_of_toStr hread⟩

theorem fromStr_implied {text : Text} (h : text ∈ impliedTypes calls) :
    ∃ value, HeaderValue.fromStr text = some value := by
  obtain ⟨call, _, hfill⟩ := List.mem_filterMap.mp h
  have hvalues : ∀ t ∈ ["application/json".toList, "text/plain; charset=utf-8".toList,
      "application/octet-stream".toList], (HeaderValue.fromStr t).isSome = true := by decide
  refine Option.isSome_iff_exists.mp (hvalues text ?_)
  cases call <;> cases hfill <;> simp

/-- Only an argument of `content_type` is no header value. -/
theorem fromStr_wantedType (h : explicitTypes calls = []) :
    ∃ value, HeaderValue.fromStr (wantedType ctx seed calls) = some value := by
  rw [wantedType, h, List.getLast?_nil, Option.none_or]
  cases hdeclared : seed.declared ctx with
  | some text => exact fromStr_declared hdeclared
  | none =>
      cases hlast : (impliedTypes calls).getLast? with
      | some text => exact fromStr_implied (List.mem_of_getLast? hlast)
      | none => exact Option.isSome_iff_exists.mp (by decide)

theorem filterMap_added (h : LeavesTypeHeader calls) :
    (calls.flatMap Builder.added).filterMap (scriptValue CONTENT_TYPE) = [] := by
  rw [List.filterMap_eq_nil_iff]
  intro header hheader
  obtain ⟨call, hcall, hadded⟩ := List.mem_flatMap.mp hheader
  cases call with
  | header name value =>
      obtain rfl := List.mem_singleton.mp hadded
      exact scriptValue_eq_none (h name value hcall)
  | _ => cases hadded

end Chain

/-! ## What is sent -/

/-- `dispatch` puts the type over what the headers hold for it. -/
theorem getAll_dispatched_type {target : SocketAddrV4} {base : Http.Base} {parts : Parts}
    {body : List UInt8} {request : BmcRequest} {outbound : Outbound}
    (hbody : request.body.isSome = true)
    (h : dispatch (requestCtx target base parts body) request = .ok outbound) :
    outbound.headers.getAll CONTENT_TYPE =
      match HeaderValue.fromStr (request.contentType.getD "application/json".toList) with
      | some value => [value]
      | none => request.headers.filterMap (scriptValue CONTENT_TYPE) := by
  obtain ⟨_, _, _, hheaders, _⟩ := dispatch_eq_ok h
  rw [hheaders, dispatchHeaders, insertContentType, if_pos hbody]
  cases HeaderValue.fromStr (request.contentType.getD "application/json".toList) with
  | some value =>
      dsimp only
      rw [HeaderMap.getAll_insert, if_pos rfl]
  | none =>
      have hrelayed :
          (requestCtx target base parts body).relayHeaders.getAll CONTENT_TYPE = [] := by
        show (relayHeaders parts.headers).getAll CONTENT_TYPE = []
        rw [getAll_relayHeaders, if_neg (by decide)]
      have hset : scriptMaySet CONTENT_TYPE.name = true := by decide
      dsimp only
      rw [HeaderMap.getAll_insertFrom, hrelayed, List.getLast?_nil]
      dsimp only
      rw [getAll_scriptHeaders, if_pos hset]

/-- **What a chain of builder calls that ends with a body sends for
`Content-Type`**: the type it asks for, and exactly that. A type that is no
header value, which only `content_type` can ask for, leaves what the seed
carries. -/
theorem content_type_sent {ν V σ : Type} (host : Host ν V σ) (target : SocketAddrV4)
    (base : Http.Base) (parts : Parts) (body : List UInt8) (seed : Seed)
    (calls : List (Builder V)) {first request : BmcRequest} {outbound : Outbound}
    (hstart : seed.start (requestCtx target base parts body) = .ok first)
    (hcalls : LeavesTypeHeader calls)
    (hone : OneType (requestCtx target base parts body) seed calls)
    (hbuild : Builder.build host first calls = .ok request)
    (hbody : request.body.isSome = true)
    (hsend : dispatch (requestCtx target base parts body) request = .ok outbound) :
    (outbound.headers.getAll CONTENT_TYPE =
      match HeaderValue.fromStr (wantedType (requestCtx target base parts body) seed calls) with
      | some value => [value]
      | none => seed.carried (requestCtx target base parts body)) ∧
    (explicitTypes calls = [] → ∃ value, HeaderValue.fromStr
      (wantedType (requestCtx target base parts body) seed calls) = some value) := by
  obtain ⟨hheaders, htype⟩ := Builder.of_build hbuild
  have hvalues : request.headers.filterMap (scriptValue CONTENT_TYPE) =
      seed.carried (requestCtx target base parts body) := by
    rw [hheaders, List.filterMap_append, filterMap_added hcalls, List.append_nil,
      Seed.filterMap_of_start hstart]
  refine ⟨?_, fromStr_wantedType⟩
  rw [getAll_dispatched_type hbody hsend, htype, Seed.contentType_of_start hstart,
    settled_eq_wantedType hone, hvalues]

/-! ## Four chains -/

/-- A body, and a type after it. -/
def typedChain (value : Text) : List (Builder Unit) := [.text ['x'], .contentType value]

def toSensors : Seed := .request "POST".toList "/redfish/v1/Sensors".toList

def sensors : BmcRequest where
  method := "POST".toList
  path := "/redfish/v1/Sensors".toList
  body := none
  contentType := none
  headers := []

theorem content_type_sent_csv :
    ∃ request outbound, toSensors.start compressedCtx = .ok sensors ∧
      Builder.build RuneHost.unreachableHost sensors (typedChain "text/csv".toList) = .ok request ∧
      dispatch compressedCtx request = .ok outbound ∧
      (outbound.headers.getAll CONTENT_TYPE =
        match HeaderValue.fromStr
            (wantedType compressedCtx toSensors (typedChain "text/csv".toList)) with
        | some value => [value]
        | none => toSensors.carried compressedCtx) ∧
      (explicitTypes (typedChain "text/csv".toList) = [] → ∃ value, HeaderValue.fromStr
        (wantedType compressedCtx toSensors (typedChain "text/csv".toList)) = some value) := by
  have hcalls : LeavesTypeHeader (typedChain "text/csv".toList) := by
    intro name value hcall
    rcases List.mem_pair.mp hcall with h | h <;> cases h
  have hone : OneType compressedCtx toSensors (typedChain "text/csv".toList) := fun h => nomatch h
  exact ⟨_, _, rfl, rfl, rfl, content_type_sent RuneHost.unreachableHost bmcTarget proxyBase
    getCompressed [] toSensors (typedChain "text/csv".toList) rfl hcalls hone rfl rfl rfl⟩

/-- A `POST` that declares XML. -/
def postXml : Parts where
  method := .POST
  uri := { path := "/redfish/v1/Systems".toList, query := none }
  headers := HeaderMap.new.append CONTENT_TYPE ⟨"text/xml".toList.map fun c =>
    UInt8.ofNat c.toNat, by decide⟩

/-- A body that declared nothing gets a type; a text put in place of XML is sent
as XML; and a type that is no header value is not sent. -/
theorem content_type_sent_otherwise :
    (let ctx := requestCtx bmcTarget proxyBase postWithCookie [123, 125]
      ∃ outbound, dispatch ctx (inbound ctx) = .ok outbound ∧
        contentType ctx.parts.headers = none ∧ outbound.headers.getAll CONTENT_TYPE ≠ []) ∧
    (let ctx := requestCtx bmcTarget proxyBase postXml [60]
      ∃ request outbound,
        Builder.build RuneHost.unreachableHost (inbound ctx) [.text ['x']] = .ok request ∧
          dispatch ctx request = .ok outbound ∧
          (outbound.headers.getAll CONTENT_TYPE).map HeaderValue.toStr =
            [some "text/xml".toList]) ∧
    ∃ request outbound,
      Builder.build RuneHost.unreachableHost sensors (typedChain ['\n']) = .ok request ∧
        dispatch compressedCtx request = .ok outbound ∧
          outbound.headers.getAll CONTENT_TYPE = [] := by
  refine ⟨?_, ?_, ?_⟩
  · exact ⟨_, dispatch_inbound ⟨"redfish/v1/Systems".toList, rfl, by decide⟩, rfl, by decide⟩
  · exact ⟨_, _, rfl, rfl, by decide⟩
  · exact ⟨_, _, rfl, rfl, by decide⟩

end RedfishProxy.Script
