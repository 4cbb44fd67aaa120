import RedfishProxy.Script.Bmc

/-!
# Relaying the inbound request, both ways

`forward_with(inbound())` sends what `forward()` does, up to what a script may
hold: the seed keeps readable values of the headers a script may set, `dispatch`
puts a fixed set of credentials back, and a body always gets a content type.
`dispatch_inbound_relays` says what every header comes to.
-/

namespace RedfishProxy.Script

open Lib Http

/-- The value is text a script can hold. -/
def isReadable (value : HeaderValue) : Bool := value.toStr.isSome

def cookies : List Text := ["cookie".toList, "set-cookie".toList]

/-- The type a body is sent with: the declared one, when it can be read. -/
def bodyContentType (ctx : RequestCtx) : Option HeaderValue :=
  match ctx.parts.headers.get CONTENT_TYPE with
  | some value =>
    if isReadable value then some value else HeaderValue.fromStr "application/json".toList
  | none => HeaderValue.fromStr "application/json".toList

/-- How `out` relays the inbound request of `ctx`, next to `forward`. -/
structure Relays (ctx : RequestCtx) (out : Outbound) : Prop where
  method : out.method = (forward ctx).method
  url : out.url = (forward ctx).url
  bytes : out.bytes = (forward ctx).bytes
  /-- Cookies are not among what is relayed on a script's behalf. -/
  cookies : ∀ n : HeaderName, n.name ∈ Script.cookies → out.headers.getAll n = []
  /-- A relayed header goes through as it is, readable or not. -/
  relayed : ∀ n : HeaderName, n.name ∈ Script.relayed →
    ((forward ctx).headers.getAll n).length ≤ 1 →
      out.headers.getAll n = (forward ctx).headers.getAll n
  contentType : ctx.body ≠ [] → out.headers.getAll CONTENT_TYPE = (bodyContentType ctx).toList
  /-- Any other header keeps the values that are text, in order. -/
  others : ∀ n : HeaderName, n.name ∉ Script.cookies → n.name ∉ Script.relayed →
    n.name ≠ "content-length".toList → n ≠ ACCEPT_ENCODING → (n = CONTENT_TYPE → ctx.body = []) →
      out.headers.getAll n = ((forward ctx).headers.getAll n).filter isReadable

section Seed

variable {ctx : RequestCtx} {n : HeaderName}

theorem getAll_forward (ctx : RequestCtx) (n : HeaderName) : (forward ctx).headers.getAll n =
    if isEndToEnd n then ctx.parts.headers.getAll n else [] := by
  show (copyEndToEnd ctx.parts.headers .new).getAll n = _
  simp

/-- What is left of a header once it went through the texts a script holds. -/
theorem filterMap_scriptValue_texts (keep : HeaderName → Bool) (headers : HeaderMap)
    (n : HeaderName) : ((headers.entries.filterMap fun e =>
      if keep e.1 then e.2.toStr.map fun text => (e.1.name, text) else none).filterMap
        (scriptValue n)) =
      if keep n then (headers.getAll n).filter isReadable else [] := by
  unfold HeaderMap.getAll
  induction headers.entries with
  | nil => simp
  | cons e entries ih =>
      by_cases he : e.1 = n
      · cases hkeep : keep n with
        | false => simpa [he, hkeep] using ih
        | true =>
            rw [hkeep, if_pos rfl] at ih
            cases htext : e.2.toStr with
            | none => simp [he, hkeep, htext, isReadable, ih]
            | some text =>
                have hvalue := HeaderValue.fromStr_of_toStr htext
                simp [he, hkeep, htext, isReadable, scriptValue, hvalue, ih]
      · cases hkeep : keep e.1 with
        | false => simp [he, hkeep, ih]
        | true =>
            cases htext : e.2.toStr with
            | none => simp [he, hkeep, htext, ih]
            | some text => simp [he, hkeep, htext, scriptValue, ih]

/-- What the seed holds of a header a script may set. -/
theorem filterMap_inbound (hn : scriptMaySet n.name = true) :
    (inbound ctx).headers.filterMap (scriptValue n) =
      (ctx.parts.headers.getAll n).filter isReadable := by
  refine (filterMap_scriptValue_texts (fun name => scriptMaySet name.name) _ n).trans ?_
  rw [if_pos hn]

/-- On any header, a script may set what is copied end to end, but for
credentials and the length; it may also set `Accept-Encoding`. -/
theorem scriptMaySet_eq_isEndToEnd (hcookies : n.name ∉ cookies) (hrelayed : n.name ∉ relayed)
    (hlength : n.name ≠ "content-length".toList) (haccept : n ≠ ACCEPT_ENCODING) :
    scriptMaySet n.name = isEndToEnd n := by
  have hhost : n.name.eqIgnoreAsciiCase "host".toList = (n == HOST) := by
    unfold Text.eqIgnoreAsciiCase
    rw [n.map_toLower_name, Bool.eq_iff_iff, beq_iff_eq, beq_iff_eq]
    constructor
    · intro h
      exact HeaderName.ext h
    · intro h
      rw [h]
      rfl
  have hcl : n.name.eqIgnoreAsciiCase "content-length".toList = false := by
    unfold Text.eqIgnoreAsciiCase
    rw [n.map_toLower_name, beq_eq_false_iff_ne]
    exact hlength
  unfold scriptMaySet isEndToEnd
  rw [hhost, hcl]
  cases hhop : isHopByHop n.name with
  | true => simp
  | false =>
      have hred : isRedacted n.name = false := by
        by_contra hred
        rw [Bool.not_eq_false, isRedacted_iff] at hred
        have hsplit : ∀ t ∈ redacted, t ∈ cookies ∨ t ∈ relayed ∨ t ∈ hopByHop := by decide
        rcases hsplit _ hred with h | h | h
        · exact hcookies h
        · exact hrelayed h
        · rw [(isHopByHop_iff n).mpr h] at hhop
          cases hhop
      simp [hred, haccept]

theorem fromStr_bodyContentType (ctx : RequestCtx) :
    HeaderValue.fromStr ((contentType ctx.parts.headers).getD "application/json".toList) =
      bodyContentType ctx := by
  unfold bodyContentType contentType
  cases ctx.parts.headers.get CONTENT_TYPE with
  | none => rfl
  | some value =>
      show HeaderValue.fromStr (value.toStr.getD _) = _
      cases htext : value.toStr with
      | none => simp [isReadable, htext]
      | some text => simp [isReadable, htext, HeaderValue.fromStr_of_toStr htext]

end Seed

/-- A body always gets a type. -/
theorem bodyContentType_isSome (ctx : RequestCtx) : (bodyContentType ctx).isSome = true := by
  unfold bodyContentType
  have hjson : (HeaderValue.fromStr "application/json".toList).isSome = true := by decide
  cases ctx.parts.headers.get CONTENT_TYPE with
  | none => exact hjson
  | some value =>
      show (if isReadable value then some value else _).isSome = true
      split
      · rfl
      · exact hjson

theorem pathAndQuery_eq_cons {uri : Uri}
    (h : ∃ rest, uri.path = '/' :: rest ∧ rest.head? ≠ some '/') :
    ∃ rest, pathAndQuery uri = '/' :: rest ∧ rest.head? ≠ some '/' := by
  obtain ⟨rest, hpath, hrest⟩ := h
  unfold pathAndQuery
  cases uri.query with
  | none => exact ⟨rest, hpath, hrest⟩
  | some query =>
      refine ⟨rest ++ '?' :: query, by simp [hpath], ?_⟩
      cases rest with
      | nil => simp
      | cons c rest => simpa using hrest

theorem isEndToEnd_of_mem_relayed {n : HeaderName} (hn : n.name ∈ relayed) :
    isEndToEnd n = true := by
  have hnot : ∀ t ∈ relayed, t ∉ hopByHop ∧ t ≠ HOST.name ∧ t ≠ ACCEPT_ENCODING.name := by decide
  obtain ⟨hhop, hhost, haccept⟩ := hnot _ hn
  have h1 : isHopByHop n.name = false := by
    by_contra h
    exact hhop ((isHopByHop_iff n).mp (Bool.not_eq_false _ ▸ h))
  have h2 : n ≠ HOST := fun h => hhost (by rw [h])
  have h3 : n ≠ ACCEPT_ENCODING := fun h => haccept (by rw [h])
  simp [isEndToEnd, h1, h2, h3]

/-! ## What the seeded request sends -/

section Sent

variable {ctx : RequestCtx}

theorem inbound_body (ctx : RequestCtx) :
    (inbound ctx).body = if ctx.body = [] then none else some ctx.body := by
  unfold inbound
  cases ctx.body <;> simp

/-- What is handed to the client for the seed. -/
def seeded (ctx : RequestCtx) : Outbound where
  method := ctx.parts.method
  url := urlTo ctx.target (pathAndQuery ctx.parts.uri)
  headers := dispatchHeaders ctx (inbound ctx)
  body := (inbound ctx).body

theorem dispatch_inbound (hpath : ∃ rest, ctx.parts.uri.path = '/' :: rest ∧ rest.head? ≠ some '/') :
    dispatch ctx (inbound ctx) = .ok (seeded ctx) := by
  obtain ⟨rest, hurl, hrest⟩ := pathAndQuery_eq_cons hpath
  have habsolute : requireAbsolute (inbound ctx).path = .ok () :=
    requireAbsolute_ok hurl hrest
  have hmethod : Method.parse (inbound ctx).method = some ctx.parts.method :=
    Method.parse_name ctx.parts.method
  unfold dispatch
  rw [habsolute, hmethod]
  rfl

theorem seeded_bytes (ctx : RequestCtx) : (seeded ctx).bytes = ctx.body := by
  show (inbound ctx).body.getD [] = ctx.body
  rw [inbound_body]
  split
  · rename_i hempty
    exact hempty.symm
  · rfl

variable (hctx : ctx.relayHeaders = relayHeaders ctx.parts.headers) {n : HeaderName}
include hctx

/-- A header that is not put back keeps what the seed holds of it. -/
theorem getAll_seeded (hn : n = CONTENT_TYPE → ctx.body = []) (hnot : n.name ∉ relayed) :
    (seeded ctx).headers.getAll n =
      if scriptMaySet n.name then (ctx.parts.headers.getAll n).filter isReadable else [] := by
  have hbody : n = CONTENT_TYPE → (inbound ctx).body = none := by
    intro h
    rw [inbound_body, if_pos (hn h)]
  show (dispatchHeaders ctx (inbound ctx)).getAll n = _
  rw [getAll_dispatchHeaders ctx hbody, hctx, getAll_relayHeaders, if_neg hnot]
  show (if scriptMaySet n.name then _ else _) = _
  split
  · rename_i hset
    exact filterMap_inbound hset
  · rfl

theorem getAll_seeded_cookies (hn : n.name ∈ cookies) : (seeded ctx).headers.getAll n = [] := by
  have hlist : ∀ t ∈ cookies, t ∉ relayed ∧ t ∈ redacted ∧ t ≠ CONTENT_TYPE.name := by decide
  obtain ⟨hnot, hred, hne⟩ := hlist _ hn
  have hset : scriptMaySet n.name = false := by
    simp [scriptMaySet, (isRedacted_iff n).mpr hred]
  rw [getAll_seeded hctx (fun h => absurd (by rw [h]) hne) hnot, hset]
  rfl

/-- `insert` keeps the last of the values of a relayed header, which is no loss
when there is one at most. -/
theorem getAll_seeded_relayed (hn : n.name ∈ relayed)
    (hone : (ctx.parts.headers.getAll n).length ≤ 1) :
    (seeded ctx).headers.getAll n = ctx.parts.headers.getAll n := by
  have hne : n ≠ CONTENT_TYPE := by
    intro h
    subst h
    exact absurd hn (by decide)
  show (dispatchHeaders ctx (inbound ctx)).getAll n = _
  rw [getAll_dispatchHeaders ctx fun h => absurd h hne, hctx, getAll_relayHeaders, if_pos hn]
  cases hvalues : ctx.parts.headers.getAll n with
  | nil =>
      show (if scriptMaySet n.name then _ else _) = _
      split
      · rename_i hset
        rw [filterMap_inbound hset, hvalues]
        rfl
      · rfl
  | cons value rest =>
      rw [hvalues] at hone
      obtain rfl : rest = [] := by
        cases rest with
        | nil => rfl
        | cons value' rest => simp at hone
      rfl

omit hctx in
theorem getAll_seeded_contentType (hbody : ctx.body ≠ []) :
    (seeded ctx).headers.getAll CONTENT_TYPE = (bodyContentType ctx).toList := by
  have htype := fromStr_bodyContentType ctx
  obtain ⟨value, hvalue⟩ := Option.isSome_iff_exists.mp (bodyContentType_isSome ctx)
  rw [hvalue] at htype ⊢
  have hseed : (inbound ctx).contentType = contentType ctx.parts.headers := rfl
  show (insertContentType (inbound ctx) _).getAll CONTENT_TYPE = [value]
  unfold insertContentType
  rw [inbound_body, if_neg hbody, hseed, htype]
  show HeaderMap.getAll (HeaderMap.insert _ CONTENT_TYPE value) CONTENT_TYPE = [value]
  rw [HeaderMap.getAll_insert, if_pos rfl]

/-- The seeded request relays what its context holds. -/
theorem seeded_relays : Relays ctx (seeded ctx) := by
  refine ⟨rfl, rfl, seeded_bytes ctx, ?_, ?_, getAll_seeded_contentType, ?_⟩
  · intro n hn
    exact getAll_seeded_cookies hctx hn
  · intro n hn hone
    rw [getAll_forward, isEndToEnd_of_mem_relayed hn] at hone ⊢
    exact getAll_seeded_relayed hctx hn hone
  · intro n hcookies hnot hlength haccept hn
    rw [getAll_seeded hctx hn hnot, getAll_forward,
      scriptMaySet_eq_isEndToEnd hcookies hnot hlength haccept]
    split <;> rfl

end Sent

/-- **What `forward_with(inbound())` sends next to `forward()`**, for every
inbound request whose path begins with one slash. -/
theorem dispatch_inbound_relays (target : SocketAddrV4) (base : Base)
    (parts : Parts) (body : List UInt8)
    (hpath : ∃ rest, parts.uri.path = '/' :: rest ∧ rest.head? ≠ some '/') :
    ∃ out, dispatch (requestCtx target base parts body)
        (inbound (requestCtx target base parts body)) = .ok out ∧
      Relays (requestCtx target base parts body) out :=
  ⟨_, dispatch_inbound hpath, seeded_relays rfl⟩

def COOKIE : HeaderName := ⟨"cookie".toList, by decide⟩

/-- A `POST` with a session cookie, and a body without a type. -/
def postWithCookie : Parts where
  method := .POST
  uri := { path := "/redfish/v1/Systems".toList, query := none }
  headers := HeaderMap.new.append COOKIE ⟨[115, 61, 49], by decide⟩

theorem dispatch_inbound_relays_post :
    (∃ rest, postWithCookie.uri.path = '/' :: rest ∧ rest.head? ≠ some '/') ∧
      ∃ out, dispatch (requestCtx bmcTarget proxyBase postWithCookie [123, 125])
          (inbound (requestCtx bmcTarget proxyBase postWithCookie [123, 125])) = .ok out ∧
        Relays (requestCtx bmcTarget proxyBase postWithCookie [123, 125]) out := by
  have hpath : ∃ rest, postWithCookie.uri.path = '/' :: rest ∧ rest.head? ≠ some '/' :=
    ⟨"redfish/v1/Systems".toList, rfl, by decide⟩
  exact ⟨hpath, dispatch_inbound_relays bmcTarget proxyBase postWithCookie
    [123, 125] hpath⟩

/-- `forward` sends the cookie and no type, the seeded request a type and no
cookie. -/
theorem inbound_differs_from_forward :
    let ctx := requestCtx bmcTarget proxyBase postWithCookie [123, 125]
    ∃ out, dispatch ctx (inbound ctx) = .ok out ∧
      out.headers.getAll COOKIE ≠ (forward ctx).headers.getAll COOKIE ∧
      out.headers.getAll CONTENT_TYPE ≠ (forward ctx).headers.getAll CONTENT_TYPE := by
  intro ctx
  refine ⟨seeded ctx, dispatch_inbound ⟨"redfish/v1/Systems".toList, rfl, by decide⟩, ?_, ?_⟩
  · decide
  · decide

end RedfishProxy.Script
