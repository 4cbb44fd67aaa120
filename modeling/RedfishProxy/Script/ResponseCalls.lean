import RedfishProxy.Http.Idempotent
import RedfishProxy.Script.Relay
import RedfishProxy.Script.Response

/-!
# Calls on a response a script builds

`with_header` and `rewrite`, in any order, on a response of the `resp` module,
said header by header: what the texts of a response come to as header values,
what `rewrite` leaves of them, and what is sent of them. `rewrite` keeps what can
be read, and leaves no `Content-Type` beside the response's own.
-/

namespace RedfishProxy.Script

open Lib Http

/-- A response of the `resp` module, with its arguments. -/
inductive Started (V : Type) where
  | json (status : Int) (value : V)
  | text (status : Int) (body : Text)
  | code (status : Int)

/-- A call on it. -/
inductive ResponseCall where
  | withHeader (name value : Text)
  | rewrite
  deriving DecidableEq

section Calls

variable {ν V σ : Type} (host : Host ν V σ) (ctx : RequestCtx)

/-- A negative status is none, as 0 is. -/
def Started.response : Started V → ScriptResponse
  | json status value => jsonResponse host status.toNat value
  | text status body => textResponse status.toNat body
  | code status => statusResponse status.toNat

namespace ResponseCall

def apply (response : ScriptResponse) : ResponseCall → Except Fault ScriptResponse
  | withHeader name value => .ok (response.withHeader name value)
  | rewrite => response.rewrite host ctx

/-- The calls of a chain, each on what the one before it returned. -/
def run (response : ScriptResponse) (calls : List ResponseCall) : Except Fault ScriptResponse :=
  calls.foldlM (apply host ctx) response

end ResponseCall

end Calls

/-! ## The values of one header -/

namespace ScriptResponse

/-- The values the texts of a response give the name. -/
def values (response : ScriptResponse) (n : HeaderName) : List HeaderValue :=
  response.headers.filterMap (scriptValue n)

/-- The map `rewrite` goes through. -/
def headerMap (response : ScriptResponse) : HeaderMap :=
  response.headers.foldl appendHeader (typeHeader response.contentType)

end ScriptResponse

theorem getAll_typeHeader (type : Text) (n : HeaderName) : (typeHeader type).getAll n =
    if n = CONTENT_TYPE then (HeaderValue.fromStr type).toList else [] := by
  unfold typeHeader
  cases HeaderValue.fromStr type with
  | none => simp
  | some value =>
      rw [HeaderMap.getAll_insert, HeaderMap.getAll_new]
      simp [eq_comm]

theorem getAll_appendHeader (m : HeaderMap) (header : Text × Text) (n : HeaderName) :
    (appendHeader m header).getAll n = m.getAll n ++ (scriptValue n header).toList := by
  unfold appendHeader scriptValue
  cases HeaderName.fromBytes header.1 with
  | none => simp
  | some name =>
      cases HeaderValue.fromStr header.2 with
      | none => simp
      | some value => by_cases h : name = n <;> simp [h]

/-- A name that is dropped from a script's response. -/
def isDropped (name : HeaderName) : Bool :=
  scriptForbiddenHeaders.contains name.name || isHopByHop name.name

theorem getAll_finishHeader (m : HeaderMap) (header : Text × Text) (n : HeaderName) :
    (finishHeader m header).getAll n =
      m.getAll n ++ if isDropped n then [] else (scriptValue n header).toList := by
  unfold finishHeader scriptValue
  cases HeaderName.fromBytes header.1 with
  | none => simp
  | some name =>
      by_cases hname : name = n
      · subst hname
        show (if isDropped name then _ else _ : HeaderMap).getAll name = _
        cases isDropped name with
        | true => simp
        | false => cases HeaderValue.fromStr header.2 <;> simp
      · dsimp only
        split
        · simp [hname]
        · cases HeaderValue.fromStr header.2 <;> simp [hname]

namespace ScriptResponse

variable {response : ScriptResponse} {n : HeaderName}

theorem getAll_headerMap (response : ScriptResponse) (n : HeaderName) :
    response.headerMap.getAll n =
      (typeHeader response.contentType).getAll n ++ response.values n :=
  HeaderMap.getAll_foldl (fun m header => getAll_appendHeader m header n) _ _

/-- What is sent for a name besides the length. -/
theorem getAll_finish (hn : n ≠ CONTENT_LENGTH) :
    (finishScriptResponse response).headers.getAll n =
      (typeHeader response.contentType).getAll n ++
        if isDropped n then [] else response.values n := by
  have hturn : ∀ m header, (finishHeader m header).getAll n = m.getAll n ++
      (if isDropped n then none else scriptValue n header).toList := by
    intro m header
    rw [getAll_finishHeader]
    split <;> rfl
  show (HeaderMap.insert _ CONTENT_LENGTH _).getAll n = _
  rw [HeaderMap.getAll_insert, if_neg (Ne.symm hn), HeaderMap.getAll_foldl hturn]
  split
  · simp
  · rfl

theorem getAll_finish_length (response : ScriptResponse) :
    (finishScriptResponse response).headers.getAll CONTENT_LENGTH =
      [lengthValue response.body] := by
  show (HeaderMap.insert _ CONTENT_LENGTH _).getAll CONTENT_LENGTH = _
  rw [HeaderMap.getAll_insert, if_pos rfl]

end ScriptResponse

/-! ## What `rewrite` leaves -/

section Rewrite

variable {ν V σ : Type} {host : Host ν V σ} {ctx : RequestCtx} {response response' : ScriptResponse}
  {n : HeaderName}

/-- What the swap does to a value of the name. -/
def swapValue (ctx : RequestCtx) (n : HeaderName) (value : HeaderValue) : HeaderValue :=
  if isUrlHeader n.name then rewriteHeaderValue ctx.target ctx.base.asStr n value else value

theorem isReadable_swapValue (ctx : RequestCtx) (n : HeaderName) (value : HeaderValue) :
    isReadable (swapValue ctx n value) = isReadable value := by
  unfold swapValue isReadable
  split
  · cases hread : value.toStr with
    | none => rw [rewriteHeaderValue_of_unreadable ctx.target ctx.base.asStr n hread, hread]
    | some text =>
        rw [show ctx.base.asStr = ctx.base.urlString.asStr from rfl,
          rewriteHeaderValue_of_toStr ctx.target ctx.base.urlString n hread]
        rfl
  · rfl

theorem getAll_rewrittenMap (hn : n ≠ CONTENT_TYPE) :
    (rewriteHeaders ctx.target ctx.base.asStr response.headerMap).getAll n =
      (response.values n).map (swapValue ctx n) := by
  rw [getAll_rewriteHeaders, ScriptResponse.getAll_headerMap, getAll_typeHeader, if_neg hn,
    List.nil_append]
  unfold swapValue
  split <;> simp

/-- **What `rewrite` leaves of the values of a name**: what it made of them, as
far as it is readable, and no second `Content-Type`. -/
theorem values_rewrite (h : response.rewrite host ctx = .ok response') (n : HeaderName) :
    response'.values n = if n = CONTENT_TYPE then []
      else ((response.values n).map (swapValue ctx n)).filter isReadable := by
  obtain ⟨body, rfl⟩ := rewrite_eq_ok h
  show (List.filterMap _ (List.filter _ _)).filterMap (scriptValue n) = _
  rw [List.filterMap_filter]
  have htexts := filterMap_scriptValue_texts (fun name => name ≠ CONTENT_TYPE)
    (rewriteHeaders ctx.target ctx.base.asStr response.headerMap) n
  refine htexts.trans ?_
  by_cases hn : n = CONTENT_TYPE
  · simp [hn]
  · rw [if_pos (decide_eq_true hn), if_neg hn, getAll_rewrittenMap hn]

/-- The readable ones of what it makes are what it makes of the readable ones. -/
theorem filter_map_swapValue (ctx : RequestCtx) (n : HeaderName) (values : List HeaderValue) :
    (values.map (swapValue ctx n)).filter isReadable =
      (values.filter isReadable).map (swapValue ctx n) := by
  rw [List.filter_map]
  congr 2
  funext value
  exact isReadable_swapValue ctx n value

theorem contentType_rewrite (h : response.rewrite host ctx = .ok response') :
    response'.contentType = response.contentType := by
  obtain ⟨body, rfl⟩ := rewrite_eq_ok h
  rfl

end Rewrite

end RedfishProxy.Script
