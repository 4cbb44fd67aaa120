import RedfishProxy.RuneHost.Failure
import RedfishProxy.Script.Exchange
import RedfishProxy.Script.Response

/-!
# The length of a relayed HEAD

The answer to a `HEAD` says how long the body of a `GET` would be, and has none.
A reply that is not JSON is passed on with the length the BMC gave. A JSON reply
is read to its end, and the final step declares what was read: nothing.

Main result:
* `head_length_iff`: the length is the one the BMC gave exactly where the reply
  is not JSON or that length is 0.
-/

namespace RedfishProxy.Script

open Lib Http

section Relayed

variable {ν V σ : Type} (host : Host ν V σ) (ctx : RequestCtx)

/-- `rewrite`, so many times. -/
def rewriteTimes : Nat → Forwarded → Except Fault Forwarded
  | 0, forwarded => .ok forwarded
  | times + 1, forwarded => do rewriteTimes times (← forwarded.rewrite host ctx)

/-- What a handler answers that forwards the request, and rewrites the reply so
many times. -/
def relayRewritten (rewrites : Nat) : Action σ Response := do
  let forwarded ← forwarded host ctx
  return finishForwarded (← fromResult (rewriteTimes host ctx rewrites forwarded))

/-- The BMC answers the relayed request with the reply. The request is a `HEAD`,
so there is no body to read. -/
structure AnswersHead (world : World σ) (reply : Reply) : Prop where
  head : ctx.parts.method = .HEAD
  answered : (host.client (forward ctx) world.net).1 = .ok reply
  empty : reply.body = .ok []

/-- The answer has no length or the one the BMC gave, and has what it would have
had if the reply had been passed on unread. -/
structure LengthKept (reply : Reply) (answer : Response) : Prop where
  stated : answer.headers.getAll CONTENT_LENGTH = [] ∨
    answer.headers.getAll CONTENT_LENGTH = reply.headers.getAll CONTENT_LENGTH
  alike : answer.headers.getAll CONTENT_LENGTH =
    (finishForwarded {
      status := reply.status
      headers := copyEndToEnd reply.headers .new
      body := .streaming reply }).headers.getAll CONTENT_LENGTH

variable {host ctx}

theorem getAll_length_copyEndToEnd (headers : HeaderMap) :
    (copyEndToEnd headers .new).getAll CONTENT_LENGTH = headers.getAll CONTENT_LENGTH := by
  rw [getAll_copyEndToEnd, HeaderMap.getAll_new, if_pos (by decide), List.nil_append]

theorem getAll_length_rewriteHeaders (target : SocketAddrV4) (base : Text) (headers : HeaderMap) :
    (rewriteHeaders target base headers).getAll CONTENT_LENGTH =
      headers.getAll CONTENT_LENGTH := by
  rw [getAll_rewriteHeaders, if_neg (by decide)]

/-- A `rewrite` leaves an empty body empty, an unread one unread, and the length. -/
theorem rewrite_of_bodiless {forwarded : Forwarded}
    (h : ∀ bytes, forwarded.body = .buffered bytes → bytes = []) :
    ∃ next, forwarded.rewrite host ctx = .ok next ∧ next.body = forwarded.body ∧
      next.headers.getAll CONTENT_LENGTH = forwarded.headers.getAll CONTENT_LENGTH := by
  refine ⟨{ forwarded with
    headers := rewriteHeaders ctx.target ctx.base.asStr forwarded.headers }, ?_, rfl,
    getAll_length_rewriteHeaders ..⟩
  unfold Forwarded.rewrite
  cases hbody : forwarded.body with
  | streaming response => rfl
  | buffered bytes =>
      obtain rfl := h bytes hbody
      have hjson : ∀ type, rewriteJson host.fromSlice host.toVec ctx.target ctx.base.asStr type [] =
          .ok none := by
        intro type
        unfold rewriteJson
        split <;> rfl
      show (rewriteResponse _ _ _ _ _ _ >>= _ : Except Fault Forwarded) = _
      unfold rewriteResponse
      dsimp only
      rw [hjson]
      rfl

theorem rewriteTimes_of_bodiless {forwarded : Forwarded}
    (h : ∀ bytes, forwarded.body = .buffered bytes → bytes = []) (times : Nat) :
    ∃ last, rewriteTimes host ctx times forwarded = .ok last ∧ last.body = forwarded.body ∧
      last.headers.getAll CONTENT_LENGTH = forwarded.headers.getAll CONTENT_LENGTH := by
  induction times generalizing forwarded with
  | zero => exact ⟨forwarded, rfl, rfl, rfl⟩
  | succ times ih =>
      obtain ⟨next, hnext, hbody, hlength⟩ := rewrite_of_bodiless h
      have hempty : ∀ bytes, next.body = .buffered bytes → bytes = [] := by rwa [hbody]
      obtain ⟨last, hlast, hbody', hlength'⟩ := ih hempty
      refine ⟨last, ?_, hbody'.trans hbody, hlength'.trans hlength⟩
      rw [rewriteTimes, hnext]
      exact hlast

/-- What `bmc::forward` makes of such a reply. -/
def headForwarded (reply : Reply) : Forwarded where
  status := reply.status
  headers := copyEndToEnd reply.headers .new
  body := if isJson reply.headers then .buffered [] else .streaming reply

theorem bodiless_headForwarded (reply : Reply) :
    ∀ bytes, (headForwarded reply).body = .buffered bytes → bytes = [] := by
  intro bytes h
  unfold headForwarded at h
  dsimp only at h
  split at h
  · exact (ForwardedBody.buffered.inj h).symm
  · cases h

theorem intoForwarded_head {reply : Reply} (h : reply.body = .ok []) :
    intoForwarded reply = .ok (headForwarded reply) := by
  unfold intoForwarded headForwarded
  dsimp only
  rw [isJson_copyEndToEnd, h]
  cases isJson reply.headers <;> rfl

/-- What the answer to a `HEAD` declares. -/
theorem relayRewritten_head {world : World σ} {reply : Reply} (h : AnswersHead host ctx world reply)
    (rewrites : Nat) :
    ∃ answer, exec (relayRewritten host ctx rewrites) world =
        (.ok answer, world.after host (forward ctx)) ∧
      answer.headers.getAll CONTENT_LENGTH =
        if isJson reply.headers then [lengthValue []] else reply.headers.getAll CONTENT_LENGTH := by
  have hforwarded := exec_forwarded host ctx world
  rw [h.answered, forwardedFrom, intoForwarded_head h.empty] at hforwarded
  obtain ⟨forwarded', hrun, hbody, hlength⟩ :=
    rewriteTimes_of_bodiless (bodiless_headForwarded reply) rewrites
  refine ⟨finishForwarded forwarded', ?_, ?_⟩
  · unfold relayRewritten
    rw [exec_bind, hforwarded, thenExec_ok, exec_bind, exec_fromResult, hrun, thenExec_ok,
      exec_pure]
  · unfold finishForwarded
    rw [hbody]
    unfold headForwarded at hlength ⊢
    dsimp only at hlength ⊢
    rw [getAll_length_copyEndToEnd] at hlength
    cases isJson reply.headers with
    | true =>
        show (HeaderMap.insert _ _ _).getAll _ = _
        rw [HeaderMap.getAll_insert, if_pos rfl]
        rfl
    | false => exact hlength

/-- **A relayed HEAD states the length the BMC gave** exactly where the reply is
not JSON, or that length is 0. -/
theorem head_length_iff {world : World σ} {reply : Reply} (h : AnswersHead host ctx world reply)
    (rewrites : Nat) :
    ∃ answer, exec (relayRewritten host ctx rewrites) world =
        (.ok answer, world.after host (forward ctx)) ∧
      (LengthKept reply answer ↔
        (isJson reply.headers = true → reply.headers.getAll CONTENT_LENGTH = [lengthValue []])) := by
  obtain ⟨answer, hrun, hlength⟩ := relayRewritten_head h rewrites
  refine ⟨answer, hrun, ?_⟩
  have halike : LengthKept reply answer ↔
      answer.headers.getAll CONTENT_LENGTH = reply.headers.getAll CONTENT_LENGTH := by
    constructor
    · intro hkept
      exact hkept.alike.trans (getAll_length_copyEndToEnd reply.headers)
    · intro hsame
      exact ⟨.inr hsame, hsame.trans (getAll_length_copyEndToEnd reply.headers).symm⟩
  rw [halike, hlength]
  cases isJson reply.headers with
  | true => simp [eq_comm]
  | false => simp

end Relayed

/-! ## A JSON resource of 36 bytes -/

/-- The BMC gives the reply to every request. -/
def replyingHost (reply : Reply) : Host Nat Unit Unit :=
  { RuneHost.unreachableHost with client := fun _ net => (.ok reply, net) }

def headCtx : RequestCtx :=
  requestCtx bmcTarget proxyBase { RuneHost.getParts with method := .HEAD } []

def headReply : Reply where
  status := 200
  headers := (typeHeader "application/json".toList).append CONTENT_LENGTH
    (lengthValue (List.replicate 36 0))
  body := .ok []

theorem answersHead_headReply : AnswersHead (replyingHost headReply) headCtx ⟨none, ()⟩ headReply :=
  ⟨rfl, rfl, rfl⟩

theorem head_length_iff_json : ∃ answer,
    exec (relayRewritten (replyingHost headReply) headCtx 1) ⟨none, ()⟩ =
        (.ok answer, ⟨none, ()⟩) ∧
      (LengthKept headReply answer ↔ (isJson headReply.headers = true →
        headReply.headers.getAll CONTENT_LENGTH = [lengthValue []])) :=
  head_length_iff answersHead_headReply 1

/-- Its `HEAD` is answered with length 0. -/
theorem not_lengthKept_json : ∃ answer,
    exec (relayRewritten (replyingHost headReply) headCtx 1) ⟨none, ()⟩ =
        (.ok answer, ⟨none, ()⟩) ∧
      answer.headers.getAll CONTENT_LENGTH = [lengthValue []] ∧
      ¬ LengthKept headReply answer := by
  obtain ⟨answer, hrun, hlength⟩ := relayRewritten_head answersHead_headReply 1
  have hjson : isJson headReply.headers = true := by decide
  rw [if_pos hjson] at hlength
  refine ⟨answer, hrun, hlength, fun h => ?_⟩
  have hstated := h.alike
  rw [hlength] at hstated
  exact absurd hstated (by decide)

end RedfishProxy.Script
