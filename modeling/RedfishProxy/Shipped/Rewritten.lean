import Mathlib.Logic.Function.Iterate
import RedfishProxy.Http.Idempotent
import RedfishProxy.Lib.Run
import RedfishProxy.Shipped.Dressing

/-!
# No JSON reply past the rewriter

`forward` and `forward_with` classify a reply when it arrives, and `rewrite`
reads the type again when it is called. What a handler does in between (`buffer`,
`log`, another `rewrite`) keeps the type, so a value that is JSON is held, and is
rewritten from what it held first.

Main result: `json_is_rewritten`.
-/

namespace RedfishProxy.Shipped

open Lib Http Script RuneHost

/-- A method that consumes a `Forwarded` and gives one back. -/
inductive Step where
  | buffer
  /-- The record is all that `withBody` changes. -/
  | log (level : Text) (withBody : Bool)
  | rewrite
  deriving DecidableEq

section Steps

variable {ν V σ : Type} (host : Host ν V σ) (ctx : RequestCtx)

def Step.apply (forwarded : Forwarded) : Step → Except Fault Forwarded
  | .buffer => forwarded.buffer
  | .log level _ => forwarded.log level
  | .rewrite => forwarded.rewrite host ctx

/-- The methods one after the other. -/
def runSteps (first : Forwarded) (steps : List Step) : Except Fault Forwarded :=
  steps.foldlM (Step.apply host ctx) first

/-- What `forward` returned, or `forward_with` for some request, the BMC having
answered or not. -/
def Received (first : Forwarded) : Prop :=
  ∃ world world', exec (forwarded host ctx) world = (.ok first, world') ∨
    ∃ request, exec (sendForwarded host ctx request) world = (.ok first, world')

/-- JSON is held whole. -/
def Held (forwarded : Forwarded) : Prop :=
  isJson forwarded.headers = true → ∃ bytes, forwarded.body = .buffered bytes

end Steps

/-! ## One step -/

section OneStep

variable {ν V σ : Type} {host : Host ν V σ} {ctx : RequestCtx} {first next : Forwarded}

theorem held_of_buffered {bytes : List UInt8} (h : first.body = .buffered bytes) : Held first :=
  fun _ => ⟨bytes, h⟩

theorem held_intoForwarded {reply : Reply} (h : intoForwarded reply = .ok first) : Held first := by
  unfold intoForwarded at h
  dsimp only at h
  split at h
  · obtain ⟨bytes, _, h⟩ := bind_ok h
    rw [← Except.ok.inj h]
    exact held_of_buffered rfl
  · rename_i hjson
    rw [← Except.ok.inj h]
    intro hheaders
    exact absurd hheaders hjson

/-- The reply is classified as it arrives, and a failure is JSON that is held. -/
theorem held_received (h : Received host ctx first) : Held first := by
  obtain ⟨world, world', h | ⟨request, h⟩⟩ := h
  · rw [exec_forwarded] at h
    have h := congrArg Prod.fst h
    cases hanswer : (host.client (forward ctx) world.net).1 with
    | ok reply =>
        rw [hanswer] at h
        exact held_intoForwarded h
    | error error =>
        rw [hanswer] at h
        rw [← Except.ok.inj h]
        exact held_of_buffered rfl
  · cases hsend : dispatch ctx request with
    | error fault =>
        unfold sendForwarded at h
        rw [exec_bind, exec_dispatched_error host world hsend, thenExec_error] at h
        cases h
    | ok outbound =>
        rw [exec_sendForwarded host world hsend] at h
        have h := congrArg Prod.fst h
        obtain ⟨reply, _, h⟩ := bind_ok h
        exact held_intoForwarded h

theorem headers_rewrite (h : first.rewrite host ctx = .ok next) :
    next.headers = rewriteHeaders ctx.target ctx.base.asStr first.headers := by
  unfold Forwarded.rewrite at h
  split at h
  · obtain ⟨pair, hpair, h⟩ := bind_ok h
    obtain ⟨rewritten, _, hpair⟩ := bind_ok hpair
    rw [← Except.ok.inj h, ← Except.ok.inj hpair]
  · rw [← Except.ok.inj h]

theorem body_rewrite {bytes : List UInt8} (hbody : first.body = .buffered bytes)
    (h : first.rewrite host ctx = .ok next) :
    ∃ rewritten, rewriteJson host.fromSlice host.toVec ctx.target ctx.base.asStr
        (contentType first.headers) bytes = .ok rewritten ∧
      next.body = .buffered (rewritten.getD bytes) := by
  unfold Forwarded.rewrite at h
  rw [hbody] at h
  obtain ⟨pair, hpair, h⟩ := bind_ok h
  obtain ⟨rewritten, hrewritten, hpair⟩ := bind_ok hpair
  rw [contentType_rewriteHeaders] at hrewritten
  rw [← Except.ok.inj h, ← Except.ok.inj hpair]
  exact ⟨rewritten, hrewritten, rfl⟩

/-- No step changes what the reply was declared as. -/
theorem isJson_apply {step : Step} (h : step.apply host ctx first = .ok next) :
    isJson next.headers = isJson first.headers := by
  cases step with
  | buffer =>
      have h : first.buffer = .ok next := h
      unfold Forwarded.buffer at h
      split at h
      · rw [← Except.ok.inj h]
      · obtain ⟨bytes, _, h⟩ := bind_ok h
        rw [← Except.ok.inj h]
  | log level withBody =>
      have h : first.log level = .ok next := h
      unfold Forwarded.log at h
      split at h
      · rw [← Except.ok.inj h]
      · cases h
  | rewrite =>
      have h : first.rewrite host ctx = .ok next := h
      unfold isJson
      rw [headers_rewrite h, contentType_rewriteHeaders]

/-- What is held stays held. -/
theorem buffered_apply {step : Step} {bytes : List UInt8} (hbody : first.body = .buffered bytes)
    (h : step.apply host ctx first = .ok next) :
    (step ≠ .rewrite ∧ next.body = .buffered bytes) ∨
      step = .rewrite ∧ ∃ rewritten, rewriteJson host.fromSlice host.toVec ctx.target
        ctx.base.asStr (contentType first.headers) bytes = .ok rewritten ∧
        next.body = .buffered (rewritten.getD bytes) := by
  cases step with
  | buffer =>
      have h : first.buffer = .ok next := h
      unfold Forwarded.buffer at h
      rw [hbody] at h
      rw [← Except.ok.inj h]
      exact .inl ⟨by simp, hbody⟩
  | log level withBody =>
      have h : first.log level = .ok next := h
      unfold Forwarded.log at h
      split at h
      · rw [← Except.ok.inj h]
        exact .inl ⟨by simp, hbody⟩
      · cases h
  | rewrite =>
      have h : first.rewrite host ctx = .ok next := h
      exact .inr ⟨rfl, body_rewrite hbody h⟩

theorem held_apply {step : Step} (hheld : Held first)
    (h : step.apply host ctx first = .ok next) : Held next := by
  intro hjson
  rw [isJson_apply h] at hjson
  obtain ⟨bytes, hbody⟩ := hheld hjson
  rcases buffered_apply hbody h with ⟨_, hnext⟩ | ⟨_, rewritten, _, hnext⟩
  · exact ⟨_, hnext⟩
  · exact ⟨_, hnext⟩

/-- What `rewrite_json` makes of a body that is declared JSON. -/
theorem rewriteJson_ok {fromSlice : List UInt8 → Except Complaint (Json ν)}
    {toVec : Json ν → Except Complaint (List UInt8)} {target : SocketAddrV4} {base : Text}
    {type : Option Text} {bytes : List UInt8} {rewritten : Option (List UInt8)}
    (htype : jsonContentType type = true)
    (h : rewriteJson fromSlice toVec target base type bytes = .ok rewritten) :
    bytes = [] ∧ rewritten = none ∨ bytes ≠ [] ∧
      ∃ value new, fromSlice bytes = .ok value ∧ toVec (rewriteValue target base value) = .ok new ∧
        rewritten = some new := by
  unfold rewriteJson at h
  rw [htype] at h
  cases bytes with
  | nil => exact .inl ⟨rfl, (Except.ok.inj h).symm⟩
  | cons b bytes =>
      cases hvalue : fromSlice (b :: bytes) with
      | error error => simp [hvalue] at h
      | ok value =>
          cases hnew : toVec (rewriteValue target base value) with
          | error error => simp [hvalue, hnew] at h
          | ok new =>
              simp only [hvalue, hnew] at h
              exact .inr ⟨by simp, value, new, rfl, hnew, (Except.ok.inj h).symm⟩

end OneStep

/-! ## A run -/

section Run

variable {ν V σ : Type} {host : Host ν V σ} {ctx : RequestCtx} {first last : Forwarded}
  {steps : List Step}

theorem held_runSteps (hheld : Held first) (h : runSteps host ctx first steps = .ok last) :
    Held last := by
  refine foldlM_invariant Held ?_ h hheld
  intro before next step _ hstep hinv
  exact held_apply hinv hstep

theorem isJson_runSteps (h : runSteps host ctx first steps = .ok last) :
    isJson last.headers = isJson first.headers := by
  refine foldlM_invariant (fun f => isJson f.headers = isJson first.headers) ?_ h rfl
  intro before next step _ hstep hinv
  rw [isJson_apply hstep, hinv]

variable (host ctx)

/-- What a JSON value carries after `k` rewrites of what it first held: that, or
nothing, or the encoding of as many rewrites of it. -/
def HoldsAfter (held : List UInt8) (k : Nat) (forwarded : Forwarded) : Prop :=
  (k = 0 ∧ forwarded.body = .buffered held) ∨ 0 < k ∧ (forwarded.body = .buffered [] ∨
    ∃ value bytes, host.fromSlice held = .ok value ∧
      host.toVec ((rewriteValue ctx.target ctx.base.asStr)^[k] value) = .ok bytes ∧
      forwarded.body = .buffered bytes)

/-- Serde reads documents up to a depth, and decodes what it encodes of those. -/
structure Decodes (limit : Nat) : Prop where
  fits : ∀ bytes value, host.fromSlice bytes = .ok value → Json.Fits limit value
  decode : ∀ value bytes, Json.Fits limit value → host.toVec value = .ok bytes →
    host.fromSlice bytes = .ok value

variable {host ctx} {held : List UInt8} {k : Nat}

theorem HoldsAfter.buffered (h : HoldsAfter host ctx held k first) :
    ∃ bytes, first.body = .buffered bytes := by
  rcases h with ⟨_, h⟩ | ⟨_, h | ⟨_, bytes, _, _, h⟩⟩
  · exact ⟨_, h⟩
  · exact ⟨_, h⟩
  · exact ⟨_, h⟩

theorem fits_iterate {limit : Nat} {value : Json ν} (h : Json.Fits limit value) (k : Nat) :
    Json.Fits limit ((rewriteValue ctx.target ctx.base.asStr)^[k] value) := by
  induction k with
  | zero => exact h
  | succ k ih =>
      rw [Function.iterate_succ_apply']
      exact fits_rewriteValue _ _ ih

theorem holdsAfter_apply {limit : Nat} (hserde : Decodes host limit)
    (hjson : isJson first.headers = true) (hfirst : HoldsAfter host ctx held k first) {step : Step}
    {next : Forwarded} (h : step.apply host ctx first = .ok next) :
    HoldsAfter host ctx held (k + [step].count .rewrite) next := by
  obtain ⟨bytes, hbody⟩ := hfirst.buffered
  rcases buffered_apply hbody h with ⟨hstep, hnext⟩ | ⟨rfl, rewritten, hrewritten, hnext⟩
  · have hcount : [step].count .rewrite = 0 :=
      List.count_eq_zero_of_not_mem (by simp [Ne.symm hstep])
    rw [hcount]
    unfold HoldsAfter at hfirst ⊢
    rw [hnext, ← hbody]
    exact hfirst
  · refine .inr ⟨by simp, ?_⟩
    rcases rewriteJson_ok hjson hrewritten with ⟨rfl, rfl⟩ | ⟨hne, value, new, hvalue, hnew, rfl⟩
    · exact .inl hnext
    · refine .inr ?_
      rcases hfirst with ⟨rfl, hheld⟩ | ⟨_, hempty | ⟨origin, coded, horigin, hcoded, hheld⟩⟩
      · obtain rfl : bytes = held := by simpa [hbody] using hheld
        exact ⟨value, new, hvalue, hnew, hnext⟩
      · exact absurd (by simpa [hbody] using hempty) hne
      · -- what was written is what is read back
        obtain rfl : bytes = coded := by simpa [hbody] using hheld
        have hback := hserde.decode _ _ (fits_iterate (hserde.fits _ _ horigin) k) hcoded
        obtain rfl := Except.ok.inj (hvalue.symm.trans hback)
        refine ⟨origin, new, horigin, ?_, hnext⟩
        show host.toVec ((rewriteValue ctx.target ctx.base.asStr)^[k + 1] origin) = .ok new
        rw [Function.iterate_succ_apply']
        exact hnew

/-- **What a JSON value holds at the end of a run.** -/
theorem holdsAfter_runSteps {limit : Nat} (hserde : Decodes host limit)
    (hjson : isJson first.headers = true) (hfirst : HoldsAfter host ctx held k first)
    (h : runSteps host ctx first steps = .ok last) :
    HoldsAfter host ctx held (k + steps.count .rewrite) last := by
  induction steps generalizing first k with
  | nil =>
      obtain rfl : first = last := Except.ok.inj h
      exact hfirst
  | cons step steps ih =>
      obtain ⟨next, hstep, hrest⟩ := bind_ok h
      have hnext := ih (by rw [isJson_apply hstep, hjson])
        (holdsAfter_apply hserde hjson hfirst hstep) hrest
      rwa [Nat.add_assoc, ← List.count_append, List.singleton_append] at hnext

theorem iterate_rewriteValue (hk : 0 < k)
    (h : k ≤ 1 ∨ (IsBareTarget ctx.target ctx.base.url.authority → ctx.base.Unquoted))
    (value : Json ν) : (rewriteValue ctx.target ctx.base.asStr)^[k] value =
      rewriteValue ctx.target ctx.base.asStr value := by
  obtain ⟨k, rfl⟩ := Nat.exists_eq_succ_of_ne_zero hk.ne'
  rw [Function.iterate_succ_apply]
  rcases h with hone | hsettled
  · obtain rfl : k = 0 := by omega
    rfl
  · refine Function.iterate_fixed ?_ k
    exact rewriteValue_twice (swap_swap ((isTarget_url_iff _ _).mpr hsettled)) value

end Run

/-- **No JSON reply gets past the rewriter.** After any sequence of `buffer`,
`log` and `rewrite` a value that is JSON is held; after a rewrite it is empty or
the encoding of what it held first, rewritten; and a body that does not parse is
refused. A base that is not taken back whole can be rewritten once. -/
theorem json_is_rewritten {ν V σ : Type} {host : Host ν V σ} {limit : Nat}
    (hserde : Decodes host limit) {ctx : RequestCtx} {first last : Forwarded} {steps : List Step}
    (hfirst : Received host ctx first) (hrun : runSteps host ctx first steps = .ok last)
    (hjson : isJson last.headers = true) :
    (∃ bytes, last.body = .buffered bytes) ∧
      (Step.rewrite ∈ steps →
        steps.count .rewrite ≤ 1 ∨
          (IsBareTarget ctx.target ctx.base.url.authority → ctx.base.Unquoted) →
        last.body = .buffered [] ∨ ∃ held value bytes, first.body = .buffered held ∧
          host.fromSlice held = .ok value ∧
          host.toVec (rewriteValue ctx.target ctx.base.asStr value) = .ok bytes ∧
          last.body = .buffered bytes) ∧
      ∀ bytes error, last.body = .buffered bytes → bytes ≠ [] →
        host.fromSlice bytes = .error error → ∃ fault, last.rewrite host ctx = .error fault := by
  refine ⟨?_, ?_, ?_⟩
  · exact held_runSteps (held_received hfirst) hrun hjson
  · intro hmem hsettled
    have hfirstJson : isJson first.headers = true := by rw [← isJson_runSteps hrun, hjson]
    obtain ⟨held, hheld⟩ := held_received hfirst hfirstJson
    have hpos : 0 < steps.count .rewrite := List.count_pos_iff.mpr hmem
    have hstart : HoldsAfter host ctx held 0 first := .inl ⟨rfl, hheld⟩
    have hlast := holdsAfter_runSteps hserde hfirstJson hstart hrun
    rw [Nat.zero_add] at hlast
    rcases hlast with ⟨hzero, _⟩ | ⟨_, hempty | ⟨value, bytes, hvalue, hbytes, hlast⟩⟩
    · exact absurd hzero hpos.ne'
    · exact .inl hempty
    · rw [iterate_rewriteValue hpos hsettled] at hbytes
      exact .inr ⟨held, value, bytes, hheld, hvalue, hbytes, hlast⟩
  · intro bytes error hbody hne herror
    cases hresult : last.rewrite host ctx with
    | error fault => exact ⟨fault, rfl⟩
    | ok next =>
        obtain ⟨rewritten, hrewritten, _⟩ := body_rewrite hbody hresult
        rcases rewriteJson_ok hjson hrewritten with ⟨hnil, _⟩ | ⟨_, value, _, hvalue, _⟩
        · exact absurd hnil hne
        · rw [herror] at hvalue
          cases hvalue

/-! ## One document -/

section Document

variable (ctx : RequestCtx) (document : Json Nat)

theorem decodes_documentHost : Decodes (documentHost document).toHost serdeLimit where
  fits := fits_parseBody
  decode value bytes h hwrite := by
    have hwrite : writeBody value = bytes := Except.ok.inj hwrite
    rw [← hwrite]
    exact parseBody_writeBody h

/-- The document, as it is forwarded. -/
def forwardedDocument : Forwarded where
  status := 200
  headers := copyEndToEnd (typeHeader "application/json".toList) .new
  body := .buffered (writeBody document)

theorem isJson_forwardedDocument : isJson (forwardedDocument document).headers = true := by
  show isJson (copyEndToEnd _ .new) = true
  rw [isJson_copyEndToEnd, isJson_typeHeader]

theorem received_forwardedDocument :
    Received (documentHost document).toHost ctx (forwardedDocument document) := by
  refine ⟨⟨none, ()⟩, World.after (documentHost document).toHost ⟨none, ()⟩ (forward ctx), .inl ?_⟩
  rw [exec_forwarded]
  show (intoForwarded (documentReply document), _) = _
  unfold intoForwarded
  have hjson : isJson (copyEndToEnd (documentReply document).headers .new) = true :=
    isJson_forwardedDocument document
  simp only [hjson, if_true]
  rfl

variable {document}

theorem writeBody_ne_nil (h : Json.Fits serdeLimit document) : writeBody document ≠ [] := by
  intro hnil
  have hread := parseBody_writeBody h
  obtain ⟨error, herror⟩ := parseBody_nil
  rw [hnil, herror] at hread
  cases hread

theorem eq_of_writeBody {value value' : Json Nat} (h : Json.Fits serdeLimit value)
    (h' : Json.Fits serdeLimit value') (heq : writeBody value = writeBody value') :
    value = value' := by
  have hread := parseBody_writeBody h
  rw [heq, parseBody_writeBody h'] at hread
  exact (Except.ok.inj hread).symm

/-- What `rewrite` makes of a document that is held. -/
theorem rewrite_document {first : Forwarded} {value : Json Nat}
    (hjson : isJson first.headers = true) (hbody : first.body = .buffered (writeBody value))
    (hfits : Json.Fits serdeLimit value) :
    first.rewrite (documentHost document).toHost ctx =
      .ok { first with
        headers := rewriteHeaders ctx.target ctx.base.asStr first.headers
        body := .buffered (writeBody (rewriteValue ctx.target ctx.base.asStr value)) } := by
  have hempty : (writeBody value).isEmpty = false := by
    rw [List.isEmpty_eq_false_iff]
    exact writeBody_ne_nil hfits
  have htype : jsonContentType (contentType
      (rewriteHeaders ctx.target ctx.base.asStr first.headers)) = true := by
    rw [contentType_rewriteHeaders]
    exact hjson
  have hread : (documentHost document).fromSlice (writeBody value) = .ok value :=
    parseBody_writeBody hfits
  unfold Forwarded.rewrite rewriteResponse rewriteJson
  rw [hbody]
  simp only [htype, hempty, hread, Bool.not_true, Bool.false_eq_true, if_false]
  rfl

/-- The document after two rewrites. -/
theorem runSteps_twice (hfits : Json.Fits serdeLimit document) :
    ∃ last, runSteps (documentHost document).toHost ctx (forwardedDocument document)
        [.rewrite, .rewrite] = .ok last ∧ isJson last.headers = true ∧
      last.body = .buffered (writeBody (rewriteValue ctx.target ctx.base.asStr
        (rewriteValue ctx.target ctx.base.asStr document))) := by
  obtain ⟨middle, hfirst, hmiddle⟩ : ∃ middle,
      (forwardedDocument document).rewrite (documentHost document).toHost ctx = .ok middle ∧
        middle.body = .buffered (writeBody (rewriteValue ctx.target ctx.base.asStr document)) :=
    ⟨_, rewrite_document ctx (isJson_forwardedDocument document) rfl hfits, rfl⟩
  have hmiddleJson : isJson middle.headers = true := by
    unfold isJson
    rw [headers_rewrite hfirst, contentType_rewriteHeaders]
    exact isJson_forwardedDocument document
  obtain ⟨last, hsecond, hlast⟩ : ∃ last,
      middle.rewrite (documentHost document).toHost ctx = .ok last ∧
        last.body = .buffered (writeBody (rewriteValue ctx.target ctx.base.asStr
          (rewriteValue ctx.target ctx.base.asStr document))) :=
    ⟨_, rewrite_document ctx hmiddleJson hmiddle (fits_rewriteValue _ _ hfits), rfl⟩
  refine ⟨last, ?_, ?_, hlast⟩
  · show (forwardedDocument document).rewrite (documentHost document).toHost ctx >>= (fun next =>
      next.rewrite (documentHost document).toHost ctx >>= pure) = .ok last
    rw [hfirst]
    show middle.rewrite (documentHost document).toHost ctx >>= pure = .ok last
    rw [hsecond]
    rfl
  · unfold isJson
    rw [headers_rewrite hsecond, contentType_rewriteHeaders]
    exact hmiddleJson

end Document

/-- A link to the target. -/
def linkToTarget : Json Nat := .string "http://10.0.0.1".toList

theorem fits_linkToTarget : Json.Fits serdeLimit linkToTarget := .string _

def linkCtx (base : Base) : RequestCtx := requestCtx bmcTarget base getParts []

theorem json_is_rewritten_link :
    Decodes (documentHost linkToTarget).toHost serdeLimit ∧
      Received (documentHost linkToTarget).toHost (linkCtx proxyBase)
        (forwardedDocument linkToTarget) ∧
      ∃ last, runSteps (documentHost linkToTarget).toHost (linkCtx proxyBase)
          (forwardedDocument linkToTarget) [.rewrite, .rewrite] = .ok last ∧
        isJson last.headers = true ∧
        (last.body = .buffered [] ∨ ∃ held value bytes,
          (forwardedDocument linkToTarget).body = .buffered held ∧
          (documentHost linkToTarget).fromSlice held = .ok value ∧
          (documentHost linkToTarget).toVec
            (rewriteValue bmcTarget proxyBase.asStr value) = .ok bytes ∧
          last.body = .buffered bytes) := by
  have hserde := decodes_documentHost linkToTarget
  have hfirst := received_forwardedDocument (linkCtx proxyBase) linkToTarget
  obtain ⟨last, hrun, hjson, _⟩ := runSteps_twice (linkCtx proxyBase) fits_linkToTarget
  have hunquoted : proxyBase.Unquoted := by
    unfold Base.Unquoted
    decide
  exact ⟨hserde, hfirst, last, hrun, hjson,
    (json_is_rewritten hserde hfirst hrun hjson).2.1 (by simp) (.inr fun _ => hunquoted)⟩

theorem isRegName_targetComma : IsRegName "10.0.0.1,b".toList := ⟨by decide, by decide⟩

/-- `https://10.0.0.1,b/`, which a text cuts back to the target. -/
def targetCommaBase : Base :=
  { proxyBase with host := "10.0.0.1,b".toList, hostOk := .inl isRegName_targetComma }

/-- Behind such a base the second rewrite finds the target again. -/
theorem rewritten_link_grows :
    ∃ last, Received (documentHost linkToTarget).toHost (linkCtx targetCommaBase)
        (forwardedDocument linkToTarget) ∧
      runSteps (documentHost linkToTarget).toHost (linkCtx targetCommaBase)
        (forwardedDocument linkToTarget) [.rewrite, .rewrite] = .ok last ∧
      isJson last.headers = true ∧ last.body ≠ .buffered [] ∧
      ¬ ∃ held value bytes, (forwardedDocument linkToTarget).body = .buffered held ∧
        (documentHost linkToTarget).fromSlice held = .ok value ∧
        (documentHost linkToTarget).toVec
          (rewriteValue bmcTarget targetCommaBase.asStr value) = .ok bytes ∧
        last.body = .buffered bytes := by
  obtain ⟨last, hrun, hjson, hlast⟩ := runSteps_twice (linkCtx targetCommaBase) fits_linkToTarget
  have honce : swapped targetCommaBase.asStr "http://10.0.0.1".toList (isTarget · bmcTarget) =
      "https://10.0.0.1,b".toList := by decide
  have htwice : swapped targetCommaBase.asStr "https://10.0.0.1,b".toList (isTarget · bmcTarget) =
      "https://10.0.0.1,b,b".toList := by decide
  have hfirst : rewriteValue bmcTarget targetCommaBase.asStr linkToTarget =
      .string "https://10.0.0.1,b".toList := by
    unfold linkToTarget
    rw [rewriteValue_string, honce]
  have hlast : last.body = .buffered (writeBody (.string "https://10.0.0.1,b,b".toList)) := by
    rw [hlast]
    show ForwardedBody.buffered (writeBody (rewriteValue bmcTarget targetCommaBase.asStr
      (rewriteValue bmcTarget targetCommaBase.asStr linkToTarget))) = _
    rw [hfirst, rewriteValue_string, htwice]
  refine ⟨last, received_forwardedDocument _ _, hrun, hjson, ?_, ?_⟩
  · rw [hlast]
    intro hnil
    injection hnil with hnil
    exact writeBody_ne_nil (.string _) hnil
  · rintro ⟨held, value, bytes, hheld, hvalue, hbytes, hbody⟩
    injection hheld with hheld
    rw [← hheld, fromSlice_documentHost fits_linkToTarget] at hvalue
    obtain rfl := Except.ok.inj hvalue
    have hbytes : writeBody (rewriteValue bmcTarget targetCommaBase.asStr linkToTarget) = bytes :=
      Except.ok.inj hbytes
    rw [hlast, ← hbytes, hfirst] at hbody
    injection hbody with hbody
    have hsame := eq_of_writeBody (.string _) (.string _) hbody
    injection hsame with hsame
    exact absurd hsame (by decide)

end RedfishProxy.Shipped
