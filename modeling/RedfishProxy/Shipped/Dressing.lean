import RedfishProxy.Script.Exchange
import RedfishProxy.Shipped.Frame
import RedfishProxy.Shipped.SerdeHost

/-!
# Dressing what the BMC serves

What the scripts of resources share: the inbound request is forwarded, a reply
that is no document goes back as it is, and a document gets members of the
script's own before it goes back with a 200.

Main results:
* `exec_setEach`: members at keys can always be set.
* `exec_dressed`: a document is dressed, and goes back with a 200.
-/

namespace RedfishProxy.Shipped

open Lib Http Script RuneHost ScriptUtil

section Dressing

variable {ν σ : Type} (host : Rune ν σ) (ctx : RequestCtx)

/-- `document = util::set(document, path, value)?`, one member after the other. -/
def setEach (members : List (Text × Json ν)) (document : Json ν) : Script ν σ (Json ν) :=
  members.foldlM (fun document member => tryResult (setAt document member.1 member.2)) document

/-- `bmc::forward().await?.rewrite()?.log("info", true)?`. -/
def relay : Script ν σ (Returned ScriptResponse) := do
  rewriteForwarded host ctx (← bmc (forwarded host.toHost ctx))

/-- From the reply on: it is relayed, or its document is dressed. -/
def dressing (dress : Json ν → Script ν σ (Json ν)) (upstream : Forwarded) :
    Script ν σ (Returned ScriptResponse) := do
  if !isSuccess upstream.status || !isJson upstream.headers then
    rewriteForwarded host ctx upstream
  else
    let document ← tryResult (upstream.json host.toHost)
    let document ← dress document
    rewriteScript host ctx (jsonResponse host.toHost 200 document)

/-- The whole of it, for a resource that is only read. -/
def dressed (dress : Json ν → Script ν σ (Json ν)) : Script ν σ (Returned ScriptResponse) := do
  let upstream ← bmc (forwarded host.toHost ctx)
  dressing host ctx dress upstream

/-! ## Members at keys -/

/-- The document with the members at their keys. -/
def writtenEach (members : List (Text × Json ν)) (document : Json ν) : Json ν :=
  members.foldl (fun document member => written member.2 (member.1.splitOn '/') document) document

theorem writtenEach_cons (member : Text × Json ν) (members : List (Text × Json ν))
    (document : Json ν) : writtenEach (member :: members) document =
      writtenEach members (written member.2 (member.1.splitOn '/') document) := rfl

/-- The path is not empty, and every segment of it is a key. -/
def IsKeyPath (path : Text) : Prop := path ≠ [] ∧ ∀ segment ∈ path.splitOn '/', IsKeySegment segment

instance (path : Text) : Decidable (IsKeyPath path) := inferInstanceAs (Decidable (_ ∧ _))

/-- **Members at keys can always be set.** -/
theorem exec_setEach {members : List (Text × Json ν)}
    (h : ∀ path ∈ members.map Prod.fst, IsKeyPath path) (document : Json ν)
    (machine : Machine ν σ) :
    exec (setEach members document) machine = (.ok (writtenEach members document), machine) := by
  unfold setEach writtenEach
  induction members generalizing document with
  | nil => rfl
  | cons member members ih =>
      obtain ⟨hne, hkeys⟩ := h member.1 (by simp)
      rw [List.foldlM_cons, exec_bind, setAt_of_keys hne hkeys, exec_tryResult_ok, thenExec_ok,
        List.foldl_cons]
      exact ih (fun path hpath => h path (List.mem_cons_of_mem _ hpath)) _

theorem setEach_keeps {γ : Type} {view : Machine ν σ → γ} (members : List (Text × Json ν))
    (document : Json ν) : Keeps view (setEach members document) := by
  unfold setEach
  induction members generalizing document with
  | nil => exact .pure document
  | cons member members ih =>
      rw [List.foldlM_cons]
      exact (Keeps.tryResult _).bind fun document => ih document

theorem fits_writtenEach {d : Nat} {members : List (Text × Json ν)} {document : Json ν}
    (hdocument : Json.Fits d document)
    (h : ∀ member ∈ members, ∃ e, Json.Fits e member.2 ∧
      e + (member.1.splitOn '/').length ≤ d) : Json.Fits d (writtenEach members document) := by
  unfold writtenEach
  induction members generalizing document with
  | nil => exact hdocument
  | cons member members ih =>
      obtain ⟨e, hfits, hle⟩ := h member (by simp)
      exact ih (written_fits hdocument hfits hle) fun m hm => h m (by simp [hm])

/-- A member is what the last write to its key left of it. -/
theorem get_writtenEach_of_ne {members : List (Text × Json ν)} {key : Text}
    (h : ∀ path ∈ members.map Prod.fst, (path.splitOn '/').head? ≠ some key)
    (document : Json ν) :
    (writtenEach members document).get key = document.get key := by
  unfold writtenEach
  induction members generalizing document with
  | nil => rfl
  | cons member members ih =>
      rw [List.foldl_cons, ih fun path hpath => h path (List.mem_cons_of_mem _ hpath)]
      have hhead := h member.1 (by simp)
      cases hsplit : member.1.splitOn '/' with
      | nil => exact absurd hsplit (List.splitOn_ne_nil '/' member.1)
      | cons first rest =>
          rw [hsplit] at hhead
          have hne : key ≠ first := by
            intro heq
            exact hhead (by rw [heq]; rfl)
          rw [get_written, if_neg hne, get_eq_asFields]

/-! ## Bodies that are parsed -/

/-- A success that is declared JSON has a body that parses. -/
def Parses (status : Nat) (headers : HeaderMap) (body : List UInt8) : Prop :=
  isSuccess status = true → isJson headers = true → ∃ document, host.fromSlice body = .ok document

variable {host ctx}

theorem bodyJson_of_scriptFromSlice {body : List UInt8} {what : Text} {document : Json ν}
    (h : host.scriptFromSlice body = .ok document) :
    bodyJson host.toHost body what = .ok document := by
  unfold bodyJson
  rw [h]
  rfl

theorem bodyJson_of_not_parses {status : Nat} {headers : HeaderMap} {body : List UInt8}
    (h : ¬ Parses host status headers body) (what : Text) :
    isSuccess status = true ∧ isJson headers = true ∧
      ∃ fault, bodyJson host.toHost body what = .error fault := by
  unfold Parses at h
  push Not at h
  obtain ⟨hok, hjson, hnone⟩ := h
  refine ⟨hok, hjson, ?_⟩
  unfold bodyJson
  cases hread : host.fromSlice body with
  | error error =>
      rw [scriptFromSlice_of_error hread]
      exact ⟨_, rfl⟩
  | ok document => exact absurd hread (hnone document)

/-! ## The store -/

theorem relay_keepsStore : KeepsStore (relay host ctx) :=
  (Keeps.bmc _).bind fun response => .rewriteForwarded Machine.logs_store response

theorem dressing_keepsStore {dress : Json ν → Script ν σ (Json ν)}
    (h : ∀ document, KeepsStore (dress document)) (upstream : Forwarded) :
    KeepsStore (dressing host ctx dress upstream) :=
  .ite (.rewriteForwarded Machine.logs_store upstream)
    ((Keeps.tryResult _).bind fun document => (h document).bind fun _ =>
      .rewriteScript Machine.logs_store _)

theorem dressed_keepsStore {dress : Json ν → Script ν σ (Json ν)}
    (h : ∀ document, KeepsStore (dress document)) : KeepsStore (dressed host ctx dress) :=
  (Keeps.bmc _).bind fun upstream => dressing_keepsStore h upstream

/-! ## A document -/

/-- The machine once the request is forwarded. -/
def Machine.forwarded (host : Rune ν σ) (ctx : RequestCtx) (machine : Machine ν σ) : Machine ν σ :=
  { machine with world := machine.world.after host.toHost (forward ctx) }

@[simp] theorem Machine.forwarded_store (machine : Machine ν σ) :
    (machine.forwarded host ctx).store = machine.store := rfl

/-- A reply with a document: a success, declared JSON, that is whole and parses.
The document is what the script has of it. -/
structure Documents (host : Rune ν σ) (ctx : RequestCtx) (net : σ) (document : Json ν) : Prop where
  reply : ∃ reply bytes, (host.client (forward ctx) net).1 = .ok reply ∧
    isSuccess reply.status = true ∧ isJson reply.headers = true ∧ reply.body = .ok bytes ∧
    host.scriptFromSlice bytes = .ok document

theorem Documents.fits {net : σ} {document : Json ν} (h : Documents host ctx net document) :
    Json.Fits host.limit document := by
  obtain ⟨reply, bytes, _, _, _, _, hread⟩ := h.reply
  exact fits_of_scriptFromSlice hread

variable {dress : Json ν → Script ν σ (Json ν)} {machine : Machine ν σ} {document : Json ν}

/-- What comes of a document is what comes of dressing it. -/
theorem exec_dressed (h : Documents host ctx machine.world.net document) :
    exec (dressed host ctx dress) machine =
      thenExec (fun document => rewriteScript host ctx (jsonResponse host.toHost 200 document))
        (exec (dress document) (machine.forwarded host ctx)) := by
  obtain ⟨reply, bytes, hreply, hok, hjson, hbody, hread⟩ := h.reply
  have hforwarded : forwardedFrom host.toHost ctx (.ok reply) =
      .ok ⟨reply.status, copyEndToEnd reply.headers .new, .buffered bytes⟩ := by
    unfold forwardedFrom intoForwarded
    simp only [isJson_copyEndToEnd, hjson, hbody]
    rfl
  unfold dressed
  rw [exec_bind, exec_bmc, exec_forwarded, hreply, hforwarded]
  show exec (dressing host ctx dress _) (machine.forwarded host ctx) = _
  have hparse : Forwarded.json host.toHost
      ⟨reply.status, copyEndToEnd reply.headers .new, .buffered bytes⟩ = .ok document := by
    exact bodyJson_of_scriptFromSlice hread
  unfold dressing
  simp only [isJson_copyEndToEnd, hok, hjson, hparse]
  show exec (tryResult (.ok document) >>= _) _ = _
  rw [exec_bind, exec_tryResult_ok, thenExec_ok, exec_bind]

/-- **A document that can be dressed is served**, with a 200. -/
theorem answer_dressed (h : Documents host ctx machine.world.net document) {result : Json ν}
    (hdress : (exec (dress document) (machine.forwarded host ctx)).1 = .ok result)
    (hfits : Json.Fits host.limit result) :
    ∃ response, (exec (dressed host ctx dress) machine).1 = .ok (.script response) ∧
      Carries host ctx response 200 result := by
  rw [exec_dressed h]
  cases hrun : exec (dress document) (machine.forwarded host ctx) with
  | mk outcome machine' =>
      rw [hrun] at hdress
      have houtcome : outcome = .ok result := hdress
      obtain ⟨response, record, hrewrite, hcarries⟩ := exec_rewriteScript host ctx machine' hfits 200
      refine ⟨response, ?_, hcarries⟩
      rw [houtcome, thenExec_ok, hrewrite]

/-- And one that cannot is not. -/
theorem answer_dressed_error (h : Documents host ctx machine.world.net document) {stop : Stop}
    (hdress : (exec (dress document) (machine.forwarded host ctx)).1 = .error stop) :
    (exec (dressed host ctx dress) machine).1 = .error stop := by
  rw [exec_dressed h]
  cases hrun : exec (dress document) (machine.forwarded host ctx) with
  | mk outcome machine' =>
      rw [hrun] at hdress
      have houtcome : outcome = .error stop := hdress
      rw [houtcome]
      rfl

end Dressing

/-! ## A BMC with one document -/

/-- The document, whatever is asked. -/
def documentReply (document : Json Nat) : Reply where
  status := 200
  headers := typeHeader "application/json".toList
  body := .ok (writeBody document)

def documentHost (document : Json Nat) : Rune Nat Unit :=
  serdeHost fun _ net => (.ok (documentReply document), net)

theorem fromSlice_documentHost {document : Json Nat} (h : Json.Fits serdeLimit document) :
    (documentHost document).fromSlice (writeBody document) = .ok document := by
  unfold documentHost
  rw [fromSlice_serdeHost, parseBody_writeBody h]

theorem isJson_typeHeader : isJson (typeHeader "application/json".toList) = true := by decide

theorem documents_documentHost {document : Json Nat} (h : Json.Fits serdeLimit document)
    (ctx : RequestCtx) : Documents (documentHost document) ctx () document :=
  ⟨documentReply document, _, rfl, rfl, isJson_typeHeader, rfl, fromSlice_documentHost h⟩

end RedfishProxy.Shipped
