import RedfishProxy.Script.ReadsBack
import RedfishProxy.Shipped.RefusedWrite

/-!
# The account that cannot be written

`account.rn`. The credential is held outside the proxy, so a write of a password
is to be refused. The handler looks for one only in a body that is declared JSON,
and `header` gives it the last type that can be read.

Main result:
* `password_refused_iff`: the types with which a password is refused.
-/

namespace RedfishProxy.Shipped

open Lib Http Script RuneHost ScriptUtil

/-! ## The handler -/

section Handler

variable {ν σ : Type} (host : Rune ν σ) (ctx : RequestCtx)

/-- What a write of a password is answered with. -/
def passwordRefusal : Json ν := .ofFields [
  ("error".toList, .ofFields [
    ("code".toList, .string "Base.1.0.ActionNotSupported".toList),
    ("message".toList, .string ("the BMC credential is held outside this proxy and " ++
      "cannot be rotated through it; retain the existing credential instead").toList)])]

def accountDocument (id : Text) : Json ν := .ofFields [
  ("@odata.id".toList, .string ("/redfish/v1/AccountService/Accounts/".toList ++ id)),
  ("@odata.type".toList, .string "#ManagerAccount.v1_4_0.ManagerAccount".toList),
  ("Id".toList, .string id),
  ("Name".toList, .string "User Account".toList),
  ("UserName".toList, .string id),
  ("RoleId".toList, .string "Administrator".toList),
  ("Enabled".toList, .bool true),
  ("Locked".toList, .bool false)]

/-- Whether there is a password in the body, which is looked at where it is JSON. -/
def bringsPassword (req : ScriptRequest) : Script ν σ Bool :=
  if req.isJson then do
    let body ← requestJson host req
    return (valueAt body "Password".toList).isSome
  else return false

def writeAccount (req : ScriptRequest) : Script ν σ (Returned ScriptResponse) := do
  if ← bringsPassword host req then
    finishScript host ctx (jsonResponse host.toHost 501 passwordRefusal)
  else finishScript host ctx (statusResponse 204)

def account : Handler ν σ := fun ctx req => do
  logInbound host ctx
  let id ← tryOption (segment req.path (-1))
  if isWrite req then writeAccount host ctx req
  else rewriteScript host ctx (jsonResponse host.toHost 200 (accountDocument id))

end Handler

/-- A path has a last segment. -/
theorem segment_last (path : Text) : ∃ id, segment path (-1) = some id := by
  have hlength : 0 < (path.splitOn '/').length :=
    List.length_pos_iff.mpr (List.splitOn_ne_nil '/' path)
  have hlast : segment path (-1) =
      if 1 ≤ (path.splitOn '/').length then (path.splitOn '/')[(path.splitOn '/').length - 1]?
      else none := rfl
  rw [hlast, if_pos (Nat.succ_le_of_lt hlength)]
  exact ⟨_, List.getElem?_eq_getElem (Nat.sub_lt hlength Nat.one_pos)⟩

theorem fits_accountDocument {ν σ : Type} {host : Rune ν σ} (id : Text) :
    Json.Fits host.limit (accountDocument id : Json ν) := by
  have hlimit := host.limit_ge
  refine (Json.fits_ofFields ?_).mono (show 0 + 1 ≤ host.limit by omega)
  simp only [List.forall_mem_cons]
  exact ⟨.string _, .string _, .string _, .string _, .string _, .string _, .bool _, .bool _,
    by simp⟩

section Account

variable {ν σ : Type} {host : Rune ν σ} {target : SocketAddrV4} {base : Base} {arrival : Arrival}

variable (host) in
/-- The id is there, so the method is all that counts. -/
theorem exec_account (ctx : RequestCtx) (req : ScriptRequest)
    (store : ScriptStore.Store (Json ν)) (net : σ) : ∃ id, segment req.path (-1) = some id ∧
      exec (account host ctx req) (start store net) =
        exec (if isWrite req then writeAccount host ctx req
          else rewriteScript host ctx (jsonResponse host.toHost 200 (accountDocument id)))
          (opened ctx store net) := by
  obtain ⟨id, hid⟩ := segment_last req.path
  refine ⟨id, hid, ?_⟩
  unfold account
  rw [exec_opened, hid, exec_bind, exec_tryOption_some, thenExec_ok]

/-! ## A write -/

/-- The type a handler sees, the last of those that can be read, declares JSON. -/
def DeclaresJson (headers : HeaderMap) : Prop :=
  jsonContentType (texts headers CONTENT_TYPE).getLast? = true

theorem isJson_scriptRequest (parts : Parts) (body : List UInt8) :
    (scriptRequest parts body).isJson = true ↔ DeclaresJson parts.headers := by
  have htype : HeaderName.fromBytes "content-type".toList = some CONTENT_TYPE := by decide
  have hplain : isRedacted "content-type".toList = false := by decide
  unfold ScriptRequest.isJson ScriptRequest.contentType DeclaresJson
  rw [header_scriptRequest, hplain, htype]
  rfl

/-- What parses of the body has a password. -/
def NamesPassword (host : Rune ν σ) (body : List UInt8) : Prop :=
  ∀ value, host.fromSlice body = .ok value → (value.get "Password".toList).isSome = true

/-- **A password is refused where the body is looked at**, and else taken. -/
theorem status_writeAccount {req : ScriptRequest} (h : NamesPassword host req.body)
    (ctx : RequestCtx) (machine : Machine ν σ) :
    isSuccess (answer host ctx (exec (writeAccount host ctx req) machine).1).status =
      !req.isJson := by
  unfold writeAccount bringsPassword requestJson bodyJson
  rw [exec_bind]
  cases req.isJson with
  | false => rfl
  | true =>
      simp only [if_true]
      cases hbody : host.fromSlice req.body with
      | error complaint =>
          rw [scriptFromSlice_of_error hbody]
          exact congrArg isSuccess (status_answer_error host ctx (.error _))
      | ok value =>
          have hpassword : (valueAt (host.scriptValue value) "Password".toList).isSome = true := by
            rw [valueAt_of_key (by decide) (by decide), get_scriptValue, Option.isSome_map]
            exact h value hbody
          rw [scriptFromSlice_of_fromSlice hbody]
          show isSuccess (answer host ctx (exec (if (valueAt (host.scriptValue value)
            "Password".toList).isSome then _ else _) machine).1).status = false
          rw [if_pos hpassword]
          let refusal := jsonResponse host.toHost 501 passwordRefusal
          obtain ⟨record, hrun⟩ : ∃ record, exec (finishScript host ctx refusal) machine =
              (.ok (.script refusal), machine.logs record) := exec_finishScript machine refusal
          rw [hrun, answer_script, status_finishScriptResponse]
          -- the refusal is a 501, or a 500 where it cannot be written
          rcases status_jsonResponse host.toHost 501 passwordRefusal with hstatus | hstatus
          · rw [hstatus]
            decide
          · rw [hstatus]
            decide

theorem status_serve_write
    (hmethod : arrival.parts.method = .PATCH ∨ arrival.parts.method = .PUT)
    (hpassword : NamesPassword host arrival.body) (store : ScriptStore.Store (Json ν)) (net : σ) :
    isSuccess (serve host (account host) target base arrival store net).1.status =
      !(scriptRequest arrival.parts arrival.body).isJson := by
  obtain ⟨_, _, hserve⟩ := exec_account host (arrival.ctx target base)
    (scriptRequest arrival.parts arrival.body) store net
  have hwrite : isWrite (scriptRequest arrival.parts arrival.body) = true := by
    unfold isWrite scriptRequest
    rcases hmethod with hmethod | hmethod
    · rw [hmethod]
      rfl
    · rw [hmethod]
      rfl
  rw [if_pos hwrite] at hserve
  unfold serve
  simp only
  rw [show requestCtx target base arrival.parts arrival.body = arrival.ctx target base from rfl,
    hserve]
  exact status_writeAccount hpassword _ _

/-- **A write of a password is refused exactly when the last type that can be read
declares JSON.** -/
theorem password_refused_iff
    (hmethod : arrival.parts.method = .PATCH ∨ arrival.parts.method = .PUT)
    (hpassword : NamesPassword host arrival.body) (store : ScriptStore.Store (Json ν)) (net : σ) :
    isSuccess (serve host (account host) target base arrival store net).1.status = false ↔
      DeclaresJson arrival.parts.headers := by
  rw [status_serve_write hmethod hpassword, Bool.not_eq_false']
  exact isJson_scriptRequest arrival.parts arrival.body

end Account

/-! ## A password without a type -/

def passwordBody : Json Nat := .object [("Password".toList, .string "nope".toList)]

/-- The password for an account, under these headers. -/
def passwordPatch (headers : HeaderMap) : Arrival where
  parts := {
    method := .PATCH
    uri := { path := "/redfish/v1/AccountService/Accounts/2".toList, query := none }
    headers }
  body := writeBody passwordBody

theorem fits_passwordBody : Json.Fits serdeLimit passwordBody :=
  (Json.Fits.string _).one_field _

theorem fromSlice_passwordPatch (headers : HeaderMap) :
    quietHost.fromSlice (passwordPatch headers).body = .ok passwordBody := by
  unfold quietHost passwordPatch
  rw [fromSlice_serdeHost, parseBody_writeBody fits_passwordBody]

theorem namesPassword_passwordPatch (headers : HeaderMap) :
    NamesPassword quietHost (passwordPatch headers).body := by
  intro value hvalue
  rw [fromSlice_passwordPatch] at hvalue
  obtain rfl := Except.ok.inj hvalue
  decide

/-- **A password without a type is taken**, as far as the caller can see. -/
theorem untyped_password_taken :
    (passwordPatch .new).parts.method = .PATCH ∧
      quietHost.fromSlice (passwordPatch .new).body = .ok passwordBody ∧
      isSuccess (serve quietHost (account quietHost) bmcTarget proxyBase (passwordPatch .new)
        ScriptStore.new ()).1.status = true := by
  refine ⟨rfl, fromSlice_passwordPatch .new, ?_⟩
  have huntyped : (scriptRequest (passwordPatch .new).parts (passwordPatch .new).body).isJson =
      false := rfl
  rw [status_serve_write (.inl rfl) (namesPassword_passwordPatch .new), huntyped]
  rfl

/-- With a type it is refused. -/
theorem password_refused_typed :
    isSuccess (serve quietHost (account quietHost) bmcTarget proxyBase
      (passwordPatch (typeHeader "application/json".toList)) ScriptStore.new ()).1.status = false :=
  (password_refused_iff (.inl rfl) (namesPassword_passwordPatch _) ScriptStore.new ()).mpr
    (by unfold DeclaresJson; decide)

end RedfishProxy.Shipped
