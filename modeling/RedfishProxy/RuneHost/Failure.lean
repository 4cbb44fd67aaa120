import RedfishProxy.Proxy.Handle
import RedfishProxy.Script.CallFaults

/-!
# The failure path

How a handler run that fails becomes a response: `returned` and `execute` make a
`Failure` of it, `run_script` a `ProxyError`, and `into_response` a body. No
rewriting lies on this path, so the body shows the target exactly when what
ended the run does (`failure_clean_iff`).
-/

namespace RedfishProxy.RuneHost

open Lib Http Script

structure Failure where
  status : Nat
  message : Text

def Failure.badGateway (message : Text) : Failure where
  status := 502
  message := message

/-- What a handler can hand back, up to what the failure path reads of it. The
two `rune::Any` types can be taken out only where nothing else holds them. -/
inductive Value (ρ : Type) where
  | scriptResponse (taken : Except Complaint ρ)
  | forwarded (taken : Except Complaint Forwarded)
  | string (text : Text)
  /-- Any other value, as serde writes it, if it can. -/
  | other (written : Option Text)

/-- A bare value or a `Result` of one. -/
inductive Outcome (ρ : Type) where
  | bare (value : Value ρ)
  | ok (value : Value ρ)
  | err (error : Value ρ)

/-- The two shapes a handler may end with. -/
inductive Returned (ρ : Type) where
  | script (response : ρ)
  | forwarded (response : Forwarded)

section Returned

variable {ρ : Type}

def render : Value ρ → Text
  | .string text => Json.quote text
  | .other (some written) => written
  | _ => "<unrenderable value>".toList

/-- The dispatch on the type hash. -/
def returnedValue : Value ρ → Except Failure (Returned ρ)
  | .scriptResponse (.ok response) => .ok (.script response)
  | .scriptResponse (.error error) =>
    .error (.badGateway ("reading the response: ".toList ++ error.text))
  | .forwarded (.ok response) => .ok (.forwarded response)
  | .forwarded (.error error) =>
    .error (.badGateway ("reading the response: ".toList ++ error.text))
  | _ => .error (.badGateway
      "handler must return a resp::* or bmc::forward value, got something else".toList)

def returned : Outcome ρ → Except Failure (Returned ρ)
  | .err error => .error (.badGateway ("handler returned an error: ".toList ++ render error))
  | .ok inner => returnedValue inner
  | .bare value => returnedValue value

end Returned

/-! ## How a run ends -/

section Run

variable {ν V σ : Type} (host : Host ν V σ) (ctx : RequestCtx) (ρ : Type)

/-- How the run of a handler ends. In `propagated` a `?` hands on the error of a
`bmc` call, made in whatever world the run has come to. -/
inductive Ended where
  | noUnit (script : Text)
  | notCalled (error : Complaint)
  | failed (error : Text)
  | propagated (call : Call V) (world : World σ) (fault : Fault)
      (fails : ((runCall host ctx call).run.run world).1 = .error fault)
  | returned (outcome : Outcome ρ)

variable {host ctx ρ}

def execute : Ended host ctx ρ → Except Failure (Returned ρ)
  | .noUnit script => .error (.badGateway ("no compiled script named ".toList ++ script))
  | .notCalled error => .error (.badGateway ("calling handle: ".toList ++ error.text))
  | .failed error => .error (.badGateway ("script execution failed: ".toList ++ error))
  | .propagated _ _ fault _ => returned (.err (.string (Fault.text host.unprintable fault)))
  | .returned outcome => returned outcome

def runScript (ended : Ended host ctx ρ) : Except Proxy.ProxyError (Returned ρ) :=
  (execute ended).mapError fun failure => .script failure.status failure.message

end Run

/-- The status and the body of the response to an error. -/
def intoResponse (error : Proxy.ProxyError) : Nat × Text :=
  (error.status, errorBody error.display)

/-! ## What the body shows -/

section Shows

variable {ip : Ipv4Addr}

/-- The body shows what its message does, written as a string. -/
theorem leaks_errorBody_iff (message : Text) :
    Leaks ip.display (errorBody message) ↔ Leaks ip.display (Json.escaped message) := by
  have hfront : ¬ Leaks ip.display
      "\x7b\"error\":\x7b\"code\":\"Base.1.0.GeneralError\",\"message\":".toList :=
    not_leaks_of_noSep (noSep_of_splitOnce (by decide))
  have hback : ¬ Leaks ip.display "\x7d\x7d".toList :=
    not_leaks_of_noSep (noSep_of_splitOnce (by decide))
  have hshape : errorBody message =
      "\x7b\"error\":\x7b\"code\":\"Base.1.0.GeneralError\",\"message\":".toList ++
        '"' :: (Json.escaped message ++ '"' :: "\x7d\x7d".toList) := by
    unfold errorBody Json.quote
    rw [List.append_assoc, List.append_assoc]
    rfl
  rw [hshape, leaks_break (by decide), leaks_break (by decide)]
  tauto

/-- Nothing in front of the error, which ends in a space, shows the target. -/
theorem leaks_message_iff {lead : Text} (hquiet : lead.splitOnce sep = none)
    (hlast : lead.getLast? = some ' ') (text : Text) :
    Leaks ip.display (Json.escaped (lead ++ text)) ↔ Leaks ip.display (Json.escaped text) := by
  obtain ⟨front, rfl⟩ := List.getLast?_eq_some_iff.mp hlast
  have hnone : ¬ Leaks ip.display (Json.escaped (front ++ [' '])) :=
    not_leaks_of_noSep (noSep_of_splitOnce hquiet).escaped
  rw [Json.escaped_append, leaks_join (.inl ⟨Json.escaped front, ' ', by simp; rfl, by decide⟩)]
  tauto

/-- A string is written twice over: by `render`, and in the body. -/
theorem leaks_quote_iff (text : Text) :
    Leaks ip.display (Json.escaped (Json.quote text)) ↔ Leaks ip.display (twice text) := by
  have hopen : Json.escaped (Json.quote text) =
      '\\' :: '"' :: (twice text ++ '\\' :: ['"']) := by
    unfold Json.quote twice
    rw [List.cons_append, Json.escaped_cons, Json.escaped_append]
    rfl
  have hfirst : Leaks ip.display ('\\' :: '"' :: (twice text ++ '\\' :: ['"'])) ↔ _ :=
    leaks_break (by decide) [] _
  have hsecond : Leaks ip.display ('"' :: (twice text ++ '\\' :: ['"'])) ↔ _ :=
    leaks_break (by decide) [] _
  have hlast : Leaks ip.display ['"'] ↔ _ := leaks_break (by decide) [] []
  rw [hopen, hfirst, hsecond, leaks_break (by decide), hlast]
  simp [not_leaks_nil]

end Shows

/-- The condition: no client error names the URL of its request, and no text
that the run chose and the error quotes, a path, a method, a header name, a
member link, a level, an error of its own, shows the target where it is quoted. -/
def Ended.Clean {ν V σ ρ : Type} {host : Host ν V σ} {ctx : RequestCtx} :
    Ended host ctx ρ → Prop
  | .noUnit script => ¬ Leaks ctx.target.ip.display (Json.escaped script)
  | .notCalled _ => True
  | .failed error => ¬ Leaks ctx.target.ip.display (Json.escaped error)
  | .propagated _ _ fault _ =>
    ∀ part ∈ fault, ¬ part.Shows host.unprintable ctx.target.ip.display
  | .returned (.err error) => ¬ Leaks ctx.target.ip.display (Json.escaped (render error))
  | .returned _ => True

section Main

variable {ν V σ ρ : Type} {host : Host ν V σ} {ctx : RequestCtx}

theorem not_leaks_returnedValue {value : Value ρ} {failure : Failure}
    (h : returnedValue value = .error failure) :
    ¬ Leaks ctx.target.ip.display (Json.escaped failure.message) := by
  have hread : ∀ error : Complaint, ¬ Leaks ctx.target.ip.display
      (Json.escaped ("reading the response: ".toList ++ error.text)) := by
    intro error
    rw [leaks_message_iff (by decide) (by decide)]
    exact not_leaks_of_noSep error.quiet.escaped
  have hother : ¬ Leaks ctx.target.ip.display (Json.escaped
      "handler must return a resp::* or bmc::forward value, got something else".toList) :=
    not_leaks_of_noSep (noSep_of_splitOnce (by decide)).escaped
  unfold returnedValue at h
  split at h
  · cases h
  · injection h with h
    rw [← h]
    exact hread _
  · cases h
  · injection h with h
    rw [← h]
    exact hread _
  · injection h with h
    rw [← h]
    exact hother

/-- An error a `?` hands on shows what its parts do. -/
theorem leaks_propagated_iff {unprintable : Char → Bool} {raised : TransportError → Prop}
    {fault : Fault} (h : Fault.WellFormed raised ctx.target fault) :
    Leaks ctx.target.ip.display (Json.escaped ("handler returned an error: ".toList ++
      Json.quote (Fault.text unprintable fault))) ↔
      ∃ part ∈ fault, part.Shows unprintable ctx.target.ip.display := by
  rw [leaks_message_iff (by decide) (by decide), leaks_quote_iff]
  exact leaks_text_iff h

/-- **The failure path hides the target exactly when what ended the run does.** -/
theorem failure_clean_iff (ended : Ended host ctx ρ) {error : Proxy.ProxyError}
    (h : runScript ended = .error error) :
    ¬ Leaks ctx.target.ip.display (intoResponse error).2 ↔ ended.Clean := by
  cases hfailure : execute ended with
  | ok response =>
      rw [runScript, hfailure] at h
      cases h
  | error failure =>
      rw [runScript, hfailure] at h
      injection h with h
      have hbody : Leaks ctx.target.ip.display (intoResponse error).2 ↔
          Leaks ctx.target.ip.display (Json.escaped failure.message) := by
        rw [← h]
        exact leaks_errorBody_iff _
      rw [hbody]
      -- one case for each way a run ends
      cases ended with
      | noUnit script =>
          injection hfailure with hfailure
          rw [← hfailure]
          exact not_congr (leaks_message_iff (by decide) (by decide) script)
      | notCalled complaint =>
          injection hfailure with hfailure
          rw [← hfailure]
          refine iff_of_true ?_ trivial
          show ¬ Leaks _ (Json.escaped ("calling handle: ".toList ++ complaint.text))
          rw [leaks_message_iff (by decide) (by decide)]
          exact not_leaks_of_noSep complaint.quiet.escaped
      | failed text =>
          injection hfailure with hfailure
          rw [← hfailure]
          exact not_congr (leaks_message_iff (by decide) (by decide) text)
      | propagated call world fault fails =>
          injection hfailure with hfailure
          rw [← hfailure]
          -- the calls of the module are traced to the text they fail with
          refine (not_congr (leaks_propagated_iff (runCall_wellFormed call world fault fails))).trans ?_
          simp only [not_exists, not_and]
          exact Iff.rfl
      | returned outcome =>
          cases outcome with
          | err value =>
              injection hfailure with hfailure
              rw [← hfailure]
              exact not_congr (leaks_message_iff (by decide) (by decide) (render value))
          | ok value => exact iff_of_true (not_leaks_returnedValue hfailure) trivial
          | bare value => exact iff_of_true (not_leaks_returnedValue hfailure) trivial

end Main

/-! ## A BMC that does not answer -/

/-- What the client says when it cannot connect. -/
def unreachable : TransportError where
  what := ⟨"error sending request".toList, noSep_of_splitOnce (by decide)⟩
  named := some []
  isTimeout := false

/-- Serde on an empty body. -/
def emptyBody : Complaint :=
  ⟨"EOF while parsing a value at line 1 column 0".toList, noSep_of_splitOnce (by decide)⟩

/-- A host whose client reaches nobody. -/
def unreachableHost : Host Nat Unit Unit where
  fromSlice _ := .error emptyBody
  toVec _ := .ok "null".toUTF8.toList
  fromValue _ := .ok ()
  scriptFromSlice _ := .error emptyBody
  scriptToVec _ := .ok "null".toUTF8.toList
  ofNat n := n
  fromUtf8 _ := .ok []
  decodeBase64 _ := .ok []
  urlPath _ := none
  parseHost := some
  pathSet _ := false
  unprintable _ := false
  client _ net := (.error unreachable, net)
  parseHost_display _ := rfl

def getParts : Parts where
  method := .GET
  uri := { path := "/redfish/v1".toList, query := none }
  headers := .new

def getCtx : RequestCtx := requestCtx bmcTarget proxyBase getParts []

/-- `bmc::get("redfish/v1")?`: refused before it is sent. -/
def relativeGet : Ended unreachableHost getCtx Unit :=
  .propagated (.get "redfish/v1".toList) ⟨none, ()⟩ _ rfl

theorem failure_clean_iff_relative :
    ∃ error, runScript relativeGet = .error error ∧
      (¬ Leaks bmcTarget.ip.display (intoResponse error).2 ↔ relativeGet.Clean) :=
  ⟨_, rfl, failure_clean_iff relativeGet rfl⟩

/-- `bmc::get("/redfish/v1")?`, sent and not answered: the body names the URL of
the BMC. -/
theorem unanswered_get_leaks :
    ∃ (ended : Ended unreachableHost getCtx Unit) (error : Proxy.ProxyError),
      runScript ended = .error error ∧ Leaks bmcTarget.ip.display (intoResponse error).2 := by
  have hfails : ∃ url, ((runCall unreachableHost getCtx (.get "/redfish/v1".toList)).run.run
      ⟨none, ()⟩).1 = .error [.lit "subrequest to ".toList, .display "/redfish/v1".toList,
        .lit " failed: ".toList, .transport unreachable url] := ⟨_, rfl⟩
  obtain ⟨url, fails⟩ := hfails
  refine ⟨.propagated _ _ _ fails, _, rfl, (leaks_errorBody_iff _).mpr ?_⟩
  refine (leaks_propagated_iff (runCall_wellFormed _ _ _ fails)).mpr ?_
  exact ⟨.transport unreachable url, by simp, rfl⟩

end RedfishProxy.RuneHost
