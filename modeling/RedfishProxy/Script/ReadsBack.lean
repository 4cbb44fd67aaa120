import RedfishProxy.Script.Relay
import RedfishProxy.Script.Visible

/-!
# A header on the way in and on the way back

`script_request` collects the headers that can be read into a map, which keeps
the last value of a name. `readable_header` takes the first value, and then sees
whether it can be read. `content_type`, which a relayed request is seeded with,
does the latter.

Main result:
* `readsBack_iff`: the two agree on the header maps whose first values are the
  last that can be read.
-/

namespace RedfishProxy.Script

open Lib Http

/-- Of the values of a header none can be read, or the first can, and the last
one that can is the same. -/
def ReadsAlike (values : List HeaderValue) : Prop :=
  (∀ value ∈ values, isReadable value = false) ∨
    ∃ value, values.head? = some value ∧ (values.filter isReadable).getLast? = some value

/-- What a handler reads of the request is what it would read of a reply with
these headers, and what a relayed request is seeded with. -/
structure ReadsBack (parts : Parts) (body : List UInt8) : Prop where
  header : ∀ name, (scriptRequest parts body).header name = readableHeader parts.headers name
  contentType : (scriptRequest parts body).contentType = contentType parts.headers
  isJson : (scriptRequest parts body).isJson = isJson parts.headers
  seed : ∀ target base, (inbound (requestCtx target base parts body)).contentType =
    (scriptRequest parts body).contentType

/-! ## What the map keeps -/

/-- The texts of the values of a header that can be read. -/
def texts (headers : HeaderMap) (n : HeaderName) : List Text :=
  (headers.getAll n).filterMap HeaderValue.toStr

/-- The entries of a name, as the map is given them. -/
theorem filter_readableEntry (headers : HeaderMap) (n : HeaderName) :
    ((headers.entries.filterMap readableEntry).filter fun header => header.1 = n.name).map
      Prod.snd = if isRedacted n.name then [] else texts headers n := by
  unfold texts HeaderMap.getAll
  induction headers.entries with
  | nil => split <;> rfl
  | cons e entries ih =>
      unfold readableEntry at ih ⊢
      rw [List.filterMap_cons, List.filterMap_cons]
      by_cases he : e.1 = n
      · subst he
        cases hredacted : isRedacted e.1.name with
        | true => simpa [hredacted] using ih
        | false =>
            cases htext : e.2.toStr with
            | none => simpa [hredacted, htext] using ih
            | some text => simpa [hredacted, htext, e.1.map_toLower_name] using ih
      · have hname : e.1.name ≠ n.name := fun h => he (HeaderName.ext h)
        rw [if_neg he]
        cases hredacted : isRedacted e.1.name with
        | true => simpa [hredacted] using ih
        | false =>
            cases htext : e.2.toStr with
            | none => simpa [hredacted, htext] using ih
            | some text => simpa [hredacted, htext, e.1.map_toLower_name, hname] using ih

/-- **A header of the request** is the last value of the name that can be read. -/
theorem header_scriptRequest (parts : Parts) (body : List UInt8) (name : Text) :
    (scriptRequest parts body).header name =
      if isRedacted name then none
      else (HeaderName.fromBytes name).bind fun n => (texts parts.headers n).getLast? := by
  unfold ScriptRequest.header scriptRequest
  dsimp only
  rw [KeyMap.lookup_foldl_insert, AList.lookup_empty, Option.or_none]
  cases hname : HeaderName.fromBytes name with
  | none =>
      -- the map holds names only, and this is none of them
      have hnone : (parts.headers.entries.filterMap readableEntry).filter
          (fun header => header.1 = name.map Char.toLower) = [] := by
        refine List.filter_eq_nil_iff.mpr fun header hheader heq => ?_
        obtain ⟨e, _, he⟩ := List.mem_filterMap.mp hheader
        unfold readableEntry at he
        split at he
        · cases he
        · obtain ⟨text, _, rfl⟩ := Option.map_eq_some_iff.mp he
          have hlower : name.map Char.toLower = e.1.name := by
            rw [← e.1.map_toLower_name]
            exact (of_decide_eq_true heq).symm
          rw [HeaderName.fromBytes_of_map_toLower hlower] at hname
          cases hname
      rw [hnone]
      split <;> rfl
  | some n =>
      rw [← HeaderName.name_of_fromBytes hname, filter_readableEntry,
        isRedacted_of_fromBytes hname]
      split <;> rfl

/-! ## The first and the last -/

theorem texts_eq (headers : HeaderMap) (n : HeaderName) :
    (texts headers n).getLast? =
      ((headers.getAll n).filter isReadable).getLast?.bind HeaderValue.toStr := by
  unfold texts
  induction headers.getAll n using List.reverseRecOn with
  | nil => rfl
  | append_singleton values value ih =>
      rw [List.filterMap_append, List.filter_append, List.filter_singleton]
      cases htext : value.toStr with
      | none => simpa [isReadable, htext] using ih
      | some text => simp [isReadable, htext]

/-- The last that can be read is the first read, or neither is there. -/
theorem readsAlike_iff (headers : HeaderMap) (n : HeaderName) :
    (texts headers n).getLast? = (headers.get n).bind HeaderValue.toStr ↔
      ReadsAlike (headers.getAll n) := by
  rw [texts_eq]
  unfold HeaderMap.get ReadsAlike
  cases hlast : ((headers.getAll n).filter isReadable).getLast? with
  | none =>
      have hnone : ∀ value ∈ headers.getAll n, isReadable value = false := by
        intro value hvalue
        rw [List.getLast?_eq_none_iff, List.filter_eq_nil_iff] at hlast
        exact Bool.eq_false_iff.mpr (hlast value hvalue)
      refine iff_of_true ?_ (.inl hnone)
      cases hhead : (headers.getAll n).head? with
      | none => rfl
      | some value =>
          have hread := hnone value (List.mem_of_head? hhead)
          exact (Option.isNone_iff_eq_none.mp (Option.isSome_eq_false_iff.mp hread)).symm
  | some last =>
      have hmem := List.mem_filter.mp (List.mem_of_getLast? hlast)
      obtain ⟨text, htext⟩ := Option.isSome_iff_exists.mp hmem.2
      rw [Option.bind_some, htext]
      constructor
      · intro h
        obtain ⟨value, hhead, hvalue⟩ := Option.bind_eq_some_iff.mp h.symm
        obtain rfl := HeaderValue.eq_of_toStr hvalue htext
        exact .inr ⟨value, hhead, rfl⟩
      · rintro (hnone | ⟨value, hhead, hvalue⟩)
        · rw [hnone last hmem.1] at hmem
          cases hmem.2
        · obtain rfl := Option.some.inj hvalue
          rw [hhead, Option.bind_some, htext]

/-- One name is read the same where it may not be read at all, or where its
values read alike. -/
theorem header_eq_iff (parts : Parts) (body : List UInt8) (name : Text) :
    (scriptRequest parts body).header name = readableHeader parts.headers name ↔
      isRedacted name = false → ∀ n, HeaderName.fromBytes name = some n →
        ReadsAlike (parts.headers.getAll n) := by
  rw [header_scriptRequest]
  unfold readableHeader
  cases isRedacted name with
  | true => simp
  | false =>
      cases HeaderName.fromBytes name with
      | none => simp
      | some n => simpa using readsAlike_iff parts.headers n

/-- **A header reads the same both ways** exactly where, under every name that is
no credential, the first value is the last that can be read, or none can. -/
theorem readsBack_iff (parts : Parts) (body : List UInt8) :
    ReadsBack parts body ↔
      ∀ n : HeaderName, isRedacted n.name = false → ReadsAlike (parts.headers.getAll n) := by
  constructor
  · intro h n hn
    exact (header_eq_iff parts body n.name).mp (h.header n.name) hn n (HeaderName.fromBytes_name n)
  · intro h
    have hheader : ∀ name,
        (scriptRequest parts body).header name = readableHeader parts.headers name := by
      intro name
      refine (header_eq_iff parts body name).mpr fun hname n hn => h n ?_
      rw [isRedacted_of_fromBytes hn, hname]
    have htype : (scriptRequest parts body).contentType = contentType parts.headers :=
      hheader "content-type".toList
    refine ⟨hheader, htype, ?_, fun _ _ => htype.symm⟩
    unfold ScriptRequest.isJson isJson
    rw [htype]

def jsonType : HeaderValue := ⟨"application/json".toList.flatMap String.utf8EncodeChar, by decide⟩

def plainType : HeaderValue := ⟨"text/plain".toList.flatMap String.utf8EncodeChar, by decide⟩

/-- `Content-Type: application/json` and, behind it, `Content-Type: text/plain`. -/
def twoTypes : Parts where
  method := .PATCH
  uri := { path := "/redfish/v1/AccountService/Accounts/2".toList, query := none }
  headers := (HeaderMap.new.append CONTENT_TYPE jsonType).append CONTENT_TYPE plainType

/-- The handler reads the second type, and the rest of the proxy the first. -/
theorem readsBack_twoTypes :
    (scriptRequest twoTypes []).header "Content-Type".toList = some "text/plain".toList ∧
      readableHeader twoTypes.headers "Content-Type".toList = some "application/json".toList ∧
      (scriptRequest twoTypes []).isJson = false ∧ isJson twoTypes.headers = true ∧
      ¬ ReadsBack twoTypes [] := by
  have hjson : isJson twoTypes.headers = true := by decide
  have hscript : (scriptRequest twoTypes []).isJson = false := by decide
  refine ⟨by decide, by decide, hscript, hjson, fun h => ?_⟩
  have hsame := h.isJson
  rw [hscript, hjson] at hsame
  cases hsame

end RedfishProxy.Script
