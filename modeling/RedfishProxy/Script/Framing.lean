import RedfishProxy.RuneHost.Failure
import RedfishProxy.Script.ResponseCalls

/-!
# How a scripted response is framed

The type of a response is kept beside its headers. The final step appends a
`Content-Type` among the headers to it, where `rewrite` leaves it out; and
`rewrite` drops values that cannot be read, which the final step sends. So both
tell whether `rewrite` was called.

Main result:
* `framed_once_iff`: a chain is framed once exactly where neither makes a
  difference.
-/

namespace RedfishProxy.Script

open Lib Http

/-! ## Since the last `rewrite` -/

namespace ResponseCall

/-- The headers set since the last `rewrite`, after one more call. -/
def track (set : List (Text × Text)) : ResponseCall → List (Text × Text)
  | withHeader name value => set ++ [(name, value)]
  | rewrite => []

def sinceRewrite (calls : List ResponseCall) : List (Text × Text) := calls.foldl track []

def added : ResponseCall → Option (Text × Text)
  | withHeader name value => some (name, value)
  | rewrite => none

end ResponseCall

open ResponseCall

/-- The headers of the response are those set since the last `rewrite`, after
some with readable values and no `Content-Type`. -/
def SetSince (response : ScriptResponse) (set : List (Text × Text)) : Prop :=
  ∃ kept, response.headers = kept ++ set ∧
    ∀ n, ∀ value ∈ kept.filterMap (scriptValue n), n ≠ CONTENT_TYPE ∧ isReadable value = true

section Chain

variable {ν V σ : Type} {host : Host ν V σ} {ctx : RequestCtx}
  {response response' last : ScriptResponse} {set : List (Text × Text)}
  {calls : List ResponseCall}

theorem SetSince.apply {call : ResponseCall} (hset : SetSince response set)
    (h : call.apply host ctx response = .ok response') : SetSince response' (track set call) := by
  cases call with
  | withHeader name value =>
      obtain ⟨kept, hheaders, hkept⟩ := hset
      obtain rfl := Except.ok.inj h
      refine ⟨kept, ?_, hkept⟩
      show response.headers ++ _ = kept ++ (set ++ _)
      rw [hheaders, List.append_assoc]
  | rewrite =>
      refine ⟨response'.headers, (List.append_nil _).symm, ?_⟩
      intro n value hvalue
      have hvalues := values_rewrite h n
      rw [ScriptResponse.values] at hvalues
      rw [hvalues] at hvalue
      split at hvalue
      · cases hvalue
      · rename_i hn
        exact ⟨hn, (List.mem_filter.mp hvalue).2⟩

theorem SetSince.run (hset : SetSince response set)
    (h : run host ctx response calls = .ok last) : SetSince last (calls.foldl track set) := by
  induction calls generalizing response set with
  | nil =>
      obtain rfl := Except.ok.inj h
      exact hset
  | cons call calls ih =>
      rw [ResponseCall.run, List.foldlM_cons] at h
      obtain ⟨next, hcall, hrest⟩ := bind_ok h
      exact ih (hset.apply hcall) hrest

theorem setSince_started {started : Started V}
    (h : run host ctx (started.response host) calls = .ok last) :
    SetSince last (sinceRewrite calls) := by
  have hstart : SetSince (started.response host) [] := by
    refine ⟨[], ?_, nofun⟩
    cases started with
    | json status value =>
        show (jsonResponse host status.toNat value).headers = []
        unfold jsonResponse
        cases host.scriptToVec value <;> rfl
    | text status body => rfl
    | code status => rfl
  exact hstart.run h

theorem SetSince.values_type (hset : SetSince response set) :
    response.values CONTENT_TYPE = set.filterMap (scriptValue CONTENT_TYPE) := by
  obtain ⟨kept, hheaders, hkept⟩ := hset
  rw [ScriptResponse.values, hheaders, List.filterMap_append]
  have hnone : kept.filterMap (scriptValue CONTENT_TYPE) = [] :=
    List.eq_nil_iff_forall_not_mem.mpr fun value hvalue => (hkept _ value hvalue).1 rfl
  rw [hnone, List.nil_append]

theorem SetSince.readable_iff (hset : SetSince response set) (n : HeaderName) :
    (response.values n).filter isReadable = response.values n ↔
      ∀ header ∈ set, ∀ value, scriptValue n header = some value → isReadable value = true := by
  obtain ⟨kept, hheaders, hkept⟩ := hset
  rw [ScriptResponse.values, hheaders, List.filterMap_append, List.filter_eq_self]
  constructor
  · intro h header hheader value hvalue
    exact h value (List.mem_append_right _ (List.mem_filterMap.mpr ⟨header, hheader, hvalue⟩))
  · intro h value hvalue
    rcases List.mem_append.mp hvalue with hvalue | hvalue
    · exact (hkept n value hvalue).2
    · obtain ⟨header, hheader, hvalue⟩ := List.mem_filterMap.mp hvalue
      exact h header hheader value hvalue

/-- A chain without `rewrite` adds its headers. -/
theorem run_of_free (hfree : ∀ call ∈ calls, call ≠ .rewrite) (response : ScriptResponse) :
    run host ctx response calls =
      .ok { response with headers := response.headers ++ calls.filterMap added } := by
  induction calls generalizing response with
  | nil =>
      show Except.ok response = _
      simp
  | cons call calls ih =>
      cases call with
      | rewrite => exact absurd rfl (hfree _ (by simp))
      | withHeader name value =>
          show run host ctx (response.withHeader name value) calls = _
          rw [ih fun call hcall => hfree call (by simp [hcall])]
          simp [ScriptResponse.withHeader, added]

theorem foldl_track_of_free (hfree : ∀ call ∈ calls, call ≠ .rewrite) (set : List (Text × Text)) :
    calls.foldl track set = set ++ calls.filterMap added := by
  induction calls generalizing set with
  | nil => simp
  | cons call calls ih =>
      cases call with
      | rewrite => exact absurd rfl (hfree _ (by simp))
      | withHeader name value =>
          rw [List.foldl_cons, ih fun call hcall => hfree call (by simp [hcall])]
          simp [track, added]

theorem sinceRewrite_append {done : List ResponseCall}
    (hfree : ∀ call ∈ calls, call ≠ .rewrite) :
    sinceRewrite (done ++ calls) = sinceRewrite done ++ calls.filterMap added := by
  rw [sinceRewrite, List.foldl_append, foldl_track_of_free hfree]
  rfl

theorem run_append {done rest : List ResponseCall} {here : ScriptResponse}
    (h : run host ctx response done = .ok here) :
    run host ctx response (done ++ rest) = run host ctx here rest := by
  rw [run, List.foldlM_append, ← run, h]
  rfl

end Chain

/-! ## Responses that differ by what `rewrite` drops -/

/-- They give every name the same values. -/
def SameValues (first second : ScriptResponse) : Prop :=
  first.contentType = second.contentType ∧ ∀ n, first.values n = second.values n

/-- They give every name but `Content-Type` the same readable values. -/
def SameReadable (first second : ScriptResponse) : Prop :=
  first.contentType = second.contentType ∧ ∀ n, n ≠ CONTENT_TYPE →
    (first.values n).filter isReadable = (second.values n).filter isReadable

theorem SameValues.sameReadable {first second : ScriptResponse} (h : SameValues first second) :
    SameReadable first second :=
  ⟨h.1, fun n _ => by rw [h.2]⟩

section Same

variable {ν V σ : Type} {host : Host ν V σ} {ctx : RequestCtx}
  {first second first' second' : ScriptResponse} {call : ResponseCall} {calls : List ResponseCall}

theorem values_withHeader (response : ScriptResponse) (name value : Text) (n : HeaderName) :
    (response.withHeader name value).values n =
      response.values n ++ [(name, value)].filterMap (scriptValue n) :=
  List.filterMap_append

/-- A `rewrite` makes them the same. -/
theorem SameReadable.rewrite (hsame : SameReadable first second)
    (h : first.rewrite host ctx = .ok first') (h' : second.rewrite host ctx = .ok second') :
    SameValues first' second' := by
  refine ⟨?_, fun n => ?_⟩
  · rw [contentType_rewrite h, contentType_rewrite h', hsame.1]
  · rw [values_rewrite h, values_rewrite h']
    split
    · rfl
    · rename_i hn
      rw [filter_map_swapValue, filter_map_swapValue, hsame.2 n hn]

theorem SameReadable.apply (hsame : SameReadable first second)
    (h : call.apply host ctx first = .ok first') (h' : call.apply host ctx second = .ok second') :
    SameReadable first' second' := by
  cases call with
  | rewrite => exact (hsame.rewrite h h').sameReadable
  | withHeader name value =>
      obtain rfl := Except.ok.inj h
      obtain rfl := Except.ok.inj h'
      refine ⟨hsame.1, fun n hn => ?_⟩
      rw [values_withHeader, values_withHeader, List.filter_append, List.filter_append,
        hsame.2 n hn]

theorem SameValues.apply (hsame : SameValues first second)
    (h : call.apply host ctx first = .ok first') (h' : call.apply host ctx second = .ok second') :
    SameValues first' second' := by
  cases call with
  | rewrite => exact hsame.sameReadable.rewrite h h'
  | withHeader name value =>
      obtain rfl := Except.ok.inj h
      obtain rfl := Except.ok.inj h'
      refine ⟨hsame.1, fun n => ?_⟩
      rw [values_withHeader, values_withHeader, hsame.2]

/-- A chain with a `rewrite` in it makes them the same. -/
theorem SameReadable.run (hsame : SameReadable first second) (hmem : .rewrite ∈ calls)
    (h : run host ctx first calls = .ok first') (h' : run host ctx second calls = .ok second') :
    SameValues first' second' := by
  obtain ⟨before, after, rfl⟩ := List.append_of_mem hmem
  obtain ⟨third, hthird, h⟩ := foldlM_append_ok h
  obtain ⟨fourth, hfourth, h'⟩ := foldlM_append_ok h'
  rw [List.foldlM_cons] at h h'
  obtain ⟨fifth, hfifth, h⟩ := bind_ok h
  obtain ⟨sixth, hsixth, h'⟩ := bind_ok h'
  have hbefore : SameReadable third fourth := by
    refine foldlM_related SameReadable ?_ hsame hthird hfourth
    exact fun _ _ _ _ _ => SameReadable.apply
  refine foldlM_related SameValues ?_ (hbefore.rewrite hfifth hsixth) h h'
  exact fun _ _ _ _ _ => SameValues.apply

theorem SameValues.getAll_finish (hsame : SameValues first second) {n : HeaderName}
    (hn : n ≠ CONTENT_LENGTH) :
    (finishScriptResponse first).headers.getAll n =
      (finishScriptResponse second).headers.getAll n := by
  rw [ScriptResponse.getAll_finish hn, ScriptResponse.getAll_finish hn, hsame.1, hsame.2]

end Same

/-! ## Framed once -/

section Framed

variable {ν V σ : Type} (host : Host ν V σ) (ctx : RequestCtx)

/-- A `rewrite` of the response would find no URL to change. -/
structure ChangesNoUrl (response : ScriptResponse) : Prop where
  headers : ∀ n, (rewriteHeaders ctx.target ctx.base.asStr response.headerMap).getAll n =
    response.headerMap.getAll n
  body : isJson response.headerMap = true → ∀ value, host.fromSlice response.body = .ok value →
    rewriteValue ctx.target ctx.base.asStr value = value

/-- What is sent for the last response of a chain has one length, that of the
body, and one type; and a `rewrite` put in where it changes no URL makes no
difference to another header. -/
structure FramedOnce (start : ScriptResponse) (calls : List ResponseCall)
    (last : ScriptResponse) : Prop where
  length : ∃ body, (finishScriptResponse last).body = .buffered body ∧
    (finishScriptResponse last).headers.getAll CONTENT_LENGTH = [lengthValue body]
  type : ((finishScriptResponse last).headers.getAll CONTENT_TYPE).length = 1
  stable : ∀ done rest here other, calls = done ++ rest → run host ctx start done = .ok here →
    ChangesNoUrl host ctx here → run host ctx start (done ++ .rewrite :: rest) = .ok other →
      ∀ n, n ≠ CONTENT_LENGTH → (finishScriptResponse other).headers.getAll n =
        (finishScriptResponse last).headers.getAll n

/-- Since the last `rewrite`, no `Content-Type` is set; and where a further one
would change no URL, nothing is set before it that is sent and cannot be read. -/
structure KeepsFrame (start : ScriptResponse) (calls : List ResponseCall) : Prop where
  noType : ∀ header ∈ sinceRewrite calls, scriptValue CONTENT_TYPE header = none
  readable : ∀ done rest here other, calls = done ++ rest → (∀ call ∈ rest, call ≠ .rewrite) →
    run host ctx start done = .ok here → ChangesNoUrl host ctx here →
      here.rewrite host ctx = .ok other → ∀ header ∈ sinceRewrite done, ∀ n value,
        scriptValue n header = some value → isDropped n = false → n ≠ CONTENT_LENGTH →
          isReadable value = true

variable {host ctx} {response response' : ScriptResponse} {n : HeaderName}

/-- What such a `rewrite` leaves. -/
theorem values_of_changesNoUrl (hkeeps : ChangesNoUrl host ctx response)
    (h : response.rewrite host ctx = .ok response') (hn : n ≠ CONTENT_TYPE) :
    response'.values n = (response.values n).filter isReadable := by
  have hmap := hkeeps.headers n
  rw [getAll_rewrittenMap hn, ScriptResponse.getAll_headerMap, getAll_typeHeader, if_neg hn,
    List.nil_append] at hmap
  rw [values_rewrite h, if_neg hn, hmap]

theorem getAll_typeHeader_started (started : Started V) :
    ∃ value, (typeHeader (started.response host).contentType).getAll CONTENT_TYPE = [value] := by
  have hjson : ∃ value, (typeHeader "application/json".toList).getAll CONTENT_TYPE = [value] :=
    ⟨_, rfl⟩
  cases started with
  | json status value =>
      have htype : (jsonResponse host status.toNat value).contentType =
          "application/json".toList := by
        unfold jsonResponse
        cases host.scriptToVec value <;> rfl
      show ∃ found, (typeHeader (jsonResponse host status.toNat value).contentType).getAll
        CONTENT_TYPE = [found]
      rw [htype]
      exact hjson
  | text status body => exact ⟨_, rfl⟩
  | code status => exact hjson

theorem contentType_of_run {calls : List ResponseCall}
    (h : run host ctx response calls = .ok response') :
    response'.contentType = response.contentType := by
  refine foldlM_invariant (fun r => r.contentType = response.contentType) ?_ h rfl
  intro before next call _ hcall hinv
  cases call with
  | withHeader name value =>
      obtain rfl := Except.ok.inj hcall
      exact hinv
  | rewrite => rw [contentType_rewrite hcall, hinv]

/-- What a chain without `rewrite` sends of a name shows what it started with. -/
theorem getAll_finish_free_iff {here other last last' : ScriptResponse}
    {rest : List ResponseCall} (hfree : ∀ call ∈ rest, call ≠ .rewrite)
    (htype : other.contentType = here.contentType) (h : run host ctx here rest = .ok last)
    (h' : run host ctx other rest = .ok last') (hn : n ≠ CONTENT_LENGTH) :
    (finishScriptResponse last').headers.getAll n = (finishScriptResponse last).headers.getAll n ↔
      isDropped n = true ∨ other.values n = here.values n := by
  rw [run_of_free hfree] at h h'
  obtain rfl := Except.ok.inj h
  obtain rfl := Except.ok.inj h'
  rw [ScriptResponse.getAll_finish hn, ScriptResponse.getAll_finish hn]
  have hvalues : ∀ response : ScriptResponse, ScriptResponse.values
      { response with headers := response.headers ++ rest.filterMap added } n =
        response.values n ++ (rest.filterMap added).filterMap (scriptValue n) :=
    fun response => List.filterMap_append
  cases isDropped n with
  | true => simp [htype]
  | false =>
      rw [hvalues, hvalues]
      simp [htype]

variable {calls : List ResponseCall} {started : Started V} {last : ScriptResponse}

theorem length_getAll_type_iff (h : run host ctx (started.response host) calls = .ok last) :
    ((finishScriptResponse last).headers.getAll CONTENT_TYPE).length = 1 ↔
      ∀ header ∈ sinceRewrite calls, scriptValue CONTENT_TYPE header = none := by
  have hsent : isDropped CONTENT_TYPE = false := by decide
  obtain ⟨value, hvalue⟩ : ∃ value,
      (typeHeader (started.response host).contentType).getAll CONTENT_TYPE = [value] :=
    getAll_typeHeader_started started
  rw [ScriptResponse.getAll_finish (by decide), contentType_of_run h, hvalue, hsent,
    if_neg Bool.false_ne_true, (setSince_started h).values_type, ← List.filterMap_eq_nil_iff]
  simp

theorem FramedOnce.keepsFrame (h : run host ctx (started.response host) calls = .ok last)
    (hframed : FramedOnce host ctx (started.response host) calls last) :
    KeepsFrame host ctx (started.response host) calls := by
  have hnone := (length_getAll_type_iff h).mp hframed.type
  refine ⟨hnone, ?_⟩
  rintro done rest here other rfl hfree hhere hchanges hrewrite header hheader n value hvalue
    hsent hn
  have hne : n ≠ CONTENT_TYPE := by
    rintro rfl
    rw [sinceRewrite_append hfree] at hnone
    rw [hnone header (List.mem_append_left _ hheader)] at hvalue
    cases hvalue
  have hother : run host ctx other rest = .ok _ := run_of_free hfree other
  have hinserted : run host ctx (started.response host) (done ++ .rewrite :: rest) =
      run host ctx other rest := by
    rw [run_append hhere]
    show here.rewrite host ctx >>= _ = _
    rw [hrewrite]
    rfl
  have hsame := hframed.stable done rest here _ rfl hhere hchanges (hinserted.trans hother) n hn
  rw [run_append hhere] at h
  rw [getAll_finish_free_iff hfree (contentType_rewrite hrewrite) h hother hn, hsent,
    values_of_changesNoUrl hchanges hrewrite hne] at hsame
  have hvalues := hsame.resolve_left Bool.false_ne_true
  exact ((setSince_started hhere).readable_iff n).mp hvalues header hheader value hvalue

/-- At the end of a chain that keeps the frame, a `rewrite` that changes no URL
changes no value that is sent. -/
theorem KeepsFrame.values_eq {done rest : List ResponseCall} {here next : ScriptResponse}
    (hkeeps : KeepsFrame host ctx (started.response host) (done ++ rest))
    (hfree : ∀ call ∈ rest, call ≠ .rewrite)
    (hhere : run host ctx (started.response host) done = .ok here)
    (hchanges : ChangesNoUrl host ctx here) (hrewrite : here.rewrite host ctx = .ok next)
    (hsent : isDropped n = false) (hn : n ≠ CONTENT_LENGTH) : next.values n = here.values n := by
  have hset := setSince_started hhere
  by_cases hne : n = CONTENT_TYPE
  · subst hne
    have hnone := hkeeps.noType
    rw [sinceRewrite_append hfree] at hnone
    rw [values_rewrite hrewrite, if_pos rfl, hset.values_type, eq_comm,
      List.filterMap_eq_nil_iff]
    exact fun header hheader => hnone header (List.mem_append_left _ hheader)
  · rw [values_of_changesNoUrl hchanges hrewrite hne]
    refine (hset.readable_iff n).mpr fun header hheader value hvalue => ?_
    exact hkeeps.readable done rest here next rfl hfree hhere hchanges hrewrite header hheader n
      value hvalue hsent hn

theorem KeepsFrame.framedOnce (h : run host ctx (started.response host) calls = .ok last)
    (hkeeps : KeepsFrame host ctx (started.response host) calls) :
    FramedOnce host ctx (started.response host) calls last := by
  refine ⟨⟨_, rfl, ScriptResponse.getAll_finish_length last⟩,
    (length_getAll_type_iff h).mpr hkeeps.noType, ?_⟩
  rintro done rest here other rfl hhere hchanges hother n hn
  rw [run_append hhere] at h hother
  obtain ⟨next, hrewrite, hother⟩ := bind_ok hother
  by_cases hmem : .rewrite ∈ rest
  · -- the next `rewrite` drops the same
    have hsame : SameReadable next here := by
      refine ⟨contentType_rewrite hrewrite, fun n hn => ?_⟩
      rw [values_of_changesNoUrl hchanges hrewrite hn, List.filter_filter]
      simp
    exact (hsame.run hmem hother h).getAll_finish hn
  · have hfree : ∀ call ∈ rest, call ≠ .rewrite := fun call hcall heq => hmem (heq ▸ hcall)
    rw [getAll_finish_free_iff hfree (contentType_rewrite hrewrite) h hother hn]
    cases hsent : isDropped n with
    | true => exact .inl rfl
    | false => exact .inr (hkeeps.values_eq hfree hhere hchanges hrewrite hsent hn)

/-- **A scripted response is framed once** exactly where its chain keeps the
frame. -/
theorem framed_once_iff (host : Host ν V σ) (ctx : RequestCtx) (started : Started V)
    (calls : List ResponseCall) {last : ScriptResponse}
    (h : run host ctx (started.response host) calls = .ok last) :
    FramedOnce host ctx (started.response host) calls last ↔
      KeepsFrame host ctx (started.response host) calls :=
  ⟨FramedOnce.keepsFrame h, KeepsFrame.framedOnce h⟩

end Framed

/-! ## Three chains -/

/-- `resp::text(200, "ok")`. -/
def okText : Started Unit := .text 200 ['o', 'k']

def okResponse : ScriptResponse := okText.response RuneHost.unreachableHost

def noteChain (value : Text) : List ResponseCall := [.withHeader "x-note".toList value]

theorem framed_once_iff_note : ∃ last,
    run RuneHost.unreachableHost RuneHost.getCtx okResponse (noteChain ['1']) = .ok last ∧
      (FramedOnce RuneHost.unreachableHost RuneHost.getCtx okResponse (noteChain ['1']) last ↔
        KeepsFrame RuneHost.unreachableHost RuneHost.getCtx okResponse (noteChain ['1'])) :=
  ⟨_, rfl, framed_once_iff RuneHost.unreachableHost RuneHost.getCtx okText (noteChain ['1']) rfl⟩

def X_NOTE : HeaderName := ⟨"x-note".toList, by decide⟩

/-- `resp::text(200, "ok").with_header("x-note", "λ")`. -/
def noted : ScriptResponse := okResponse.withHeader "x-note".toList ['λ']

theorem changesNoUrl_noted : ChangesNoUrl RuneHost.unreachableHost RuneHost.getCtx noted where
  headers := by
    intro n
    rw [getAll_rewriteHeaders]
    split
    · rename_i hurl
      have hnone : scriptValue n ("x-note".toList, ['λ']) = none := by
        have hname : HeaderName.fromBytes "x-note".toList = some X_NOTE := rfl
        rw [scriptValue, hname, if_neg]
        intro h
        rw [← Option.some.inj h] at hurl
        exact absurd hurl (by decide)
      have htype : n ≠ CONTENT_TYPE := by
        rintro rfl
        exact absurd hurl (by decide)
      have hvalues : noted.values n = [] := List.filterMap_cons_none hnone
      rw [ScriptResponse.getAll_headerMap, getAll_typeHeader, if_neg htype, hvalues]
      rfl
    · rfl
  body := fun h => absurd h (by decide)

/-- A second type goes out beside the first; and a note in Greek goes out unless
`rewrite` comes after it. -/
theorem framed_once_twice :
    (∃ last, run RuneHost.unreachableHost RuneHost.getCtx okResponse
        [.withHeader "Content-Type".toList "text/xml".toList] = .ok last ∧
      ¬ FramedOnce RuneHost.unreachableHost RuneHost.getCtx okResponse
        [.withHeader "Content-Type".toList "text/xml".toList] last) ∧
    run RuneHost.unreachableHost RuneHost.getCtx okResponse (noteChain ['λ']) = .ok noted ∧
      ¬ FramedOnce RuneHost.unreachableHost RuneHost.getCtx okResponse (noteChain ['λ']) noted := by
  refine ⟨⟨_, rfl, fun h => ?_⟩, rfl, fun h => ?_⟩
  · exact absurd h.type (by decide)
  · obtain ⟨other, hother⟩ :
        ∃ other, noted.rewrite RuneHost.unreachableHost RuneHost.getCtx = .ok other := ⟨_, rfl⟩
    have hrun : run RuneHost.unreachableHost RuneHost.getCtx okResponse
        (noteChain ['λ'] ++ [.rewrite]) = .ok other := by
      show noted.rewrite RuneHost.unreachableHost RuneHost.getCtx >>= pure = _
      rw [hother]
      rfl
    have hsame := h.stable (noteChain ['λ']) [] noted other rfl rfl changesNoUrl_noted hrun X_NOTE
      (by decide)
    have hdropped : other.values X_NOTE = [] := by
      rw [values_of_changesNoUrl changesNoUrl_noted hother (by decide)]
      decide
    rw [ScriptResponse.getAll_finish (by decide), ScriptResponse.getAll_finish (by decide),
      hdropped, contentType_rewrite hother] at hsame
    exact absurd hsame (by decide)

end RedfishProxy.Script
