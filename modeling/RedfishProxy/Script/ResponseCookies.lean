import RedfishProxy.RuneHost.Failure
import RedfishProxy.Script.Framing

/-!
# Credentials on a scripted response

The final step drops three names and the per-hop ones. Of the names that count
as credentials this leaves the two of cookies: a value set under one of them is
sent, unless it cannot be read and a `rewrite` comes after it, which drops it.

Main result:
* `withholds_iff`: no credential and no per-hop header is sent exactly where no
  cookie is set to stay.
-/

namespace RedfishProxy.Script

open Lib Http ResponseCall

/-- Under no name that counts as a credential or as per-hop, in any letter case,
anything is sent. -/
def Withholds (response : ScriptResponse) : Prop :=
  ∀ name : Text, isRedacted name = true ∨ isHopByHop name = true →
    ∀ n, HeaderName.fromBytes name = some n →
      (finishScriptResponse response).headers.getAll n = []

/-- None of the values outlasts the calls behind them: a `rewrite` is among
these, and drops what cannot be read. -/
def Fleeting (values : List HeaderValue) (calls : List ResponseCall) : Prop :=
  ∀ value ∈ values, isReadable value = false ∧ .rewrite ∈ calls

/-- No value the response has, or a call gives it, under the name outlasts the
calls behind it. -/
structure AllFleeting (n : HeaderName) (response : ScriptResponse)
    (calls : List ResponseCall) : Prop where
  had : Fleeting (response.values n) calls
  given : ∀ before name value after, calls = before ++ .withHeader name value :: after →
    Fleeting (scriptValue n (name, value)).toList after

/-- No cookie is set to stay. -/
def SetsNoCookie (response : ScriptResponse) (calls : List ResponseCall) : Prop :=
  ∀ n : HeaderName, n.name ∈ cookies → AllFleeting n response calls

section Chain

variable {ν V σ : Type} {host : Host ν V σ} {ctx : RequestCtx}
  {response response' last : ScriptResponse} {calls : List ResponseCall} {n : HeaderName}

theorem Fleeting.append_iff {first second : List HeaderValue} :
    Fleeting (first ++ second) calls ↔ Fleeting first calls ∧ Fleeting second calls :=
  List.forall_mem_append

theorem Fleeting.withHeader_iff {values : List HeaderValue} {name value : Text} :
    Fleeting values (.withHeader name value :: calls) ↔ Fleeting values calls := by
  simp [Fleeting]

/-- One more header in front. -/
theorem allFleeting_withHeader_iff {name value : Text} :
    AllFleeting n response (.withHeader name value :: calls) ↔
      AllFleeting n (response.withHeader name value) calls := by
  have hvalues : (response.withHeader name value).values n =
      response.values n ++ (scriptValue n (name, value)).toList := by
    rw [values_withHeader, List.filterMap_cons]
    cases scriptValue n (name, value) <;> rfl
  constructor
  · intro h
    refine ⟨?_, fun before name' value' after heq => ?_⟩
    · rw [hvalues, Fleeting.append_iff]
      exact ⟨Fleeting.withHeader_iff.mp h.had, h.given [] name value calls rfl⟩
    · exact h.given (.withHeader name value :: before) name' value' after (by rw [heq]; rfl)
  · intro h
    have hhad := h.had
    rw [hvalues, Fleeting.append_iff] at hhad
    refine ⟨Fleeting.withHeader_iff.mpr hhad.1, fun before name' value' after heq => ?_⟩
    cases before with
    | nil =>
        obtain ⟨hcall, rfl⟩ := List.cons.inj heq
        obtain ⟨rfl, rfl⟩ := ResponseCall.withHeader.inj hcall
        exact hhad.2
    | cons call before => exact h.given before name' value' after (List.cons.inj heq).2

/-- A `rewrite` in front leaves the values that can be read. -/
theorem allFleeting_rewrite_iff (hn : n ≠ CONTENT_TYPE)
    (h : response.rewrite host ctx = .ok response') :
    AllFleeting n response (.rewrite :: calls) ↔ AllFleeting n response' calls := by
  have hvalues : Fleeting (response.values n) (.rewrite :: calls) ↔
      Fleeting (response'.values n) calls := by
    rw [values_rewrite h, if_neg hn, filter_map_swapValue]
    constructor
    · intro hhad value hvalue
      obtain ⟨old, hold, rfl⟩ := List.mem_map.mp hvalue
      obtain ⟨hmem, hread⟩ := List.mem_filter.mp hold
      rw [(hhad old hmem).1] at hread
      cases hread
    · intro hhad value hvalue
      refine ⟨?_, List.mem_cons_self⟩
      by_contra hread
      rw [Bool.not_eq_false] at hread
      have hkept : swapValue ctx n value ∈
          ((response.values n).filter isReadable).map (swapValue ctx n) :=
        List.mem_map_of_mem (List.mem_filter.mpr ⟨hvalue, hread⟩)
      have hunread := (hhad _ hkept).1
      rw [isReadable_swapValue, hread] at hunread
      cases hunread
  constructor
  · intro hall
    refine ⟨hvalues.mp hall.had, fun before name value after heq => ?_⟩
    exact hall.given (.rewrite :: before) name value after (by rw [heq]; rfl)
  · intro hall
    refine ⟨hvalues.mpr hall.had, fun before name value after heq => ?_⟩
    cases before with
    | nil => cases (List.cons.inj heq).1
    | cons call before => exact hall.given before name value after (List.cons.inj heq).2

/-- **A chain leaves no value of a name** exactly where none is set to stay. -/
theorem values_run_eq_nil_iff (hn : n ≠ CONTENT_TYPE)
    (h : run host ctx response calls = .ok last) :
    last.values n = [] ↔ AllFleeting n response calls := by
  induction calls generalizing response with
  | nil =>
      obtain rfl := Except.ok.inj h
      constructor
      · intro hnil
        refine ⟨fun value hvalue => ?_, fun before name value after heq => ?_⟩
        · rw [hnil] at hvalue
          cases hvalue
        · cases before <;> cases heq
      · intro hall
        refine List.eq_nil_iff_forall_not_mem.mpr fun value hvalue => ?_
        cases (hall.had value hvalue).2
  | cons call calls ih =>
      rw [ResponseCall.run, List.foldlM_cons] at h
      obtain ⟨next, hcall, hrest⟩ := bind_ok h
      rw [ih hrest]
      cases call with
      | withHeader name value =>
          obtain rfl := Except.ok.inj hcall
          exact allFleeting_withHeader_iff.symm
      | rewrite => exact (allFleeting_rewrite_iff hn hcall).symm

end Chain

/-! ## What is sent -/

/-- A credential or per-hop name is dropped, but for the cookies. -/
theorem isDropped_or_cookie {n : HeaderName}
    (h : isRedacted n.name = true ∨ isHopByHop n.name = true) :
    isDropped n = true ∨ n.name ∈ cookies := by
  have hsplit : ∀ t ∈ redacted, t ∈ scriptForbiddenHeaders ∨ t ∈ cookies := by decide
  unfold isDropped
  rw [Bool.or_eq_true, List.contains_iff_mem]
  rcases h with h | h
  · rcases hsplit _ ((isRedacted_iff n).mp h) with hname | hname
    · exact .inl (.inl hname)
    · exact .inr hname
  · exact .inl (.inr h)

theorem not_isDropped_of_cookie {n : HeaderName} (h : n.name ∈ cookies) :
    isDropped n = false := by
  have hneither : ∀ t ∈ cookies,
      (scriptForbiddenHeaders.contains t || isHopByHop t) = false := by decide
  exact hneither _ h

theorem isRedacted_of_cookie {n : HeaderName} (h : n.name ∈ cookies) :
    isRedacted n.name = true := by
  have hall : ∀ t ∈ cookies, isRedacted t = true := by decide
  exact hall _ h

/-- Neither list has the type or the length on it. -/
theorem ne_of_withheld {n : HeaderName}
    (h : isRedacted n.name = true ∨ isHopByHop n.name = true) :
    n ≠ CONTENT_TYPE ∧ n ≠ CONTENT_LENGTH := by
  constructor
  · rintro rfl
    exact absurd h (by decide)
  · rintro rfl
    exact absurd h (by decide)

theorem withholds_iff_values (response : ScriptResponse) :
    Withholds response ↔ ∀ n : HeaderName, n.name ∈ cookies → response.values n = [] := by
  have hsent : ∀ n : HeaderName, isRedacted n.name = true ∨ isHopByHop n.name = true →
      (finishScriptResponse response).headers.getAll n =
        if isDropped n then [] else response.values n := by
    intro n hn
    obtain ⟨htype, hlength⟩ := ne_of_withheld hn
    rw [ScriptResponse.getAll_finish hlength, getAll_typeHeader, if_neg htype, List.nil_append]
  constructor
  · intro h n hn
    have hredacted := isRedacted_of_cookie hn
    have hnone := h n.name (.inl hredacted) n (HeaderName.fromBytes_name n)
    rw [hsent n (.inl hredacted), not_isDropped_of_cookie hn] at hnone
    exact hnone
  · intro h name hname n hn
    have hwithheld : isRedacted n.name = true ∨ isHopByHop n.name = true := by
      rwa [isRedacted_of_fromBytes hn, isHopByHop_of_fromBytes hn]
    rw [hsent n hwithheld]
    rcases isDropped_or_cookie hwithheld with hdropped | hcookie
    · rw [if_pos hdropped]
    · rw [h n hcookie, ite_self]

/-- **A script puts no credential on its response** exactly where it sets no
cookie to stay. -/
theorem withholds_iff {ν V σ : Type} (host : Host ν V σ) (ctx : RequestCtx)
    (response : ScriptResponse) (calls : List ResponseCall) {last : ScriptResponse}
    (h : run host ctx response calls = .ok last) :
    Withholds last ↔ SetsNoCookie response calls := by
  rw [withholds_iff_values]
  constructor
  · intro hvalues n hn
    have hne := (ne_of_withheld (.inl (isRedacted_of_cookie hn))).1
    exact (values_run_eq_nil_iff hne h).mp (hvalues n hn)
  · intro hsets n hn
    have hne := (ne_of_withheld (.inl (isRedacted_of_cookie hn))).1
    exact (values_run_eq_nil_iff hne h).mpr (hsets n hn)

/-- `.with_header("X-Auth-Token", "forged").rewrite()?` -/
def tokenChain : List ResponseCall := [.withHeader "X-Auth-Token".toList "forged".toList, .rewrite]

theorem withholds_iff_token : ∃ last,
    run RuneHost.unreachableHost RuneHost.getCtx okResponse tokenChain = .ok last ∧
      (Withholds last ↔ SetsNoCookie okResponse tokenChain) :=
  ⟨_, rfl, withholds_iff RuneHost.unreachableHost RuneHost.getCtx okResponse tokenChain rfl⟩

/-- `.with_header("Set-Cookie", "session=forged").rewrite()?` -/
def cookieChain : List ResponseCall :=
  [.withHeader "Set-Cookie".toList "session=forged".toList, .rewrite]

theorem isToken_setCookie :
    ("set-cookie".toList ≠ [] ∧ "set-cookie".toList.length ≤ 65535) ∧
      ∀ c ∈ "set-cookie".toList, isTokenChar c = true ∧ c.toLower = c := by decide

def SET_COOKIE : HeaderName := ⟨"set-cookie".toList, isToken_setCookie⟩

/-- A forged cookie goes out, past a `rewrite` too. -/
theorem not_withholds_cookie : ∃ last,
    run RuneHost.unreachableHost RuneHost.getCtx okResponse cookieChain = .ok last ∧
      ¬ Withholds last := by
  refine ⟨_, rfl, fun h => ?_⟩
  have hnone := h "Set-Cookie".toList (.inl (by decide)) SET_COOKIE (by decide)
  exact absurd hnone (by decide)

end RedfishProxy.Script
