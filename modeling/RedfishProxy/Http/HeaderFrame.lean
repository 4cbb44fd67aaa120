import Mathlib.Data.List.Dedup
import RedfishProxy.Http.Base
import RedfishProxy.Http.Rewrite

/-!
# What `rewrite_headers` does to each header

The loop takes the URL headers one name at a time, so what it leaves is said
name by name: every value of a URL header goes through `rewriteHeaderValue`, and
no other header changes (`getAll_rewriteHeaders`). A value that could be read is
swapped and not kept, because the swap of a readable text is readable
(`rewriteHeaderValue_of_toStr`).
-/

namespace RedfishProxy.Http

open Lib

/-! ## Names -/

section Names

variable (target : SocketAddrV4) (base : Text)

theorem getAll_rewriteHeader (headers : HeaderMap) (name n : HeaderName) :
    (rewriteHeader target base headers name).getAll n =
      if name = n then (headers.getAll n).map (rewriteHeaderValue target base n)
      else headers.getAll n := by
  unfold rewriteHeader
  simp only
  split
  · rename_i hempty
    split
    · rename_i heq
      rw [List.isEmpty_iff, heq] at hempty
      rw [hempty, List.map_eq_nil_iff.mp hempty]
    · rfl
  · rw [HeaderMap.getAll_foldl_append, HeaderMap.getAll_remove]
    split
    · rename_i heq
      rw [heq, List.nil_append]
    · rw [List.append_nil]

/-- A name is taken once, so its values are rewritten once. -/
theorem getAll_rewriteHeader_fold {names : List HeaderName} (hnodup : names.Nodup)
    (headers : HeaderMap) (n : HeaderName) :
    (names.foldl (rewriteHeader target base) headers).getAll n =
      if n ∈ names then (headers.getAll n).map (rewriteHeaderValue target base n)
      else headers.getAll n := by
  induction names generalizing headers with
  | nil => simp
  | cons name names ih =>
      obtain ⟨hnot, hrest⟩ := List.nodup_cons.mp hnodup
      rw [List.foldl_cons, ih hrest, getAll_rewriteHeader]
      by_cases hname : name = n
      · subst hname
        simp [hnot]
      · simp [hname, Ne.symm hname]

/-- **`rewrite_headers`, header by header.** -/
theorem getAll_rewriteHeaders (headers : HeaderMap) (n : HeaderName) :
    (rewriteHeaders target base headers).getAll n =
      if isUrlHeader n.name then (headers.getAll n).map (rewriteHeaderValue target base n)
      else headers.getAll n := by
  have hnodup := (List.nodup_dedup (headers.entries.map Prod.fst)).filter
    fun name => isUrlHeader name.name
  unfold rewriteHeaders
  simp only
  rw [getAll_rewriteHeader_fold target base hnodup]
  by_cases hmem : n ∈ headers.entries.map Prod.fst
  · simp only [List.mem_filter, List.mem_dedup, hmem, true_and]
  · -- a name that is not there has no values to rewrite
    have hnil : headers.getAll n = [] := by
      unfold HeaderMap.getAll
      rw [List.filterMap_eq_nil_iff]
      intro e he
      rw [if_neg]
      rintro rfl
      exact hmem (List.mem_map_of_mem he)
    simp [hnil]

@[simp] theorem contentType_rewriteHeaders (headers : HeaderMap) :
    contentType (rewriteHeaders target base headers) = contentType headers := by
  unfold contentType HeaderMap.get
  rw [getAll_rewriteHeaders, if_neg (by decide)]

end Names

/-! ## Values -/

/-- A URL as `Url::as_str` writes it: ASCII, and no control character. -/
structure UrlString where
  asStr : Text
  isAscii : ∀ c ∈ asStr, 32 ≤ c.toNat ∧ c.toNat < 127

/-- What `swap` writes comes from the base or from the text. -/
theorem mem_swap {base : Text} {wanted : Text → Bool} (text : Text) {c : Char}
    (hc : c ∈ swap base wanted text) : c ∈ base ∨ c ∈ text := by
  induction text using scan_induction with
  | plain text h =>
      rw [swap_none h] at hc
      exact .inr hc
  | skip text before after h hs ih =>
      rw [swap_skip h hs] at hc
      rw [Text.splitOnce_eq_some h]
      rcases List.mem_append.mp hc with hc | hc
      · exact .inr (List.mem_append_left _ hc)
      · exact (ih hc).imp id (List.mem_append_right _)
  | url text before after h hs ih =>
      rw [swap_url h hs] at hc
      have htext : text = beforeRun before ++ (schemeRun before ++ sep ++ authorityOf after) ++
          afterAuthority after := by
        simp [Text.splitOnce_eq_some h]
      rw [htext]
      rcases List.mem_append.mp hc with hc | hc
      · rcases List.mem_append.mp hc with hc | hc
        · exact .inr (List.mem_append_left _ (List.mem_append_left _ hc))
        · split at hc
          · exact .inl hc
          · exact .inr (List.mem_append_left _ (List.mem_append_right _ hc))
      · exact (ih hc).imp id (List.mem_append_right _)

/-- The swap of a readable value is written back. -/
theorem rewriteHeaderValue_of_toStr (target : SocketAddrV4) (base : UrlString) (name : HeaderName)
    {value : HeaderValue} {text : Text} (h : value.toStr = some text) :
    (rewriteHeaderValue target base.asStr name value).toStr =
      some (swapped base.asStr text
        (if isBmcRelative name.name then fun _ => true else (isTarget · target))) := by
  have hread : ∀ wanted, ∃ v, HeaderValue.fromStr (swapped base.asStr text wanted) = some v ∧
      v.toStr = some (swapped base.asStr text wanted) := by
    intro wanted
    refine HeaderValue.fromStr_of_visible ?_
    intro c hc
    rw [swapped_eq] at hc
    rcases mem_swap text hc with hc | hc
    · exact .inl (base.isAscii c ((List.rdropWhile_prefix _ _).subset hc))
    · exact HeaderValue.visible_of_toStr h hc
  unfold rewriteHeaderValue
  simp only [h]
  cases isBmcRelative name.name with
  | true =>
      obtain ⟨v, hv, htext⟩ := hread fun _ => true
      simp only [if_true, hv, Option.getD_some, htext]
  | false =>
      obtain ⟨v, hv, htext⟩ := hread (isTarget · target)
      simp only [Bool.false_eq_true, if_false, hv, Option.getD_some, htext]

theorem rewriteHeaderValue_of_unreadable (target : SocketAddrV4) (base : Text) (name : HeaderName)
    {value : HeaderValue} (h : value.toStr = none) :
    rewriteHeaderValue target base name value = value := by
  unfold rewriteHeaderValue
  simp only [h]

/-! ## The frame -/

theorem isBmcRelative_iff (name : HeaderName) : isBmcRelative name.name = true ↔
    name.name = "location".toList ∨ name.name = "content-location".toList := by
  rw [isBmcRelative, any_eqIgnoreAsciiCase (by decide), bmcRelativeHeaders, List.mem_pair]

theorem isUrlHeader_iff (name : HeaderName) : isUrlHeader name.name = true ↔
    (name.name = "location".toList ∨ name.name = "content-location".toList) ∨
      name.name = "link".toList := by
  rw [isUrlHeader, Bool.or_eq_true, isBmcRelative_iff, any_eqIgnoreAsciiCase (by decide),
    foreignUrlHeaders, List.mem_singleton]

/-- Readable text is swapped, anything else is byte for byte what it was. -/
def IsSwapOf (base : Text) (wanted : Text → Bool) (old new : HeaderValue) : Prop :=
  (∀ text, old.toStr = some text →
    ∃ out, swapAuthorities base text wanted = some out ∧ new.toStr = some out) ∧
    (old.toStr = none → new = old)

theorem isSwapOf_rewriteHeaderValue (target : SocketAddrV4) (base : UrlString) (name : HeaderName)
    (value : HeaderValue) :
    IsSwapOf base.asStr (if isBmcRelative name.name then fun _ => true else (isTarget · target))
      value (rewriteHeaderValue target base.asStr name value) := by
  constructor
  · intro text h
    exact ⟨_, swapAuthorities_eq_swapped .., rewriteHeaderValue_of_toStr target base name h⟩
  · exact rewriteHeaderValue_of_unreadable target base.asStr name

/-- **`rewrite_headers` loses and invents nothing.** -/
theorem rewriteHeaders_frame (target : SocketAddrV4) (base : UrlString) (headers : HeaderMap)
    (name : HeaderName) :
    (¬ ((name.name = "location".toList ∨ name.name = "content-location".toList) ∨
        name.name = "link".toList) →
      (rewriteHeaders target base.asStr headers).getAll name = headers.getAll name) ∧
    (name.name = "location".toList ∨ name.name = "content-location".toList →
      List.Forall₂ (IsSwapOf base.asStr fun _ => true) (headers.getAll name)
        ((rewriteHeaders target base.asStr headers).getAll name)) ∧
    (name.name = "link".toList →
      List.Forall₂ (IsSwapOf base.asStr (isTarget · target)) (headers.getAll name)
        ((rewriteHeaders target base.asStr headers).getAll name)) := by
  have hvalues := List.forall₂_map_right_iff.mpr (List.forall₂_same.mpr fun value
    (_ : value ∈ headers.getAll name) => isSwapOf_rewriteHeaderValue target base name value)
  rw [getAll_rewriteHeaders]
  refine ⟨?_, ?_, ?_⟩
  · intro hname
    rw [if_neg (by rwa [isUrlHeader_iff])]
  · intro hname
    rw [if_pos ((isBmcRelative_iff name).mpr hname)] at hvalues
    rwa [if_pos ((isUrlHeader_iff name).mpr (.inl hname))]
  · intro hname
    have hnot : ¬ isBmcRelative name.name = true := by
      rw [isBmcRelative_iff, hname]
      decide
    rw [if_neg hnot] at hvalues
    rwa [if_pos ((isUrlHeader_iff name).mpr (.inr hname))]

end RedfishProxy.Http
