import RedfishProxy.Lib.WebUrl

/-!
# Paths the parser leaves as they are

A path and query of characters that need no escaping, without dot segments, goes
through the path states of every kind of URL unchanged (`serialize_pathState`).
So behind an authority the path is what stands before the first `?`
(`pathBehind_plain`). Without anything in front it is no absolute URL
(`parse_slash`).
-/

namespace Lib.WebUrl

open Whatwg

/-- The characters a path and query are written with. -/
def isUrlSafe (c : Char) : Bool :=
  c.isAlphanum || c ∈ ['-', '.', '_', '~', '%', '!', '$', '&', '\'', '(', ')', '*', '+', ',', ';',
    '=', ':', '@', '/', '?']

/-- A path of such characters, from a slash on, and a query behind it. No segment
of the path is a dot segment. -/
structure IsPathAndQuery (text : Text) : Prop where
  start : text.head? = some '/'
  safe : ∀ c ∈ text, isUrlSafe c = true
  noDots : ∀ segment ∈ (text.takeWhile (· != '?')).splitOn '/',
    isSingleDot segment = false ∧ isDoubleDot segment = false

theorem of_isUrlSafe {c : Char} (h : isUrlSafe c = true) :
    32 < c.toNat ∧ c ≠ '#' ∧ c ≠ '\\' ∧ c ≠ '|' ∧ (c ≠ '?' → pathSet c = false) := by
  have hascii : c.toNat < 128 := by
    unfold isUrlSafe at h
    rcases Bool.or_eq_true_iff.mp h with h | h
    · exact Text.toNat_of_isAlphanum h
    · have hall : ∀ d ∈ ['-', '.', '_', '~', '%', '!', '$', '&', '\'', '(', ')', '*', '+', ',',
          ';', '=', ':', '@', '/', '?'], d.toNat < 128 := by decide
      exact hall c (of_decide_eq_true h)
  refine Text.ascii_cases (P := fun c => isUrlSafe c = true → 32 < c.toNat ∧ c ≠ '#' ∧
    c ≠ '\\' ∧ c ≠ '|' ∧ (c ≠ '?' → pathSet c = false)) ?_ hascii h
  decide

/-! ## The path states -/

theorem closeSegment_plain {buffer : Text} (hsingle : isSingleDot buffer = false)
    (hdouble : isDoubleDot buffer = false) (hbar : '|' ∉ buffer) (kind : Kind) (last : Bool)
    (path : List Text) : closeSegment kind last path buffer = path ++ [buffer] := by
  unfold closeSegment
  rw [hsingle, hdouble, if_neg Bool.false_ne_true, if_neg Bool.false_ne_true]
  unfold pushSegment
  split
  · rename_i hdrive
    obtain ⟨_, rfl, hdrive⟩ := hdrive
    -- a drive letter has its colon already
    match buffer with
    | [letter, mark] =>
        have hmark : mark = ':' := by
          rcases Bool.or_eq_true_iff.mp (Bool.and_eq_true_iff.mp hdrive).2 with hcolon | hbar'
          · exact eq_of_beq hcolon
          · obtain rfl := eq_of_beq hbar'
            exact absurd (by simp) hbar
        rw [hmark]
        rfl
  · rfl

theorem serialize_append (a b : List Text) : serialize (a ++ b) = serialize a ++ serialize b :=
  List.flatMap_append

/-- **What needs no escaping** goes through the path state as it is. -/
theorem serialize_pathState (kind : Kind) {text : Text} {path : List Text} {buffer : Text}
    (hsafe : ∀ c ∈ text, isUrlSafe c = true ∧ c ≠ '?') (hslash : '/' ∉ buffer)
    (hbar : '|' ∉ buffer) (hdots : ∀ segment ∈ (buffer ++ text).splitOn '/',
      isSingleDot segment = false ∧ isDoubleDot segment = false) :
    serialize (pathState kind path buffer text) = serialize path ++ '/' :: (buffer ++ text) := by
  induction text generalizing path buffer with
  | nil =>
      rw [List.append_nil, List.splitOn_eq_singleton hslash] at hdots
      obtain ⟨hsingle, hdouble⟩ := hdots buffer (List.mem_singleton_self _)
      rw [pathState, closeSegment_plain hsingle hdouble hbar, serialize_append, List.append_nil]
      simp [serialize]
  | cons c text ih =>
      obtain ⟨hc, hquestion⟩ := hsafe c List.mem_cons_self
      have hrest : ∀ d ∈ text, isUrlSafe d = true ∧ d ≠ '?' :=
        fun d hd => hsafe d (List.mem_cons_of_mem _ hd)
      obtain ⟨_, _, hback, hcbar, hencode⟩ := of_isUrlSafe hc
      have hisSlash : isSlash kind c = (c == '/') := by
        unfold isSlash
        rw [beq_eq_false_iff_ne.mpr hback, Bool.and_false, Bool.or_false]
      rw [pathState, hisSlash]
      by_cases hslash' : c = '/'
      · subst hslash'
        rw [List.splitOn_append_cons_self_of_not_mem hslash] at hdots
        obtain ⟨hsingle, hdouble⟩ := hdots buffer List.mem_cons_self
        rw [beq_self_eq_true, if_pos rfl, closeSegment_plain hsingle hdouble hbar,
          ih hrest List.not_mem_nil List.not_mem_nil
            fun segment hsegment => hdots segment (List.mem_cons_of_mem _ hsegment),
          serialize_append]
        simp [serialize]
      · have hplain : encode pathSet c = [c] := by
          unfold encode
          rw [hencode hquestion, if_neg Bool.false_ne_true]
        have hdots' : ∀ segment ∈ ((buffer ++ [c]) ++ text).splitOn '/',
            isSingleDot segment = false ∧ isDoubleDot segment = false := by
          rwa [List.append_assoc]
        rw [beq_eq_false_iff_ne.mpr hslash', if_neg Bool.false_ne_true, hplain,
          ih hrest (by simpa using ⟨hslash, Ne.symm hslash'⟩) (by simpa using ⟨hbar, Ne.symm hcbar⟩)
            hdots', List.append_assoc]
        rfl

/-! ## Behind an authority, and alone -/

theorem IsPathAndQuery.cleanTail {text : Text} (h : IsPathAndQuery text) :
    cleanTail text = text := by
  have hclean := cleanTail_append (fun c hc => (of_isUrlSafe (h.safe c hc)).1) []
  rw [List.append_nil] at hclean
  rw [hclean]
  exact List.append_nil text

/-- **The path behind an authority** is what stands before the query. -/
theorem pathBehind_plain {text : Text} (h : IsPathAndQuery text) (kind : Kind) :
    (pathBehind kind text).text = text.takeWhile (· != '?') := by
  have hhash : '#' ∉ text := fun hmem => (of_isUrlSafe (h.safe '#' hmem)).2.1 rfl
  have hcut : (cutAt '#' text).1 = text := by
    have hall := cutAt_append hhash []
    rw [List.append_nil] at hall
    rw [hall]
    exact List.append_nil text
  have hfront : (cutAt '?' text).1 = text.takeWhile (· != '?') := rfl
  unfold pathBehind
  rw [h.cleanTail, hcut, hfront]
  obtain ⟨rest, rfl⟩ : ∃ rest, text = '/' :: rest := by
    cases text with
    | nil => cases h.start
    | cons c rest => exact ⟨rest, by rw [Option.some.inj h.start]⟩
  have hsafe : ∀ c ∈ rest.takeWhile (· != '?'), isUrlSafe c = true ∧ c ≠ '?' := by
    intro c hc
    refine ⟨h.safe c (List.mem_cons_of_mem _ ((List.takeWhile_sublist _).mem hc)), ?_⟩
    simpa using List.mem_takeWhile_imp hc
  have hdots := h.noDots
  rw [List.takeWhile_cons, if_pos (by decide)] at hdots ⊢
  have hstart : pathStart kind ('/' :: rest.takeWhile (· != '?')) =
      pathState kind [] [] (rest.takeWhile (· != '?')) := by
    rw [pathStart, isSlash, beq_self_eq_true, Bool.true_or, if_pos rfl]
  show serialize (pathStart kind _) = _
  rw [hstart, serialize_pathState kind hsafe List.not_mem_nil List.not_mem_nil]
  · rfl
  · intro segment hsegment
    refine hdots segment ?_
    rw [List.splitOn_cons_eq_if_modifyHead, if_pos (by decide)]
    exact List.mem_cons_of_mem _ hsegment

/-- **A path alone** is no absolute URL. -/
theorem parse_slash (hosts : HostParser) (rest : Text) : parse hosts ('/' :: rest) = none := by
  have hclean : clean ('/' :: rest) = '/' :: cleanTail rest :=
    clean_append (List.cons_ne_nil '/' []) (by decide) rest
  have hcut : ∀ (mark : Char) (text : Text), '/' ≠ mark →
      ∃ back, cutAt mark ('/' :: text) = ('/' :: (cutAt mark text).1, back) := by
    intro mark text hmark
    refine ⟨_, Prod.ext ?_ rfl⟩
    unfold cutAt
    rw [List.takeWhile_cons, if_pos (by simpa using hmark)]
  obtain ⟨fragment, hfragment⟩ := hcut '#' (Whatwg.cleanTail rest) (by decide)
  obtain ⟨query, hquery⟩ := hcut '?' (cutAt '#' (Whatwg.cleanTail rest)).1 (by decide)
  obtain ⟨scheme, hscheme⟩ := hcut ':' (cutAt '?' (cutAt '#' (Whatwg.cleanTail rest)).1).1 (by decide)
  unfold parse
  rw [hclean, hfragment]
  dsimp only
  rw [hquery]
  dsimp only
  unfold parseScheme
  rw [hscheme]
  cases scheme <;> rfl

end Lib.WebUrl
