import RedfishProxy.Http.Scan
import RedfishProxy.Lib.Utf8

/-!
# The offsets of the swap

Where `swap_authorities` slices. `Reaches` are the cursors its loop comes to;
each of them stands at a cut of the text behind which the scan starts afresh
(`Reaches.aligned`), and from there every offset of a turn is a boundary, in
order, and behind the cursor.

Main result:
* `swapAuthorities_in_place`: no slice of a run is out of place, and it ends.
-/

namespace RedfishProxy.Http

open Lib

/-- The cursors the loop comes to, with what has been put out by then. -/
inductive Reaches (base text : Text) (wanted : Text → Bool) : Nat → Text → Prop where
  | start : Reaches base text wanted 0 []
  | turn {cursor cursor' : Nat} {out out' : Text} (h : Reaches base text wanted cursor out)
      (hturn : swapTurn base text wanted cursor out = some (.next cursor' out')) :
      Reaches base text wanted cursor' out'

/-- A turn at `cursor` finds a `://` at `sep`. -/
def Finds (text : Text) (cursor sep : Nat) : Prop :=
  ∃ tail found, text.sliceFrom? cursor = some tail ∧ tail.find "://".toList = some found ∧
    sep = cursor + found

/-- The offsets of a turn that takes the URL branch. -/
structure Offsets where
  schemeStart : Nat
  sep : Nat
  authorityStart : Nat
  authorityEnd : Nat

/-- A turn at `cursor` takes the URL branch, with these offsets. -/
structure TakesUrl (text : Text) (cursor : Nat) (at' : Offsets) : Prop where
  finds : Finds text cursor at'.sep
  start : schemeStart text at'.sep = some at'.schemeStart
  scheme : at'.schemeStart ≠ at'.sep
  authorityStart : at'.authorityStart = at'.sep + 3
  authorityEnd : ∃ rest, text.sliceFrom? at'.authorityStart = some rest ∧
    at'.authorityEnd = at'.authorityStart +
      (rest.findChar isDelimiter).getD (text.byteLen - at'.authorityStart)

/-- The offsets of a URL are in order, behind the cursor, and boundaries. -/
structure InPlace (text : Text) (cursor : Nat) (at' : Offsets) : Prop where
  cursor_le : cursor ≤ at'.schemeStart
  start_le : at'.schemeStart ≤ at'.sep
  sep_lt : at'.sep < at'.authorityStart
  authority_le : at'.authorityStart ≤ at'.authorityEnd
  authorityEnd_le : at'.authorityEnd ≤ text.byteLen
  boundary : ∀ i ∈ [cursor, at'.schemeStart, at'.sep, at'.authorityStart, at'.authorityEnd],
    Text.IsBoundary text i

/-! ## One turn -/

section Turn

variable {base pre rest before after : Text} {wanted : Text → Bool}

/-- A found `://` splits what is behind the cursor. -/
theorem exists_split_of_finds {sep' : Nat} (h : Finds (pre ++ rest) pre.byteLen sep') :
    ∃ before after, rest.splitOnce sep = some (before, after) ∧
      sep' = (pre ++ before).byteLen := by
  obtain ⟨tail, found, htail, hfound, rfl⟩ := h
  rw [Text.sliceFrom?_append] at htail
  obtain rfl := Option.some.inj htail
  rw [Text.find_eq] at hfound
  obtain ⟨⟨before, after⟩, hsplit, rfl⟩ := Option.map_eq_some_iff.mp hfound
  exact ⟨before, after, hsplit, (Text.byteLen_append pre before).symm⟩

theorem text_of_split (h : rest.splitOnce sep = some (before, after)) :
    pre ++ rest = pre ++ before ++ sep ++ after := by
  rw [Text.splitOnce_eq_some h]
  simp only [List.append_assoc]

theorem isBoundary_sep (h : rest.splitOnce sep = some (before, after)) :
    Text.IsBoundary (pre ++ rest) (pre ++ before).byteLen := by
  rw [text_of_split h, List.append_assoc]
  exact Text.isBoundary_append _ _

theorem isBoundary_authority (h : rest.splitOnce sep = some (before, after)) :
    Text.IsBoundary (pre ++ rest) (pre ++ before ++ sep).byteLen := by
  rw [text_of_split h]
  exact Text.isBoundary_append _ _

/-- The backward walk stops at a boundary, whether or not it found a scheme. -/
theorem isBoundary_schemeLoop (h : rest.splitOnce sep = some (before, after)) :
    Text.IsBoundary (pre ++ rest)
      (schemeLoop (charIndices 0 (pre ++ before)).reverse (pre ++ before).byteLen) := by
  rw [schemeLoop_eq, text_of_split h, ← beforeRun_append_schemeRun (pre ++ before),
    List.append_assoc, List.append_assoc]
  exact Text.isBoundary_append _ _

/-- The pieces of a text that a turn reads a URL from. -/
def offsetsOf (pre before after : Text) : Offsets where
  schemeStart := (pre ++ beforeRun before).byteLen
  sep := (pre ++ before).byteLen
  authorityStart := (pre ++ before ++ sep).byteLen
  authorityEnd := (pre ++ before ++ sep ++ authorityOf after).byteLen

/-- From an aligned cursor the offsets of a URL are where its pieces end. -/
theorem offsets_of_takesUrl (hal : Aligned pre rest) {at' : Offsets}
    (h : TakesUrl (pre ++ rest) pre.byteLen at') :
    ∃ before after, rest.splitOnce sep = some (before, after) ∧
      isScheme (schemeRun before) = true ∧ at' = offsetsOf pre before after := by
  obtain ⟨start, sep', authorityStart, authorityEnd⟩ := at'
  obtain ⟨hfinds, hstart, hscheme, hauthority, behind, hbehind, hend⟩ := h
  dsimp only at hfinds hstart hscheme hauthority hbehind hend
  subst hauthority hend
  obtain ⟨before, after, hsplit, rfl⟩ := exists_split_of_finds hfinds
  have hread := schemeStart_aligned hal hsplit
  rw [← Text.byteLen_append, hstart] at hread
  have hrun : isScheme (schemeRun before) = true := by
    by_contra hnot
    rw [if_neg hnot] at hread
    exact hscheme (Option.some.inj hread)
  rw [if_pos hrun] at hread
  obtain rfl := Option.some.inj hread
  rw [byteLen_sep, text_of_split hsplit, Text.sliceFrom?_append] at hbehind
  obtain rfl := Option.some.inj hbehind
  refine ⟨before, after, hsplit, hrun, ?_⟩
  rw [byteLen_sep, text_of_split hsplit, Text.byteLen_append _ after, Nat.add_sub_cancel_left,
    Text.findChar_eq, ← Text.byteLen_append]
  rfl

/-- They are in place. -/
theorem inPlace_offsetsOf (h : rest.splitOnce sep = some (before, after)) :
    InPlace (pre ++ rest) pre.byteLen (offsetsOf pre before after) := by
  have hrun := congrArg Text.byteLen (beforeRun_append_schemeRun before [])
  have hrest := congrArg Text.byteLen (authorityOf_append_afterAuthority after)
  have hsep : sep.byteLen = 3 := rfl
  have hauthority : pre ++ rest =
      (pre ++ before ++ sep ++ authorityOf after) ++ afterAuthority after := by
    rw [text_of_split h, List.append_assoc _ (authorityOf after),
      authorityOf_append_afterAuthority]
  have hscheme : pre ++ rest =
      (pre ++ beforeRun before) ++ (schemeRun before ++ (sep ++ after)) := by
    rw [text_of_split h, List.append_assoc pre (beforeRun before), beforeRun_append_schemeRun]
    simp only [List.append_assoc]
  rw [List.append_nil, List.append_nil, Text.byteLen_append] at hrun
  rw [Text.byteLen_append] at hrest
  refine ⟨?_, ?_, ?_, ?_, ?_, ?_⟩
  · show pre.byteLen ≤ (pre ++ beforeRun before).byteLen
    rw [Text.byteLen_append]
    omega
  · show (pre ++ beforeRun before).byteLen ≤ (pre ++ before).byteLen
    rw [Text.byteLen_append, Text.byteLen_append]
    omega
  · show (pre ++ before).byteLen < (pre ++ before ++ sep).byteLen
    rw [Text.byteLen_append _ sep]
    omega
  · show (pre ++ before ++ sep).byteLen ≤ (pre ++ before ++ sep ++ authorityOf after).byteLen
    rw [Text.byteLen_append _ (authorityOf after)]
    omega
  · show (pre ++ before ++ sep ++ authorityOf after).byteLen ≤ (pre ++ rest).byteLen
    rw [hauthority, Text.byteLen_append _ (afterAuthority after)]
    omega
  · intro i hi
    simp only [List.mem_cons, List.not_mem_nil, or_false] at hi
    rcases hi with rfl | rfl | rfl | rfl | rfl
    · exact Text.isBoundary_append pre rest
    · rw [hscheme]
      exact Text.isBoundary_append _ _
    · exact isBoundary_sep h
    · exact isBoundary_authority h
    · rw [hauthority]
      exact Text.isBoundary_append _ _

/-- Every turn ends well, and further on. -/
theorem exists_turn (base : Text) (wanted : Text → Bool) (out : Text) (hal : Aligned pre rest) :
    ∃ turn, swapTurn base (pre ++ rest) wanted pre.byteLen out = some turn ∧
      ∀ cursor' out', turn = .next cursor' out' →
        pre.byteLen < cursor' ∧ ∃ pre' rest', pre ++ rest = pre' ++ rest' ∧
          cursor' = pre'.byteLen ∧ Aligned pre' rest' := by
  cases hsplit : rest.splitOnce sep with
  | none =>
      refine ⟨_, swapTurn_none out hsplit, fun cursor' out' h => ?_⟩
      cases h
  | some p =>
      obtain ⟨before, after⟩ := p
      have hsep : sep.byteLen = 3 := rfl
      cases hrun : isScheme (schemeRun before) with
      | false =>
          refine ⟨_, swapTurn_skip out hal hsplit hrun, fun cursor' out' h => ?_⟩
          obtain ⟨rfl, rfl⟩ := Turn.next.inj h
          refine ⟨?_, pre ++ (before ++ sep), after, ?_, rfl, aligned_skip pre before after⟩
          · rw [Text.byteLen_append, Text.byteLen_append before]
            omega
          · rw [text_of_split hsplit, List.append_assoc pre before]
      | true =>
          refine ⟨_, swapTurn_url out hal hsplit hrun, fun cursor' out' h => ?_⟩
          obtain ⟨rfl, rfl⟩ := Turn.next.inj h
          refine ⟨?_, _, afterAuthority after, ?_, rfl, aligned_url _ after⟩
          · rw [Text.byteLen_append, Text.byteLen_append _ (authorityOf after),
              Text.byteLen_append before]
            omega
          · rw [text_of_split hsplit]
            simp only [List.append_assoc, authorityOf_append_afterAuthority]

end Turn

/-! ## Every turn -/

/-- Every cursor the loop comes to is aligned. -/
theorem Reaches.aligned {base text : Text} {wanted : Text → Bool} {cursor : Nat} {out : Text}
    (h : Reaches base text wanted cursor out) :
    ∃ pre rest, text = pre ++ rest ∧ cursor = pre.byteLen ∧ Aligned pre rest := by
  induction h with
  | start => exact ⟨[], text, rfl, rfl, .inl (by simp)⟩
  | turn _ hturn ih =>
      obtain ⟨pre, rest, rfl, rfl, hal⟩ := ih
      obtain ⟨turn, hends, hnext⟩ := exists_turn base wanted _ hal
      rw [hends] at hturn
      exact (hnext _ _ (Option.some.inj hturn)).2

/-- **The scanner slices in place and ends.** At every cursor the loop comes to,
the search starts at a boundary, a `://` it finds stands between boundaries, the
backward walk from it stops at one, the offsets of a URL are in order behind the
cursor, and the turn fails at no slice and leaves the cursor further on; so the
loop ends with a text. -/
theorem swapAuthorities_in_place (base text : Text) (wanted : Text → Bool) :
    (∀ cursor out, Reaches (base.trimEndMatches '/') text wanted cursor out →
      Text.IsBoundary text cursor ∧
      (∀ sep, Finds text cursor sep →
        Text.IsBoundary text sep ∧ Text.IsBoundary text (sep + 3) ∧
        ∃ before, text.sliceTo? sep = some before ∧
          Text.IsBoundary text (schemeLoop (charIndices 0 before).reverse sep)) ∧
      (∀ at', TakesUrl text cursor at' → InPlace text cursor at' ∧
        ∃ out', swapTurn (base.trimEndMatches '/') text wanted cursor out =
          some (.next at'.authorityEnd out')) ∧
      ∃ turn, swapTurn (base.trimEndMatches '/') text wanted cursor out = some turn ∧
        ∀ cursor' out', turn = .next cursor' out' → cursor < cursor') ∧
    ∃ out, swapAuthorities base text wanted = some out := by
  refine ⟨fun cursor out hreaches => ?_, _, swapAuthorities_eq base text wanted⟩
  obtain ⟨pre, rest, rfl, rfl, hal⟩ := hreaches.aligned
  obtain ⟨turn, hturn, hnext⟩ := exists_turn (base.trimEndMatches '/') wanted out hal
  refine ⟨Text.isBoundary_append pre rest, fun sep' hfinds => ?_, fun at' hurl => ?_,
    turn, hturn, fun cursor' out' h => (hnext cursor' out' h).1⟩
  · obtain ⟨before, after, hsplit, rfl⟩ := exists_split_of_finds hfinds
    refine ⟨isBoundary_sep hsplit, ?_, pre ++ before, ?_, isBoundary_schemeLoop hsplit⟩
    · rw [byteLen_sep]
      exact isBoundary_authority hsplit
    · rw [text_of_split hsplit, List.append_assoc, Text.sliceTo?_append]
  · obtain ⟨before, after, hsplit, hrun, rfl⟩ := offsets_of_takesUrl hal hurl
    have hend : (offsetsOf pre before after).authorityEnd =
        (pre ++ (before ++ sep ++ authorityOf after)).byteLen := by
      simp only [offsetsOf, List.append_assoc]
    rw [hend]
    exact ⟨inPlace_offsetsOf hsplit, _, swapTurn_url out hal hsplit hrun⟩

end RedfishProxy.Http
