import Mathlib.Order.Bounds.Defs
import RedfishProxy.Lib.Net
import RedfishProxy.Lib.Utf8

/-!
# The body in the log

`truncate_body`, which steps back from the cap to a character boundary and marks
what it left out.

Main results:
* `truncateBody_prefix`: what is kept is the longest prefix within the cap, and
  the mark counts the rest;
* `truncateBody_eq_iff`: when two bodies are logged the same.
-/

namespace RedfishProxy.Http

open Lib

/-- How much of a body reaches the log before it is clipped. -/
def MAX_BODY_LOG : Nat := 16 * 1024

/-- `str::is_char_boundary`. -/
def isCharBoundary (body : Text) (index : Nat) : Bool := (body.splitAt? index).isSome

/-- The `while` loop that steps back to a boundary. -/
def boundaryFrom (body : Text) : Nat → Nat
  | 0 => 0
  | last + 1 => if isCharBoundary body (last + 1) then last + 1 else boundaryFrom body last

/-- Truncates a body for logging and marks that it happened. -/
def truncateBody (body : Text) : Text :=
  if body.byteLen ≤ MAX_BODY_LOG then body
  else
    let last := boundaryFrom body MAX_BODY_LOG
    (body.sliceTo? last).getD [] ++ "… <truncated ".toList ++ decimal (body.byteLen - last) ++
      " bytes>".toList

/-! ## What a clipped body keeps -/

theorem le_boundaryFrom {body : Text} {k n : Nat} (hk : isCharBoundary body k = true)
    (hle : k ≤ n) : k ≤ boundaryFrom body n := by
  induction n with
  | zero => omega
  | succ n ih =>
      rw [boundaryFrom]
      split
      · exact hle
      · rename_i hnot
        have hne : k ≠ n + 1 := fun heq => hnot (heq ▸ hk)
        exact ih (by omega)

theorem isCharBoundary_boundaryFrom (body : Text) (n : Nat) :
    isCharBoundary body (boundaryFrom body n) = true := by
  induction n with
  | zero => cases body <;> rfl
  | succ n ih =>
      rw [boundaryFrom]
      split
      · assumption
      · exact ih

theorem boundaryFrom_le (body : Text) (n : Nat) : boundaryFrom body n ≤ n := by
  induction n with
  | zero => exact Nat.le_refl 0
  | succ n ih =>
      rw [boundaryFrom]
      split
      · exact Nat.le_refl _
      · omega

/-- Where a body is cut. -/
def clipAt (body : Text) : Nat := boundaryFrom body MAX_BODY_LOG

/-- A clipped body: what is kept, and how much is not. -/
theorem truncateBody_long {body : Text} (h : MAX_BODY_LOG < body.byteLen) :
    ∃ front rest, body = front ++ rest ∧ MAX_BODY_LOG < front.byteLen + 4 ∧
      body.sliceTo? (clipAt body) = some front ∧
      truncateBody body =
        front ++ '…' :: (" <truncated ".toList ++ (decimal rest.byteLen ++ " bytes>".toList)) := by
  obtain ⟨⟨front, rest⟩, hsplit⟩ :=
    Option.isSome_iff_exists.mp (isCharBoundary_boundaryFrom body MAX_BODY_LOG)
  obtain ⟨hbody, hlen⟩ := Text.eq_of_splitAt? hsplit
  obtain ⟨a, b, hcut, hle, hlt⟩ := Text.exists_cut (Nat.le_of_lt h)
  have hbound : isCharBoundary body a.byteLen = true := by
    unfold isCharBoundary
    rw [hcut, Text.splitAt?_append]
    rfl
  have hmax := le_boundaryFrom hbound hle
  have hslice : body.sliceTo? (clipAt body) = some front := by
    unfold Text.sliceTo? clipAt
    rw [hsplit]
    rfl
  refine ⟨front, rest, hbody, by omega, hslice, ?_⟩
  have hrest : body.byteLen - clipAt body = rest.byteLen := by
    have hsum := congrArg Text.byteLen hbody
    rw [Text.byteLen_append] at hsum
    unfold clipAt
    omega
  unfold truncateBody
  rw [if_neg (by omega)]
  show (body.sliceTo? (clipAt body)).getD [] ++ "… <truncated ".toList ++
    decimal (body.byteLen - clipAt body) ++ " bytes>".toList = _
  rw [hslice, hrest, List.append_assoc, List.append_assoc]
  rfl

theorem truncateBody_short {body : Text} (h : body.byteLen ≤ MAX_BODY_LOG) :
    truncateBody body = body := if_pos h

/-- The cut is the last boundary within the cap. -/
theorem isGreatest_clipAt (body : Text) :
    IsGreatest {k | k ≤ MAX_BODY_LOG ∧ Text.IsBoundary body k} (clipAt body) :=
  ⟨⟨boundaryFrom_le body MAX_BODY_LOG,
      Text.isSome_splitAt?_iff.mp (isCharBoundary_boundaryFrom body MAX_BODY_LOG)⟩,
    fun _ h => le_boundaryFrom (Text.isSome_splitAt?_iff.mpr h.2) h.1⟩

/-- **A clipped body is an honest prefix.** Up to the cap a body is logged whole.
Of a longer one the longest prefix within the cap is kept, which no slice misses
and which at most three bytes more would fit, and the mark counts the rest. -/
theorem truncateBody_prefix (body : Text) :
    (body.byteLen ≤ 16384 → truncateBody body = body) ∧
    (16384 < body.byteLen → ∃ kept left,
      IsGreatest {k | k ≤ 16384 ∧ Text.IsBoundary body k} (clipAt body) ∧
      body.sliceTo? (clipAt body) = some kept ∧ kept.byteLen = clipAt body ∧
      kept <+: body ∧ 16381 ≤ kept.byteLen ∧ kept.byteLen ≤ 16384 ∧
      (∀ other : Text, other <+: body → other.byteLen ≤ 16384 → other <+: kept) ∧
      left + kept.byteLen = body.byteLen ∧
      truncateBody body =
        kept ++ ("… <truncated ".toList ++ (decimal left ++ " bytes>".toList))) := by
  refine ⟨truncateBody_short, fun hlong => ?_⟩
  obtain ⟨kept, rest, hbody, hbound, hslice, htext⟩ := truncateBody_long hlong
  have hgreatest := isGreatest_clipAt body
  have hlen : kept.byteLen = clipAt body := Text.byteLen_of_sliceTo? hslice
  have hmost : kept.byteLen ≤ 16384 := by
    rw [hlen]
    exact hgreatest.1.1
  have hleast : 16381 ≤ kept.byteLen := by
    have hcap : MAX_BODY_LOG = 16384 := rfl
    omega
  have hprefix : kept <+: body := ⟨rest, hbody.symm⟩
  refine ⟨kept, rest.byteLen, hgreatest, hslice, hlen, hprefix, hleast, hmost, ?_, ?_, htext⟩
  · intro other hother hfits
    obtain ⟨behind, rfl⟩ := hother
    have hle : other.byteLen ≤ kept.byteLen := by
      rw [hlen]
      exact hgreatest.2 ⟨hfits, Text.isBoundary_append other behind⟩
    exact Text.prefix_of_byteLen_le (List.prefix_append other behind) hprefix hle
  · rw [hbody, Text.byteLen_append, Nat.add_comm]

/-- What is clipped is longer than what is not. -/
theorem lt_truncateBody {body : Text} (h : MAX_BODY_LOG < body.byteLen) :
    MAX_BODY_LOG < (truncateBody body).byteLen := by
  obtain ⟨front, rest, _, hfront, _, htext⟩ := truncateBody_long h
  have hmark : 4 ≤ Text.byteLen ('…' :: (" <truncated ".toList ++
      (decimal rest.byteLen ++ " bytes>".toList))) := by
    have htail : Text.byteLen " <truncated ".toList = 12 := by decide
    rw [Text.byteLen_cons, Text.byteLen_append, htail]
    omega
  rw [htext, Text.byteLen_append]
  omega

/-- The ellipsis of the mark is the last one. -/
theorem append_mark_inj {front front' tail tail' : Text} (h : '…' ∉ tail) (h' : '…' ∉ tail')
    (heq : front ++ '…' :: tail = front' ++ '…' :: tail') : front = front' ∧ tail = tail' := by
  have hsplit := Text.rsplitOnce_append (a := front) h
  rw [heq, Text.rsplitOnce_append h'] at hsplit
  injection hsplit with hsplit
  injection hsplit with hfront htail
  exact ⟨hfront.symm, htail.symm⟩

/-- The bodies are the same, or they are clipped and what is kept is. -/
def ClippedAlike (body body' : Text) : Prop :=
  body = body' ∨ (MAX_BODY_LOG < body.byteLen ∧ body.byteLen = body'.byteLen ∧
    body.sliceTo? (clipAt body) = body'.sliceTo? (clipAt body'))

/-- **Two bodies are logged the same exactly when they are clipped alike.** -/
theorem truncateBody_eq_iff (body body' : Text) :
    truncateBody body = truncateBody body' ↔ ClippedAlike body body' := by
  unfold ClippedAlike
  rcases Nat.lt_or_ge MAX_BODY_LOG body.byteLen with hlong | hshort
  · rcases Nat.lt_or_ge MAX_BODY_LOG body'.byteLen with hlong' | hshort'
    · obtain ⟨front, rest, hbody, _, hslice, htext⟩ := truncateBody_long hlong
      obtain ⟨front', rest', hbody', _, hslice', htext'⟩ := truncateBody_long hlong'
      have hmark : ∀ n : Nat,
          '…' ∉ " <truncated ".toList ++ (decimal n ++ " bytes>".toList) := by
        intro n hmem
        rcases List.mem_append.mp hmem with hmem | hmem
        · exact absurd hmem (by decide)
        · rcases List.mem_append.mp hmem with hmem | hmem
          · exact absurd (isDigit_of_mem_decimal hmem) (by decide)
          · exact absurd hmem (by decide)
      have hsum : body.byteLen = front.byteLen + rest.byteLen := by
        rw [hbody, Text.byteLen_append]
      have hsum' : body'.byteLen = front'.byteLen + rest'.byteLen := by
        rw [hbody', Text.byteLen_append]
      rw [htext, htext', hslice, hslice']
      constructor
      · intro heq
        obtain ⟨rfl, htail⟩ := append_mark_inj (hmark _) (hmark _) heq
        have hdigits := List.append_cancel_right (List.append_cancel_left htail)
        have hrest := decimal_injective hdigits
        exact .inr ⟨hlong, by omega, rfl⟩
      · intro h
        rcases h with heq | ⟨_, hlen, hfront⟩
        · rw [heq, hslice'] at hslice
          injection hslice with hslice
          have hrest : rest.byteLen = rest'.byteLen := by
            have hlen := congrArg Text.byteLen heq
            rw [hslice] at hsum'
            omega
          rw [hslice, hrest]
        · injection hfront with hfront
          have hrest : rest.byteLen = rest'.byteLen := by
            rw [hfront] at hsum
            omega
          rw [hfront, hrest]
    · have hlt := lt_truncateBody hlong
      rw [truncateBody_short hshort']
      refine iff_of_false ?_ ?_
      · intro heq
        rw [heq] at hlt
        omega
      · intro h
        rcases h with heq | ⟨_, hlen, _⟩
        · rw [heq] at hlong
          omega
        · omega
  · rw [truncateBody_short hshort]
    constructor
    · intro heq
      rcases Nat.lt_or_ge MAX_BODY_LOG body'.byteLen with hlong' | hshort'
      · have hlt := lt_truncateBody hlong'
        rw [← heq] at hlt
        omega
      · rw [truncateBody_short hshort'] at heq
        exact .inl heq
    · intro h
      rcases h with heq | ⟨hlong, _⟩
      · rw [← heq, truncateBody_short hshort]
      · omega

end RedfishProxy.Http
