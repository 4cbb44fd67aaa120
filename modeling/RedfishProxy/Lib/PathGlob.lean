import RedfishProxy.Lib.Text

/-!
# Globs over paths

A pattern in which a wildcard stands for a whole segment, and matches any one
segment, an empty one included. Two patterns that match one path overlap, which
can be told from the patterns.
-/

namespace Lib.PathGlob

/-- Segment by segment. -/
def segmentsMatch : List Text → List Text → Bool
  | [], [] => true
  | part :: pattern, segment :: path =>
    (part == ['*'] || part == segment) && segmentsMatch pattern path
  | _, _ => false

/-- The pattern matches the path. -/
def globMatches (pattern path : Text) : Bool :=
  segmentsMatch (pattern.splitOn '/') (path.splitOn '/')

/-- Some path is matched by both, as far as their segments tell. -/
def segmentsOverlap : List Text → List Text → Bool
  | [], [] => true
  | part :: pattern, part' :: pattern' =>
    (part == ['*'] || part' == ['*'] || part == part') && segmentsOverlap pattern pattern'
  | _, _ => false

def globsOverlap (pattern pattern' : Text) : Bool :=
  segmentsOverlap (pattern.splitOn '/') (pattern'.splitOn '/')

theorem segmentsOverlap_of_match {pattern pattern' path : List Text}
    (h : segmentsMatch pattern path = true) (h' : segmentsMatch pattern' path = true) :
    segmentsOverlap pattern pattern' = true := by
  induction path generalizing pattern pattern' with
  | nil =>
      cases pattern <;> cases pattern' <;> simp_all [segmentsMatch, segmentsOverlap]
  | cons segment path ih =>
      cases pattern with
      | nil => cases h
      | cons part pattern =>
          cases pattern' with
          | nil => cases h'
          | cons part' pattern' =>
              simp only [segmentsMatch, segmentsOverlap, Bool.and_eq_true, Bool.or_eq_true,
                beq_iff_eq] at h h' ⊢
              refine ⟨?_, ih h.2 h'.2⟩
              rcases h.1 with hstar | hpart
              · exact .inl (.inl hstar)
              · rcases h'.1 with hstar | hpart'
                · exact .inl (.inr hstar)
                · exact .inr (hpart.trans hpart'.symm)

/-- Patterns that match one path overlap. -/
theorem globsOverlap_of_matches {pattern pattern' path : Text}
    (h : globMatches pattern path = true) (h' : globMatches pattern' path = true) :
    globsOverlap pattern pattern' = true := segmentsOverlap_of_match h h'

/-- Pieces are matched side by side. -/
theorem segmentsMatch_append {pattern pattern' segments segments' : List Text}
    (h : segmentsMatch pattern segments = true) (h' : segmentsMatch pattern' segments' = true) :
    segmentsMatch (pattern ++ pattern') (segments ++ segments') = true := by
  induction pattern generalizing segments with
  | nil =>
      cases segments with
      | nil => exact h'
      | cons segment segments => cases h
  | cons part pattern ih =>
      cases segments with
      | nil => cases h
      | cons segment segments =>
          simp only [List.cons_append, segmentsMatch, Bool.and_eq_true] at h ⊢
          exact ⟨h.1, ih h.2⟩

/-- A pattern without a wildcard matches itself alone. -/
theorem eq_of_segmentsMatch {pattern path : List Text} (hplain : ['*'] ∉ pattern)
    (h : segmentsMatch pattern path = true) : path = pattern := by
  induction pattern generalizing path with
  | nil =>
      cases path with
      | nil => rfl
      | cons segment path => cases h
  | cons part pattern ih =>
      cases path with
      | nil => cases h
      | cons segment path =>
          simp only [segmentsMatch, Bool.and_eq_true, Bool.or_eq_true, beq_iff_eq] at h
          rw [List.mem_cons, not_or] at hplain
          rw [ih hplain.2 h.2, ← h.1.resolve_left (Ne.symm hplain.1)]

theorem eq_of_globMatches {pattern path : Text} (hplain : ['*'] ∉ pattern.splitOn '/')
    (h : globMatches pattern path = true) : path = pattern := by
  have hsegments := eq_of_segmentsMatch hplain h
  have hjoin : ∀ text : Text, ['/'].intercalate (text.splitOn '/') = text :=
    fun _ => List.intercalate_splitOn '/'
  rw [← hjoin path, hsegments, hjoin]

end Lib.PathGlob
