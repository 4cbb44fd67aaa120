import Mathlib.Data.List.Sort

/-!
# First match in a table sorted by rank

A rule table is sorted once, highest rank first and declaration order kept
among equals, and the first rule that matches decides. `find?_sortByRank` says
which rule of the *declared* list that is: the first one of highest rank among
those that match (`IsBest`).
-/

namespace Lib.Precedence

variable {α : Type} (rank : α → Nat)

/-- `a` may stand before `b`. -/
abbrev Outranks (a b : α) : Prop := rank b ≤ rank a

/-- A stable sort, highest rank first. -/
def sortByRank (rules : List α) : List α := rules.insertionSort (Outranks rank)

theorem mem_sortByRank {rules : List α} {a : α} :
    a ∈ sortByRank rank rules ↔ a ∈ rules := List.mem_insertionSort _

theorem pairwise_sortByRank (rules : List α) :
    (sortByRank rank rules).Pairwise (Outranks rank) := by
  have : Std.Total (Outranks rank) := ⟨fun a b => le_total (rank b) (rank a)⟩
  have : IsTrans α (Outranks rank) := ⟨fun _ _ _ hab hbc => le_trans hbc hab⟩
  exact List.pairwise_insertionSort _ rules

/-- `a` is the first rule of highest rank among those that match. -/
def IsBest (p : α → Bool) (rules : List α) (a : α) : Prop :=
  ∃ front back, rules = front ++ a :: back ∧ p a = true ∧
    (∀ b ∈ front, p b = true → rank b < rank a) ∧
    ∀ b ∈ back, p b = true → rank b ≤ rank a

theorem IsBest.mem {p : α → Bool} {rules : List α} {a : α} (h : IsBest rank p rules a) :
    a ∈ rules ∧ p a = true := by
  obtain ⟨front, back, rfl, hp, _⟩ := h
  exact ⟨by simp, hp⟩

/-- Of two that match, the one in front outranks the other or gives way to it. -/
theorem IsBest.not_behind {p : α → Bool} {front back front' back' : List α} {a b : α}
    (hb : p b = true)
    (hback : ∀ c ∈ back, p c = true → rank c ≤ rank a) (ha : p a = true)
    (hfront : ∀ c ∈ front', p c = true → rank c < rank b) {middle : List α}
    (hin : front' = front ++ middle) (hout : a :: back = middle ++ b :: back') : a = b := by
  cases middle with
  | nil => exact (List.cons.inj hout).1
  | cons first middle =>
      obtain ⟨rfl, rfl⟩ := List.cons.inj hout
      have hlt := hfront a (by simp [hin]) ha
      have hle := hback b (by simp) hb
      omega

theorem IsBest.unique {p : α → Bool} {rules : List α} {a b : α} (h : IsBest rank p rules a)
    (h' : IsBest rank p rules b) : a = b := by
  obtain ⟨front, back, rfl, ha, hfront, hback⟩ := h
  obtain ⟨front', back', heq, hb, hfront', hback'⟩ := h'
  rcases List.append_eq_append_iff.mp heq with ⟨middle, hin, hout⟩ | ⟨middle, hin, hout⟩
  · exact IsBest.not_behind rank hb hback ha hfront' hin hout
  · exact (IsBest.not_behind rank ha hback' hb hfront hin hout).symm

theorem exists_of_forall₂ {β : Type} {R : α → β → Prop} {rules : List α} {others : List β}
    (hall : List.Forall₂ R rules others) {a : α} (ha : a ∈ rules) : ∃ b ∈ others, R a b := by
  induction hall with
  | nil => cases ha
  | cons hab _ ih =>
      rcases List.mem_cons.mp ha with rfl | ha
      · exact ⟨_, by simp, hab⟩
      · obtain ⟨b, hb, hab⟩ := ih ha
        exact ⟨b, by simp [hb], hab⟩

theorem split_forall₂ {β : Type} {R : α → β → Prop} {rules : List α} {front' back' : List β}
    {b : β} (hall : List.Forall₂ R rules (front' ++ b :: back')) :
    ∃ front a back, rules = front ++ a :: back ∧ List.Forall₂ R front front' ∧ R a b ∧
      List.Forall₂ R back back' := by
  induction front' generalizing rules with
  | nil =>
      obtain ⟨a, back, hab, hbacks, rfl⟩ := List.forall₂_cons_right_iff.mp hall
      exact ⟨[], a, back, rfl, .nil, hab, hbacks⟩
  | cons first' front' ih =>
      obtain ⟨first, rest, hfirst, hrest, rfl⟩ := List.forall₂_cons_right_iff.mp hall
      obtain ⟨front, a, back, rfl, hfronts, hab, hbacks⟩ := ih hrest
      exact ⟨first :: front, a, back, rfl, .cons hfirst hfronts, hab, hbacks⟩

/-- Rules that correspond one to one have corresponding best ones. -/
theorem IsBest.of_forall₂ {β : Type} {rank' : β → Nat} {p : α → Bool} {q : β → Bool}
    {R : α → β → Prop} (hR : ∀ a b, R a b → rank a = rank' b ∧ p a = q b) {rules : List α}
    {others : List β} (hall : List.Forall₂ R rules others) {b : β} (h : IsBest rank' q others b) :
    ∃ a, R a b ∧ IsBest rank p rules a := by
  obtain ⟨front', back', rfl, hq, hfront, hback⟩ := h
  obtain ⟨front, a, back, rfl, hfronts, hab, hbacks⟩ := split_forall₂ hall
  obtain ⟨hrank, hp⟩ := hR a b hab
  refine ⟨a, hab, front, back, rfl, by rw [hp, hq], ?_, ?_⟩
  · intro c hc hpc
    obtain ⟨d, hd, hcd⟩ := exists_of_forall₂ hfronts hc
    obtain ⟨hrank', hp'⟩ := hR c d hcd
    have hlt := hfront d hd (by rw [← hp', hpc])
    omega
  · intro c hc hpc
    obtain ⟨d, hd, hcd⟩ := exists_of_forall₂ hbacks hc
    obtain ⟨hrank', hp'⟩ := hR c d hcd
    have hle := hback d hd (by rw [← hp', hpc])
    omega

/-- The best rule of a longer table: the new one, unless the old best outranks
it strictly. -/
theorem isBest_cons {p : α → Bool} {c : α} {rules : List α} {a : α}
    (h : IsBest rank p rules a) :
    if p c = true ∧ rank a ≤ rank c then IsBest rank p (c :: rules) c
      else IsBest rank p (c :: rules) a := by
  obtain ⟨front, back, rfl, hp, hfront, hback⟩ := h
  split
  · rename_i hc
    refine ⟨[], front ++ a :: back, rfl, hc.1, by simp, ?_⟩
    intro b hb hpb
    rcases List.mem_append.mp hb with hb | hb
    · exact (hfront b hb hpb).le.trans hc.2
    · rcases List.mem_cons.mp hb with rfl | hb
      · exact hc.2
      · exact (hback b hb hpb).trans hc.2
  · rename_i hc
    refine ⟨c :: front, back, rfl, hp, ?_, hback⟩
    intro b hb hpb
    rcases List.mem_cons.mp hb with rfl | hb
    · by_contra hlt
      exact hc ⟨hpb, Nat.le_of_not_lt hlt⟩
    · exact hfront b hb hpb

theorem isBest_cons_of_none {p : α → Bool} {c : α} {rules : List α}
    (h : ∀ b ∈ rules, p b = false) (hc : p c = true) : IsBest rank p (c :: rules) c := by
  refine ⟨[], rules, rfl, hc, by simp, ?_⟩
  intro b hb hpb
  rw [h b hb] at hpb
  cases hpb

/-- Where no rule is outranked by a later one that can match with it, the first
match in the declared order is the best. -/
theorem isBest_of_find? {p : α → Bool} {rules : List α} {a : α} (h : rules.find? p = some a)
    (hsorted : rules.Pairwise fun b c => p b = true → p c = true → rank c ≤ rank b) :
    IsBest rank p rules a := by
  obtain ⟨hp, front, back, rfl, hfront⟩ := List.find?_eq_some_iff_append.mp h
  obtain ⟨_, hback, _⟩ := List.pairwise_append.mp hsorted
  refine ⟨front, back, rfl, hp, fun b hb hpb => ?_, fun b hb hpb => ?_⟩
  · have hnot := hfront b hb
    rw [hpb] at hnot
    cases hnot
  · exact (List.pairwise_cons.mp hback).1 b hb hp hpb

/-- Inserting one rule: it is found first exactly when it matches and nothing
that matches outranks it strictly. -/
theorem find?_orderedInsert (p : α → Bool) (c : α) {sorted : List α}
    (h : sorted.Pairwise (Outranks rank)) :
    (sorted.orderedInsert (Outranks rank) c).find? p =
      match sorted.find? p with
      | none => if p c then some c else none
      | some a => if p c = true ∧ rank a ≤ rank c then some c else some a := by
  induction sorted with
  | nil => cases hc : p c <;> simp [hc]
  | cons d sorted ih =>
      obtain ⟨hd, hsorted⟩ := List.pairwise_cons.mp h
      by_cases hcd : rank d ≤ rank c
      · rw [List.orderedInsert_cons_of_le (Outranks rank) sorted hcd, List.find?_cons]
        have hrank : ∀ a, (d :: sorted).find? p = some a → rank a ≤ rank c := by
          intro a hfound
          rcases List.mem_cons.mp (List.mem_of_find?_eq_some hfound) with rfl | hmem
          · exact hcd
          · exact (hd a hmem).trans hcd
        cases hfound : (d :: sorted).find? p with
        | none => cases p c <;> simp
        | some a => cases p c <;> simp [hrank a hfound]
      · rw [List.orderedInsert_of_not_le (Outranks rank) sorted hcd, List.find?_cons]
        cases hpd : p d with
        | true => simp [hpd, hcd]
        | false => simpa [List.find?_cons, hpd] using ih hsorted

/-- **First match is best match.** -/
theorem find?_sortByRank {p : α → Bool} {rules : List α} {a : α}
    (h : (sortByRank rank rules).find? p = some a) : IsBest rank p rules a := by
  induction rules generalizing a with
  | nil => simp [sortByRank] at h
  | cons c rules ih =>
      have hinsert : (sortByRank rank (c :: rules)).find? p =
          ((sortByRank rank rules).orderedInsert (Outranks rank) c).find? p := rfl
      rw [hinsert, find?_orderedInsert rank p c (pairwise_sortByRank rank rules)] at h
      cases hfound : (sortByRank rank rules).find? p with
      | none =>
          rw [hfound] at h
          have hnone : ∀ b ∈ rules, p b = false := by
            intro b hb
            have := List.find?_eq_none.mp hfound b ((mem_sortByRank rank).mpr hb)
            simpa using this
          cases hc : p c with
          | true =>
              obtain rfl : c = a := by simpa [hc] using h
              exact isBest_cons_of_none rank hnone hc
          | false => simp [hc] at h
      | some b =>
          rw [hfound] at h
          have hstep := isBest_cons rank (c := c) (ih hfound)
          by_cases hc : p c = true ∧ rank b ≤ rank c
          · rw [if_pos hc] at hstep
            obtain rfl : c = a := by simpa [hc] using h
            exact hstep
          · rw [if_neg hc] at hstep
            obtain rfl : b = a := by simpa [hc] using h
            exact hstep

end Lib.Precedence
