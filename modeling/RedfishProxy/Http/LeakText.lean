import RedfishProxy.Http.Leak
import RedfishProxy.Lib.Json

/-!
# Leaks in a text put together from parts

A character that no authority holds cuts a text in two: what leaks is then what
leaks in one of the halves (`leaks_break`), and parts with such a character
between them leak one by one (`leaks_join`). Writing a text as a JSON string
makes no `://` and ends no authority later (`sep_of_escaped`).
-/

namespace RedfishProxy.Http

open Lib

/-- A character outside every authority, and outside `://`. -/
def isBreak (c : Char) : Bool := !isUserinfoChar c && c != '@' && c != '/'

theorem isBreak_of_isUserinfoChar {c : Char} (h : isUserinfoChar c = true) : isBreak c = false := by
  simp [isBreak, h]

theorem isUserinfoChar_of_isAlphanum {c : Char} (h : c.isAlphanum = true) :
    isUserinfoChar c = true := by
  simp [isUserinfoChar, h]

theorem continuesHost_of_isBreak {c : Char} (h : isBreak c = true) : continuesHost c = false := by
  by_contra hcontinues
  simp only [continuesHost, List.mem_cons, List.not_mem_nil, or_false, Bool.or_eq_true,
    decide_eq_true_eq, Bool.not_eq_false] at hcontinues
  rcases hcontinues with hc | rfl | rfl | rfl | rfl | rfl
  · rw [isBreak_of_isUserinfoChar (isUserinfoChar_of_isAlphanum hc)] at h
    cases h
  all_goals exact absurd h (by decide)

section Break

variable {ip : Ipv4Addr}

theorem isBreak_of_mem_display {c : Char} (h : c ∈ ip.display) : isBreak c = false := by
  rcases Ipv4Addr.mem_display h with hc | rfl
  · exact isBreak_of_isUserinfoChar (isUserinfoChar_of_isAlphanum (by simp [Char.isAlphanum, hc]))
  · decide

theorem isBreak_of_mem_authority {authority : Text} (h : IsAuthorityOf ip.display authority)
    {c : Char} (hc : c ∈ authority) : isBreak c = false := by
  obtain ⟨user, port, rfl, huser, hport⟩ := h
  rcases List.mem_append.mp hc with hc | hc
  · rcases List.mem_append.mp hc with hc | hc
    · rcases huser with rfl | ⟨name, rfl, hname⟩
      · cases hc
      · rcases List.mem_append.mp hc with hc | hc
        · exact isBreak_of_isUserinfoChar (hname c hc)
        · obtain rfl := List.mem_singleton.mp hc
          decide
    · exact isBreak_of_mem_display hc
  · rcases hport with rfl | ⟨digits, rfl, hdigits⟩
    · cases hc
    · rcases List.mem_cons.mp hc with rfl | hc
      · decide
      · exact isBreak_of_isUserinfoChar
          (isUserinfoChar_of_isAlphanum (by simp [Char.isAlphanum, hdigits c hc]))

/-- What stands behind a `://` names the host before the break or not at all. -/
theorem namesHost_break {d : Char} (hd : isBreak d = true) (x y : Text) :
    NamesHost ip.display (x ++ d :: y) ↔ NamesHost ip.display x := by
  constructor
  · intro h
    obtain ⟨authority, rest, heq, hauth, hends⟩ := h
    rcases List.append_eq_append_iff.mp heq with ⟨z, hz, hrest⟩ | ⟨z, hx, hrest⟩
    · -- The authority cannot reach the break.
      cases z with
      | nil =>
          refine ⟨authority, [], by simpa using hz.symm, hauth, ?_⟩
          intro c hc
          cases hc
      | cons c z =>
          obtain ⟨rfl, _⟩ := List.cons.inj hrest
          have hmem : d ∈ authority := by simp [hz]
          rw [isBreak_of_mem_authority hauth hmem] at hd
          cases hd
    · refine ⟨authority, z, hx, hauth, ?_⟩
      intro c hc
      refine hends c ?_
      rw [hrest]
      cases z with
      | nil => cases hc
      | cons e z => exact hc
  · intro h
    obtain ⟨authority, rest, rfl, hauth, hends⟩ := h
    refine ⟨authority, rest ++ d :: y, by simp, hauth, ?_⟩
    intro c hc
    cases rest with
    | nil =>
        obtain rfl : d = c := by simpa using hc
        exact continuesHost_of_isBreak hd
    | cons e rest => exact hends c (by simpa using hc)

/-- **A break cuts a text in two.** -/
theorem leaks_break {d : Char} (hd : isBreak d = true) (x y : Text) :
    Leaks ip.display (x ++ d :: y) ↔ Leaks ip.display x ∨ Leaks ip.display y := by
  constructor
  · intro h
    obtain ⟨before, after, heq, halpha, hnames⟩ := h
    rw [List.append_assoc] at heq
    rcases List.append_eq_append_iff.mp heq with ⟨z, hbefore, hz⟩ | ⟨z, hx, hz⟩
    · -- The separator stands behind the break.
      cases z with
      | nil =>
          obtain ⟨rfl, _⟩ := List.cons.inj hz
          exact absurd hd (by decide)
      | cons c z =>
          obtain ⟨rfl, hy⟩ := List.cons.inj hz
          refine .inr ⟨z, after, by simpa using hy, ?_, hnames⟩
          rw [hbefore, endsAlpha_append (by simp)] at halpha
          cases z with
          | nil =>
              obtain ⟨front, letter, hletter, hisAlpha⟩ := halpha
              have hlast : [] ++ [d] = front ++ [letter] := hletter
              obtain rfl : d = letter := by simpa using List.append_inj_right' hlast rfl
              rw [isBreak_of_isUserinfoChar
                (isUserinfoChar_of_isAlphanum (by simp [Char.isAlphanum, hisAlpha]))] at hd
              cases hd
          | cons e z =>
              exact (endsAlpha_append (x := [d]) (by simp)).mp halpha
    · -- It stands before the break, which it cannot hold.
      rcases z with _ | ⟨c, _ | ⟨e, _ | ⟨f, z⟩⟩⟩
      · obtain ⟨rfl, _⟩ : ':' = d ∧ _ := by simpa using hz
        exact absurd hd (by decide)
      · obtain ⟨_, rfl, _⟩ : ':' = c ∧ '/' = d ∧ _ := by simpa using hz
        exact absurd hd (by decide)
      · obtain ⟨_, _, rfl, _⟩ : ':' = c ∧ '/' = e ∧ '/' = d ∧ _ := by simpa using hz
        exact absurd hd (by decide)
      · obtain ⟨rfl, rfl, rfl, rfl⟩ : ':' = c ∧ '/' = e ∧ '/' = f ∧ after = z ++ d :: y := by
          simpa using hz
        exact .inl ⟨before, z, by simp [hx], halpha, (namesHost_break hd z y).mp hnames⟩
  · intro h
    rcases h with ⟨before, after, rfl, halpha, hnames⟩ | ⟨before, after, rfl, halpha, hnames⟩
    · exact ⟨before, after ++ d :: y, by simp, halpha, (namesHost_break hd after y).mpr hnames⟩
    · refine ⟨x ++ d :: before, after, by simp, ?_, hnames⟩
      have hne : before ≠ [] := by
        obtain ⟨front, letter, rfl, _⟩ := halpha
        simp
      rw [List.append_cons, endsAlpha_append hne]
      exact halpha

theorem not_leaks_of_noSep {text : Text} (h : NoSep text) : ¬ Leaks ip.display text := by
  intro hleaks
  obtain ⟨before, after, heq, _⟩ := hleaks
  exact h before after heq

theorem not_leaks_nil : ¬ Leaks ip.display [] := by
  intro h
  obtain ⟨before, after, heq, _⟩ := h
  simp at heq

/-- **Parts with a break between them leak one by one.** -/
theorem leaks_join {x y : Text}
    (h : (∃ front d, x = front ++ [d] ∧ isBreak d = true) ∨
      ∃ d back, y = d :: back ∧ isBreak d = true) :
    Leaks ip.display (x ++ y) ↔ Leaks ip.display x ∨ Leaks ip.display y := by
  rcases h with ⟨front, d, rfl, hd⟩ | ⟨d, back, rfl, hd⟩
  · have hlast : Leaks ip.display (front ++ [d]) ↔ _ := leaks_break hd front []
    rw [List.append_assoc, List.singleton_append, leaks_break hd, hlast]
    simp [not_leaks_nil]
  · have hfirst : Leaks ip.display (d :: back) ↔ _ := leaks_break hd [] back
    rw [leaks_break hd, hfirst]
    simp [not_leaks_nil]

end Break

/-! ## JSON strings -/

theorem escaped_eq_cons {text : Text} {d : Char} {rest : Text} (hd : d ≠ '\\')
    (h : Json.escaped text = d :: rest) :
    ∃ tail, text = d :: tail ∧ rest = Json.escaped tail := by
  cases text with
  | nil => cases h
  | cons c tail =>
      rw [Json.escaped_cons] at h
      rcases Json.escape_cases c with ⟨hc, _⟩ | ⟨more, hc, _⟩
      · rw [hc] at h
        obtain ⟨rfl, hrest⟩ := List.cons.inj h
        exact ⟨tail, rfl, hrest.symm⟩
      · rw [hc] at h
        exact absurd (List.cons.inj h).1.symm hd

/-- A written string shows a `://` only where the text has one. -/
theorem sep_of_escaped {text before after : Text}
    (h : Json.escaped text = before ++ sep ++ after) : ∃ b a, text = b ++ sep ++ a := by
  induction text generalizing before with
  | nil => simp at h
  | cons c text ih =>
      rw [Json.escaped_cons] at h
      rcases Json.escape_cases c with ⟨hc, _⟩ | ⟨more, hc, _, hcolon, _⟩
      · rw [hc] at h
        cases before with
        | nil =>
            obtain ⟨rfl, htail⟩ := List.cons.inj h
            obtain ⟨t, rfl, hrest⟩ := escaped_eq_cons (by decide) htail
            obtain ⟨t, rfl, _⟩ := escaped_eq_cons (by decide) hrest.symm
            exact ⟨[], t, rfl⟩
        | cons e before =>
            obtain ⟨b, a, rfl⟩ := ih (List.cons.inj h).2
            exact ⟨c :: b, a, rfl⟩
      · rw [hc, List.append_assoc] at h
        rcases List.append_eq_append_iff.mp h with ⟨z, _, hz⟩ | ⟨z, hmore, hz⟩
        · have htext : Json.escaped text = z ++ sep ++ after := by rw [hz, List.append_assoc]
          obtain ⟨b, a, rfl⟩ := ih htext
          exact ⟨c :: b, a, rfl⟩
        · cases z with
          | nil =>
              have htext : Json.escaped text = [] ++ sep ++ after := hz.symm
              obtain ⟨b, a, rfl⟩ := ih htext
              exact ⟨c :: b, a, rfl⟩
          | cons e z =>
              obtain ⟨rfl, _⟩ := List.cons.inj hz
              have hmem : ':' ∈ '\\' :: more := by simp [hmore]
              rcases List.mem_cons.mp hmem with hmem | hmem
              · exact absurd hmem (by decide)
              · exact absurd hmem hcolon

theorem NoSep.escaped {text : Text} (h : NoSep text) : NoSep (Json.escaped text) := by
  intro before after heq
  obtain ⟨b, a, htext⟩ := sep_of_escaped heq
  exact h b a htext

theorem noSep_of_splitOnce {text : Text} (h : text.splitOnce sep = none) : NoSep text :=
  fun _ _ => Text.splitOnce_eq_none h

end RedfishProxy.Http
