import RedfishProxy.Lib.JsonFits

/-!
# Values that are the same up to their numbers

`Same R` compares strings character by character, arrays in order and objects
by their members in any order, with `R` for the numbers. `Somewhere P` says that
at one place both values hold a number, and that the two are as `P` says. The
comparison of two sorted lists of members is `Same` of the comparison of
numbers.
-/

namespace Lib.Json

variable {ν : Type}

inductive Same (R : ν → ν → Prop) : Json ν → Json ν → Prop where
  | null : Same R .null .null
  | bool (b : Bool) : Same R (.bool b) (.bool b)
  | number {n m : ν} (h : R n m) : Same R (.number n) (.number m)
  | string (text : Text) : Same R (.string text) (.string text)
  | array {as bs : List (Json ν)} (hlength : as.length = bs.length)
      (h : ∀ (i : Nat) a b, as[i]? = some a → bs[i]? = some b → Same R a b) :
      Same R (.array as) (.array bs)
  | object {fs gs : List (Text × Json ν)}
      (hkeys : ∀ key, (Fields.get key fs).isSome = (Fields.get key gs).isSome)
      (h : ∀ key a b, Fields.get key fs = some a → Fields.get key gs = some b → Same R a b) :
      Same R (.object fs) (.object gs)

/-- At some place both hold a number, and `P` holds of the two. -/
inductive Somewhere (P : ν → ν → Prop) : Json ν → Json ν → Prop where
  | number {n m : ν} (h : P n m) : Somewhere P (.number n) (.number m)
  | item {as bs : List (Json ν)} {a b : Json ν} (i : Nat) (ha : as[i]? = some a)
      (hb : bs[i]? = some b) (h : Somewhere P a b) : Somewhere P (.array as) (.array bs)
  | member {fs gs : List (Text × Json ν)} {a b : Json ν} (key : Text)
      (ha : Fields.get key fs = some a) (hb : Fields.get key gs = some b)
      (h : Somewhere P a b) : Somewhere P (.object fs) (.object gs)

/-- A condition on the numbers that stand at the same place comes out of the
comparison. -/
theorem same_and_iff {R P : ν → ν → Prop} {a b : Json ν} :
    Same (fun n m => R n m ∧ ¬ P n m) a b ↔ Same R a b ∧ ¬ Somewhere P a b := by
  constructor
  · intro h
    induction h with
    | null => exact ⟨.null, fun h => nomatch h⟩
    | bool b => exact ⟨.bool b, fun h => nomatch h⟩
    | number h =>
        refine ⟨.number h.1, ?_⟩
        rintro ⟨hp⟩
        exact h.2 hp
    | string text => exact ⟨.string text, fun h => nomatch h⟩
    | array hlength _ ih =>
        refine ⟨.array hlength fun i a b ha hb => (ih i a b ha hb).1, ?_⟩
        intro hsome
        cases hsome with
        | item i ha hb h => exact (ih i _ _ ha hb).2 h
    | object hkeys _ ih =>
        refine ⟨.object hkeys fun key a b ha hb => (ih key a b ha hb).1, ?_⟩
        intro hsome
        cases hsome with
        | member key ha hb h => exact (ih key _ _ ha hb).2 h
  · rintro ⟨h, hnot⟩
    induction h with
    | null => exact .null
    | bool b => exact .bool b
    | number h => exact .number ⟨h, fun hp => hnot (.number hp)⟩
    | string text => exact .string text
    | array hlength _ ih =>
        exact .array hlength fun i a b ha hb =>
          ih i a b ha hb fun h => hnot (.item i ha hb h)
    | object hkeys _ ih =>
        exact .object hkeys fun key a b ha hb =>
          ih key a b ha hb fun h => hnot (.member key ha hb h)

theorem Same.congr {R S : ν → ν → Prop} (hRS : ∀ n m, R n m ↔ S n m) {a b : Json ν} :
    Same R a b ↔ Same S a b := by
  have hfun : R = S := funext fun n => funext fun m => propext (hRS n m)
  rw [hfun]

/-! ## The comparison -/

theorem Fields.get_head (k : Text) (a : Json ν) (fs : Fields ν) :
    Fields.get k ((k, a) :: fs) = some a := if_pos rfl

theorem Fields.not_lt_of_get {fs : Fields ν} {k key : Text} {a : Json ν}
    (h : ((k, a) :: fs).Pairwise fun a b => a.1 < b.1)
    (hget : (Fields.get key ((k, a) :: fs)).isSome = true) : ¬ key < k := by
  obtain ⟨value, hvalue⟩ := Option.isSome_iff_exists.mp hget
  rcases List.mem_cons.mp (Fields.mem_of_get hvalue) with heq | hmem
  · cases heq
    exact List.lt_irrefl _
  · exact List.lt_asymm ((List.pairwise_cons.mp h).1 _ hmem)

theorem Fields.get_tail {fs : Fields ν} {k : Text} {a : Json ν}
    (h : ((k, a) :: fs).Pairwise fun a b => a.1 < b.1) : Fields.get k fs = none := by
  refine Fields.get_eq_none fun field hfield heq => ?_
  have habove := (List.pairwise_cons.mp h).1 field hfield
  rw [heq] at habove
  exact List.lt_irrefl _ habove

/-- Sorted members with the same keys begin with the same one. -/
theorem Fields.head_eq {fs gs : Fields ν} {k l : Text} {a b : Json ν}
    (hf : ((k, a) :: fs).Pairwise fun a b => a.1 < b.1)
    (hg : ((l, b) :: gs).Pairwise fun a b => a.1 < b.1)
    (hkeys : ∀ key, (Fields.get key ((k, a) :: fs)).isSome =
      (Fields.get key ((l, b) :: gs)).isSome) : k = l := by
  have hkl : ¬ k < l := Fields.not_lt_of_get hg (by rw [← hkeys, Fields.get_head]; rfl)
  have hlk : ¬ l < k := Fields.not_lt_of_get hf (by rw [hkeys, Fields.get_head]; rfl)
  exact List.le_antisymm hlk hkl

section Comparison

variable [BEq ν]

theorem beqItems_iff {as bs : List (Json ν)} :
    beqItems as bs = true ↔ as.length = bs.length ∧
      ∀ (i : Nat) a b, as[i]? = some a → bs[i]? = some b → beq a b = true := by
  induction as generalizing bs with
  | nil =>
      cases bs with
      | nil => simp [beqItems]
      | cons b bs => simp [beqItems]
  | cons a as ih =>
      cases bs with
      | nil => simp [beqItems]
      | cons b bs =>
          rw [beqItems, Bool.and_eq_true, ih]
          constructor
          · rintro ⟨hfirst, hlength, hrest⟩
            refine ⟨congrArg Nat.succ hlength, ?_⟩
            intro i x y hx hy
            cases i with
            | zero =>
                cases hx
                cases hy
                exact hfirst
            | succ i => exact hrest i x y hx hy
          · rintro ⟨hlength, hall⟩
            exact ⟨hall 0 a b rfl rfl, Nat.succ.inj hlength, fun i => hall (i + 1)⟩

/-- Sorted members are compared one to one, so the keys come to be the same. -/
theorem beqFields_iff {fs gs : Fields ν} (hf : fs.Pairwise fun a b => a.1 < b.1)
    (hg : gs.Pairwise fun a b => a.1 < b.1) :
    beqFields fs gs = true ↔
      (∀ key, (Fields.get key fs).isSome = (Fields.get key gs).isSome) ∧
        ∀ key a b, Fields.get key fs = some a → Fields.get key gs = some b →
          beq a b = true := by
  induction fs generalizing gs with
  | nil =>
      cases gs with
      | nil => simp [beqFields]
      | cons field gs =>
          refine ⟨(nomatch ·), fun h => ?_⟩
          have hkey := h.1 field.1
          rw [Fields.get_head field.1 field.2] at hkey
          cases hkey
  | cons field fs ih =>
      obtain ⟨k, a⟩ := field
      cases gs with
      | nil =>
          refine ⟨(nomatch ·), fun h => ?_⟩
          have hkey := h.1 k
          rw [Fields.get_head] at hkey
          cases hkey
      | cons field gs =>
          obtain ⟨l, b⟩ := field
          rw [beqFields, Bool.and_eq_true, Bool.and_eq_true, beq_iff_eq,
            ih (List.pairwise_cons.mp hf).2 (List.pairwise_cons.mp hg).2]
          constructor
          · rintro ⟨⟨rfl, hfirst⟩, hkeys, hrest⟩
            constructor
            · intro key
              rw [Fields.get, Fields.get]
              split_ifs
              · rfl
              · exact hkeys key
            · intro key x y hx hy
              rw [Fields.get] at hx hy
              split_ifs at hx hy
              · cases hx
                cases hy
                exact hfirst
              · exact hrest key x y hx hy
          · rintro ⟨hkeys, hall⟩
            obtain rfl : k = l := Fields.head_eq hf hg hkeys
            refine ⟨⟨rfl, hall k a b (Fields.get_head ..) (Fields.get_head ..)⟩, ?_, ?_⟩
            · intro key
              by_cases hkey : k = key
              · rw [← hkey, Fields.get_tail hf, Fields.get_tail hg]
              · have hwhole := hkeys key
                rw [Fields.get, Fields.get, if_neg hkey, if_neg hkey] at hwhole
                exact hwhole
            · intro key x y hx hy
              have hkey : k ≠ key := by
                rintro rfl
                rw [Fields.get_tail hf] at hx
                cases hx
              exact hall key x y (by rw [Fields.get, if_neg hkey, hx])
                (by rw [Fields.get, if_neg hkey, hy])

/-- Arrays whose items are compared so are compared so. -/
theorem beq_array_iff {as bs : List (Json ν)} (hitem : ∀ (i : Nat) x y, as[i]? = some x →
      bs[i]? = some y → (beq x y = true ↔ Same (fun n m => (n == m) = true) x y)) :
    beq (.array as) (.array bs) = true ↔
      Same (fun n m => (n == m) = true) (.array as) (.array bs) := by
  rw [beq, beqItems_iff]
  constructor
  · rintro ⟨hlength, hall⟩
    exact .array hlength fun i x y hx hy => (hitem i x y hx hy).mp (hall i x y hx hy)
  · intro hsame
    cases hsame with
    | array hlength hall =>
        exact ⟨hlength, fun i x y hx hy => (hitem i x y hx hy).mpr (hall i x y hx hy)⟩

/-- Sorted objects whose members are compared so are compared so. -/
theorem beq_object_iff {fs gs : Fields ν} (hf : fs.Pairwise fun a b => a.1 < b.1)
    (hg : gs.Pairwise fun a b => a.1 < b.1) (hmember : ∀ key x y, Fields.get key fs = some x →
      Fields.get key gs = some y → (beq x y = true ↔ Same (fun n m => (n == m) = true) x y)) :
    beq (.object fs) (.object gs) = true ↔
      Same (fun n m => (n == m) = true) (.object fs) (.object gs) := by
  rw [beq, beqFields_iff hf hg]
  constructor
  · rintro ⟨hkeys, hall⟩
    exact .object hkeys fun key x y hx hy => (hmember key x y hx hy).mp (hall key x y hx hy)
  · intro hsame
    cases hsame with
    | object hkeys hall =>
        exact ⟨hkeys, fun key x y hx hy => (hmember key x y hx hy).mpr (hall key x y hx hy)⟩

/-- **The comparison of sorted values** is `Same` of that of their numbers. -/
theorem beq_iff_same {a b : Json ν} (ha : a.Sorted) (hb : b.Sorted) :
    (a == b) = true ↔ Same (fun n m => (n == m) = true) a b := by
  show beq a b = true ↔ _
  induction a using Json.induction generalizing b with
  | null =>
      cases b with
      | null => exact ⟨fun _ => .null, fun _ => by rw [beq]⟩
      | _ => exact ⟨(nomatch ·), (nomatch ·)⟩
  | bool x =>
      cases b with
      | bool y =>
          rw [beq, beq_iff_eq]
          constructor
          · rintro rfl
            exact .bool x
          · rintro ⟨⟩
            rfl
      | _ => exact ⟨(nomatch ·), (nomatch ·)⟩
  | number n =>
      cases b with
      | number m =>
          rw [beq]
          constructor
          · intro h
            exact .number h
          · intro hsame
            cases hsame with
            | number h => exact h
      | _ => exact ⟨(nomatch ·), (nomatch ·)⟩
  | string x =>
      cases b with
      | string y =>
          rw [beq, beq_iff_eq]
          constructor
          · rintro rfl
            exact .string x
          · rintro ⟨⟩
            rfl
      | _ => exact ⟨(nomatch ·), (nomatch ·)⟩
  | array as ih =>
      cases b with
      | array bs =>
          obtain ⟨d, hd⟩ := ha
          obtain ⟨e, he⟩ := hb
          obtain ⟨d, rfl⟩ := hd.of_array
          obtain ⟨e, rfl⟩ := he.of_array
          refine beq_array_iff fun i x y hx hy => ?_
          have hx := List.mem_of_getElem? hx
          exact ih x hx ⟨d, hd.item hx⟩ ⟨e, he.item (List.mem_of_getElem? hy)⟩
      | _ => exact ⟨(nomatch ·), (nomatch ·)⟩
  | object fs ih =>
      cases b with
      | object gs =>
          exact beq_object_iff ha.pairwise hb.pairwise fun key x y hx hy =>
            ih _ (Fields.mem_of_get hx) (ha.get hx) (hb.get hy)
      | _ => exact ⟨(nomatch ·), (nomatch ·)⟩

end Comparison

end Lib.Json
