import RedfishProxy.Lib.JsonPatch
import RedfishProxy.Script.Patch

/-!
# The patch of the `util` module is the RFC's

The program walks to the parent of a location through a mutable reference and
acts on it there. The RFC works down the tokens and puts what came of it back on
the way up. The two agree on every location of a document whose arrays fit a
`Vec`, so they agree on every operation, and by induction on whole patches. The
invariant of the run is a bound on the arrays: an operation makes at most one of
them longer, by one.
-/

namespace RedfishProxy.ScriptUtil

open Lib Lib.Rfc6901 Lib.Rfc6902

/-! ## Results without their texts -/

theorem toOption_bind {α β : Type} (result : Except Text α) (f : α → Except Text β) :
    (result >>= f).toOption = result.toOption.bind fun a => (f a).toOption := by
  cases result <;> rfl

theorem toOption_map {α β : Type} (result : Except Text α) (f : α → β) :
    (result.map f).toOption = result.toOption.map f := by
  cases result <;> rfl

/-! ## Pointers -/

theorem replacePair_cons_of_ne {first second by' c : Char} (hc : c ≠ first) (t : Text) :
    replacePair first second by' (c :: t) = c :: replacePair first second by' t := by
  cases t with
  | nil => rfl
  | cons d t => rw [replacePair, if_neg fun h => hc h.1]

theorem unescape_cons {c : Char} (hc : c ≠ '~') (t : Text) :
    unescape (c :: t) = c :: unescape t := by
  unfold unescape
  rw [replacePair_cons_of_ne hc, replacePair_cons_of_ne hc]

theorem unescape_tilde (t : Text) : unescape ('~' :: '0' :: t) = '~' :: unescape t := by
  unfold unescape
  -- the first pass leaves the pair alone, and the second one takes it
  have hfirst : replacePair '~' '1' '/' ('~' :: '0' :: t) =
      '~' :: '0' :: replacePair '~' '1' '/' t := by
    rw [replacePair, if_neg (by decide), replacePair_cons_of_ne (by decide)]
  rw [hfirst, replacePair, if_pos ⟨rfl, rfl⟩]

theorem unescape_slash (t : Text) : unescape ('~' :: '1' :: t) = '/' :: unescape t := by
  unfold unescape
  have hfirst : replacePair '~' '1' '/' ('~' :: '1' :: t) =
      '/' :: replacePair '~' '1' '/' t := by
    rw [replacePair, if_pos ⟨rfl, rfl⟩]
  rw [hfirst, replacePair_cons_of_ne (by decide)]

theorem splitOn_slash (t : Text) : ('/' :: t).splitOn '/' = [] :: t.splitOn '/' := by
  rw [List.splitOn_cons_eq_if_modifyHead, if_pos (by decide)]

theorem splitOn_append {raw : Text} (hraw : '/' ∉ raw) (t : Text) :
    (raw ++ t).splitOn '/' = (t.splitOn '/').modifyHead (raw ++ ·) := by
  induction raw with
  | nil =>
      rw [List.nil_append]
      cases t.splitOn '/' <;> rfl
  | cons c raw ih =>
      have hc : c ≠ '/' := fun h => hraw (h ▸ List.mem_cons_self)
      have hraw : '/' ∉ raw := fun h => hraw (List.mem_cons_of_mem _ h)
      rw [List.cons_append, List.splitOn_cons_eq_if_modifyHead, if_neg (by simpa using hc),
        ih hraw]
      cases t.splitOn '/' <;> rfl

/-- Raw text that stands for one character goes in front of the first token. -/
theorem map_unescape_append {raw rest first : Text} {others : List Text} {c : Char}
    (hraw : '/' ∉ raw) (hread : ∀ t, unescape (raw ++ t) = c :: unescape t)
    (h : (rest.splitOn '/').map unescape = first :: others) :
    ((raw ++ rest).splitOn '/').map unescape = (c :: first) :: others := by
  rw [splitOn_append hraw]
  cases hsplit : rest.splitOn '/' with
  | nil => simp [hsplit] at h
  | cons head tail =>
      rw [hsplit, List.map_cons, List.cons.injEq] at h
      rw [List.modifyHead_cons, List.map_cons, hread, h.1, h.2]

/-- Splitting and then unescaping reads the tokens of a well-formed text. -/
theorem map_unescape_splitOn {t token : Text} {tokens : List Text}
    (h : scan t = some (token, tokens)) : (t.splitOn '/').map unescape = token :: tokens := by
  fun_induction scan t generalizing token tokens with
  | case1 =>
      cases h
      rfl
  | case2 rest ih =>
      obtain ⟨⟨first, others⟩, hrest, h⟩ := Option.map_eq_some_iff.1 h
      cases h
      rw [splitOn_slash, List.map_cons, ih hrest]
      rfl
  -- the two escapes
  | case3 rest ih =>
      obtain ⟨⟨first, others⟩, hrest, h⟩ := Option.map_eq_some_iff.1 h
      cases h
      exact map_unescape_append (show '/' ∉ ['~', '0'] by decide) unescape_tilde (ih hrest)
  | case4 rest ih =>
      obtain ⟨⟨first, others⟩, hrest, h⟩ := Option.map_eq_some_iff.1 h
      cases h
      exact map_unescape_append (show '/' ∉ ['~', '1'] by decide) unescape_slash (ih hrest)
  -- a tilde in front of anything else is no token
  | case5 => cases h
  | case6 c rest hslash _ _ htilde ih =>
      obtain ⟨⟨first, others⟩, hrest, h⟩ := Option.map_eq_some_iff.1 h
      cases h
      have hraw : '/' ∉ [c] := by simpa using Ne.symm hslash
      exact map_unescape_append hraw (unescape_cons htilde) (ih hrest)

variable (unprintable : Char → Bool)

theorem pointerTokens_of_parse {pointer : Text} {tokens : List Text}
    (h : Rfc6901.parse pointer = some tokens) : pointerTokens unprintable pointer = .ok tokens := by
  unfold Rfc6901.parse at h
  split at h
  · cases h
    rfl
  · obtain ⟨⟨first, others⟩, hscan, h⟩ := Option.map_eq_some_iff.1 h
    cases h
    show Except.ok _ = _
    rw [map_unescape_splitOn hscan]
  · cases h

/-! ## Array indices -/

theorem utf8Size_of_isDigit {c : Char} (h : c.isDigit = true) : c.utf8Size = 1 := by
  have hle : c.val ≤ 57 := by simp_all [Char.isDigit]
  have hascii : c.val ≤ 0x7f := UInt32.le_trans hle (by decide)
  simp [Char.utf8Size, hascii]

theorem parseUsize_of_digits {token : Text} (hne : token ≠ [])
    (h : token.all Char.isDigit = true) :
    parseUsize token =
      if Nat.ofDigitChars 10 token 0 < 2 ^ 64 then some (Nat.ofDigitChars 10 token 0) else none := by
  have hplus : token.head? ≠ some '+' := by
    intro hhead
    have hmem : '+' ∈ token := List.mem_of_head? hhead
    exact absurd (List.all_eq_true.1 h _ hmem) (by decide)
  unfold parseUsize
  rw [if_neg hplus]
  simp [hne, h]

theorem leading_zero_iff {d : Char} {ds : Text} (hd : d.isDigit = true) :
    (Text.byteLen (d :: ds) > 1 && "0".toList.isPrefixOf (d :: ds)) = true ↔
      ¬ (d = '0' → ds = []) := by
  have hlong : Text.byteLen (d :: ds) > 1 ↔ ds ≠ [] := by
    rw [Text.byteLen_cons, utf8Size_of_isDigit hd, ← not_iff_not, not_not, ← Text.byteLen_eq_zero]
    omega
  have hzero : "0".toList.isPrefixOf (d :: ds) = true ↔ d = '0' := by
    show (('0' == d) && true) = true ↔ _
    rw [Bool.and_true, beq_iff_eq, eq_comm]
  rw [Bool.and_eq_true, decide_eq_true_iff, hlong, hzero, Classical.not_imp, and_comm]

theorem index_of_not_digits {token : Text} (h : token.all Char.isDigit = false) :
    index token = none := by
  unfold index
  split
  · rfl
  · exact if_neg fun hall => by simp [hall.1] at h

/-- What the program takes for an index is what the RFC takes for one and a
`usize` can hold. -/
theorem arrayIndex_toOption (token : Text) (len : Nat) :
    (arrayIndex unprintable token len false).toOption = (index token).filter (· < 2 ^ 64) := by
  unfold arrayIndex
  cases hdigits : token.all Char.isDigit with
  | false =>
      rw [index_of_not_digits hdigits]
      -- `-` is not made of digits either
      by_cases hdash : token = ['-']
      · rw [if_pos hdash]
        rfl
      · rw [if_neg hdash, if_pos (by simp)]
        rfl
  | true =>
      cases token with
      | nil => rfl
      | cons d ds =>
          have hdash : d :: ds ≠ ['-'] := by
            intro h
            rw [h] at hdigits
            exact absurd hdigits (by decide)
          have hd : d.isDigit = true := List.all_eq_true.1 hdigits d List.mem_cons_self
          rw [if_neg hdash]
          by_cases hlead : d = '0' → ds = []
          · have hindex : index (d :: ds) = some (Nat.ofDigitChars 10 (d :: ds) 0) :=
              if_pos ⟨hdigits, hlead⟩
            have hplain : ¬ (Text.byteLen (d :: ds) > 1 && "0".toList.isPrefixOf (d :: ds)) = true :=
              fun h => (leading_zero_iff hd).1 h hlead
            rw [if_neg (by simpa using hplain), parseUsize_of_digits (by simp) hdigits, hindex,
              Option.filter_some]
            by_cases hfits : Nat.ofDigitChars 10 (d :: ds) 0 < 2 ^ 64
            · rw [if_pos hfits, if_pos (by simpa using hfits)]
              rfl
            · rw [if_neg hfits, if_neg (by simpa using hfits)]
              rfl
          · have hindex : index (d :: ds) = none := if_neg fun h => hlead h.2
            rw [if_pos (Bool.or_eq_true_iff.2 (.inr ((leading_zero_iff hd).2 hlead))), hindex]
            rfl

/-! ## Places -/

section Places

variable {ν α β : Type} {n : Nat} {root value : Json ν} {token last : Text} {tokens : List Text}

/-- Inside an array that fits a `Vec` the program's index names the RFC's element. -/
theorem arrayIndex_bind (items : List (Json ν)) (hlen : items.length < 2 ^ 64) (token : Text)
    (next : Nat → Json ν → Option β) :
    ((arrayIndex unprintable token items.length false).toOption.bind fun i =>
      items[i]?.bind (next i)) = (index token).bind fun i => items[i]?.bind (next i) := by
  rw [arrayIndex_toOption]
  cases index token with
  | none => rfl
  | some i =>
      rw [Option.filter_some]
      split_ifs with hi
      · rfl
      · -- an index that no usize holds is past the end of every array
        have hpast : items[i]? = none := List.getElem?_eq_none (by simp at hi; omega)
        rw [Option.bind_some, hpast]
        rfl

theorem resolve_cons (hn : n < 2 ^ 64) (h : value.ArraysLe n) :
    resolve unprintable value (token :: tokens) =
      (child value token).bind fun c => resolve unprintable c tokens := by
  cases value with
  | array items =>
      show _ = ((index token).bind fun i => items[i]?).bind _
      rw [Option.bind_assoc, ← arrayIndex_bind unprintable items (by have := h.1; omega), resolve]
      cases arrayIndex unprintable token items.length false <;> rfl
  | _ => rfl

theorem resolve_eq_eval (hn : n < 2 ^ 64) (h : value.ArraysLe n) :
    resolve unprintable value tokens = eval value tokens := by
  induction tokens generalizing value with
  | nil => rfl
  | cons token tokens ih =>
      rw [resolve_cons unprintable hn h, eval]
      apply Option.bind_congr
      intro c hc
      exact ih (arraysLe_child h hc)

/-- What is done at a place, where there is one and it can be done. -/
def actAt (act : Json ν → Except Text (α × Json ν)) (root : Json ν) (tokens : List Text) :
    Option (α × Json ν) :=
  (resolveMut unprintable act root tokens).bind Except.toOption

theorem bind_map_toOption (found : Option (Except Text α)) (f : α → β) :
    (found.map (Except.map f)).bind Except.toOption = (found.bind Except.toOption).map f := by
  cases found with
  | none => rfl
  | some result => cases result <;> rfl

variable (act : Json ν → Except Text (α × Json ν))

theorem actAt_cons (hn : n < 2 ^ 64) (h : value.ArraysLe n) :
    actAt unprintable act value (token :: tokens) =
      (child value token).bind fun c =>
        (actAt unprintable act c tokens).map fun done => (done.1, putChild value token done.2) := by
  cases value with
  | array items =>
      have hlen : items.length < 2 ^ 64 := h.1.trans_lt hn
      have hact : actAt unprintable act (.array items) (token :: tokens) =
          (arrayIndex unprintable token items.length false).toOption.bind fun i =>
            items[i]?.bind fun c => (actAt unprintable act c tokens).map fun done =>
              (done.1, .array (items.set i done.2)) := by
        rw [actAt, resolveMut]
        cases arrayIndex unprintable token items.length false with
        | error _ => rfl
        | ok i =>
            show (items[i]?.bind _).bind _ = items[i]?.bind _
            rw [Option.bind_assoc]
            apply Option.bind_congr
            intro c _
            exact bind_map_toOption ..
      rw [hact, arrayIndex_bind unprintable items hlen]
      show _ = ((index token).bind fun i => items[i]?).bind _
      rw [Option.bind_assoc]
      cases hindex : index token with
      | none => rfl
      | some i =>
          simp only [putChild, hindex]
          rfl
  | object fields =>
      show ((Json.Fields.get token fields).bind _).bind _ = (Json.Fields.get token fields).bind _
      rw [Option.bind_assoc]
      apply Option.bind_congr
      intro c _
      exact bind_map_toOption ..
  | _ => rfl

/-! ## Operations on a place -/

theorem insertIdx_eq_take_append_drop (items : List (Json ν)) {i : Nat} (hi : i ≤ items.length)
    (new : Json ν) : items.insertIdx i new = items.take i ++ new :: items.drop i := by
  induction items generalizing i with
  | nil =>
      obtain rfl : i = 0 := by simpa using hi
      rfl
  | cons item items ih =>
      cases i with
      | zero => rfl
      | succ i => simp [List.insertIdx_succ_cons, ih (Nat.le_of_succ_le_succ hi)]

theorem addTo_toOption (hn : n < 2 ^ 64) (h : value.ArraysLe n) (new : Json ν) :
    (addTo unprintable last new value).toOption.map Prod.snd = addMember last new value := by
  cases value with
  | array items =>
      have hlen : items.length < 2 ^ 64 := h.1.trans_lt hn
      have hplace (i : Nat) :
          (if i > items.length then .error (pastTheEnd i items.length)
            else pure ((), .array (items.insertIdx i new)) :
              Except Text (Unit × Json ν)).toOption.map Prod.snd =
            if i ≤ items.length then some (.array (items.take i ++ new :: items.drop i))
            else none := by
        by_cases hi : i ≤ items.length
        · rw [if_neg (by omega), if_pos hi, ← insertIdx_eq_take_append_drop items hi]
          rfl
        · rw [if_pos (by omega), if_neg hi]
          rfl
      rw [addTo, toOption_bind, Option.map_bind, addMember]
      by_cases hend : last = ['-']
      · -- the place behind the last element
        have hindex : arrayIndex unprintable last items.length true = .ok items.length := by
          rw [arrayIndex, if_pos hend, if_pos rfl]
        rw [hindex, if_pos hend]
        show Option.map Prod.snd _ = _
        rw [hplace, if_pos le_rfl, List.take_length, List.drop_length]
      · have hindex : arrayIndex unprintable last items.length true =
            arrayIndex unprintable last items.length false := by
          rw [arrayIndex, arrayIndex, if_neg hend, if_neg hend]
        rw [hindex, arrayIndex_toOption, if_neg hend]
        cases index last with
        | none => rfl
        | some i =>
            rw [Option.filter_some]
            show _ = if i ≤ items.length then _ else none
            split_ifs with hi hfits
            · show Option.map Prod.snd _ = _
              rw [hplace, if_pos hfits]
            · show Option.map Prod.snd _ = _
              rw [hplace, if_neg hfits]
            · exact absurd (decide_eq_true (by omega)) hi
            · rfl
  | _ => rfl

theorem patchAdd_concat (parents : List Text) (new : Json ν) :
    (patchAdd unprintable value (parents ++ [last]) new).toOption =
      (actAt unprintable (addTo unprintable last new) value parents).map Prod.snd := by
  simp only [patchAdd, List.getLast?_concat, List.dropLast_concat, actAt]
  cases resolveMut unprintable (addTo unprintable last new) value parents with
  | none => rfl
  | some added => cases added <;> rfl

theorem patchAdd_toOption (hn : n < 2 ^ 64) (h : value.ArraysLe n) (new : Json ν) :
    (patchAdd unprintable value tokens new).toOption = Rfc6902.add tokens new value := by
  obtain rfl | ⟨parents, last, rfl⟩ := List.eq_nil_or_concat' tokens
  · rfl
  · rw [patchAdd_concat]
    -- down the tokens of the parent
    induction parents generalizing value with
    | nil => exact addTo_toOption unprintable hn h new
    | cons token parents ih =>
        rw [actAt_cons unprintable _ hn h, List.cons_append, add_cons (by simp), Option.map_bind]
        apply Option.bind_congr
        intro c hc
        rw [← ih (arraysLe_child h hc), Function.comp_apply, Option.map_map, Option.map_map]
        rfl

theorem removeFrom_toOption (hn : n < 2 ^ 64) (h : value.ArraysLe n) :
    (removeFrom unprintable last value).toOption =
      (child value last).bind fun removed => (removeMember last value).map fun rest =>
        (removed, rest) := by
  cases value with
  | array items =>
      have hlen : items.length < 2 ^ 64 := h.1.trans_lt hn
      have hremove : (removeFrom unprintable last (.array items)).toOption =
          (arrayIndex unprintable last items.length false).toOption.bind fun i =>
            items[i]?.bind fun removed => some (removed, .array (items.eraseIdx i)) := by
        rw [removeFrom, toOption_bind]
        apply Option.bind_congr
        intro i _
        cases items[i]? <;> rfl
      rw [hremove, arrayIndex_bind unprintable items hlen]
      show _ = ((index last).bind fun i => items[i]?).bind _
      rw [Option.bind_assoc]
      cases hindex : index last with
      | none => rfl
      | some i =>
          rw [Option.bind_some, Option.bind_some]
          apply Option.bind_congr
          intro removed hremoved
          have hi : i < items.length := (List.getElem?_eq_some_iff.1 hremoved).1
          have hmember : removeMember last (.array items) =
              some (.array (items.take i ++ items.drop (i + 1))) := by
            rw [removeMember, hindex]
            exact if_pos hi
          rw [hmember, List.eraseIdx_eq_take_drop_succ]
          rfl
  -- a member that is there, or nothing to remove
  | object fields =>
      show _ = (Json.Fields.get last fields).bind _
      rw [removeFrom]
      cases hget : Json.Fields.get last fields with
      | none => rfl
      | some removed =>
          have hmember : removeMember last (.object fields) =
              some (.object (Json.Fields.remove last fields)) :=
            if_pos (by rw [hget]; rfl)
          rw [Option.bind_some, hmember]
          rfl
  | _ => rfl

theorem patchRemove_concat (parents : List Text) :
    (patchRemove unprintable value (parents ++ [last])).toOption =
      actAt unprintable (removeFrom unprintable last) value parents := by
  simp only [patchRemove, List.getLast?_concat, List.dropLast_concat, actAt]
  cases resolveMut unprintable (removeFrom unprintable last) value parents <;> rfl

theorem patchRemove_toOption (hn : n < 2 ^ 64) (h : value.ArraysLe n) :
    (patchRemove unprintable value tokens).toOption =
      (eval value tokens).bind fun removed => (Rfc6902.remove tokens value).map fun rest =>
        (removed, rest) := by
  obtain rfl | ⟨parents, last, rfl⟩ := List.eq_nil_or_concat' tokens
  · rfl
  · rw [patchRemove_concat]
    induction parents generalizing value with
    | nil =>
        rw [List.nil_append, eval, Option.bind_assoc]
        exact removeFrom_toOption unprintable hn h
    | cons token parents ih =>
        rw [actAt_cons unprintable _ hn h, List.cons_append, remove_cons (by simp), eval]
        cases hc : child value token with
        | none => rfl
        | some c =>
            rw [Option.bind_some, Option.bind_some, Option.bind_some, ih (arraysLe_child h hc),
              Option.map_bind]
            apply Option.bind_congr
            intro removed _
            rw [Function.comp_apply, Option.map_map, Option.map_map]
            rfl

theorem patchReplace_toOption (hn : n < 2 ^ 64) (h : value.ArraysLe n) (new : Json ν) :
    (patchReplace unprintable value tokens new).toOption = Rfc6902.replace tokens new value := by
  have hslot : (patchReplace unprintable value tokens new).toOption =
      (actAt unprintable (fun _ => .ok ((), new)) value tokens).map Prod.snd := by
    rw [patchReplace, actAt]
    cases resolveMut unprintable (fun _ => .ok ((), new)) value tokens with
    | none => rfl
    | some replaced => cases replaced <;> rfl
  rw [hslot]
  clear hslot
  induction tokens generalizing value with
  | nil => rfl
  | cons token tokens ih =>
      rw [actAt_cons unprintable _ hn h, replace_cons, Option.map_bind]
      apply Option.bind_congr
      intro c hc
      rw [← ih (arraysLe_child h hc), Function.comp_apply, Option.map_map, Option.map_map]
      rfl

end Places

/-! ## Operations -/

section Operations

variable {ν : Type} {n : Nat} {fields : Json.Fields ν}

/-- What an operation has under a name is a pointer, where it is a string. -/
def PointerParses (fields : Json.Fields ν) (key : Text) : Prop :=
  ∀ text, Json.Fields.get key fields = some (.string text) → (Rfc6901.parse text).isSome

theorem pointerParses_of_get {key text : Text} {tokens : List Text}
    (hget : Json.Fields.get key fields = some (.string text))
    (hparse : Rfc6901.parse text = some tokens) : PointerParses fields key := by
  intro other hother
  rw [hget] at hother
  cases hother
  rw [hparse]
  rfl

/-- The pointers of an operation are well formed: its `path`, and for a move or
a copy its `from`. -/
def PointersParse (op : Json ν) : Prop :=
  ∀ fields, op = .object fields →
    PointerParses fields "path".toList ∧
      ∀ name, Json.Fields.get "op".toList fields = some (.string name) →
        name = "move".toList ∨ name = "copy".toList → PointerParses fields "from".toList

theorem pointerField_toOption {key : Text} (h : PointerParses fields key) :
    (pointerField unprintable fields key).toOption = pointerMember fields key := by
  unfold pointerField pointerMember
  cases hget : Json.Fields.get key fields with
  | none => rfl
  | some pointer =>
      cases pointer with
      | string text =>
          obtain ⟨tokens, hparse⟩ := Option.isSome_iff_exists.1 (h text hget)
          show (pointerTokens unprintable text).toOption = Rfc6901.parse text
          rw [pointerTokens_of_parse unprintable hparse, hparse]
          rfl
      | _ => rfl

theorem nameField_toOption :
    (nameField fields).toOption = (Json.Fields.get "op".toList fields).bind Json.asStr := by
  unfold nameField
  cases Json.Fields.get "op".toList fields with
  | none => rfl
  | some name => cases name <;> rfl

theorem valueField_toOption :
    (valueField fields).toOption = Json.Fields.get "value".toList fields := by
  unfold valueField
  cases Json.Fields.get "value".toList fields <;> rfl

theorem okOr_toOption {α : Type} (found : Option α) (error : Text) :
    (okOr found error).toOption = found := by
  cases found <;> rfl

/-- The program's test for a proper descendant. -/
theorem descendant_iff (source path : List Text) :
    path.length > source.length ∧ path.take source.length = source ↔
      source <+: path ∧ source ≠ path := by
  have htake : path.take source.length = source ↔ source <+: path := by
    rw [List.prefix_iff_eq_take, eq_comm]
  rw [htake, and_comm]
  apply and_congr_right
  intro hbelow
  constructor
  · intro hlong heq
    rw [heq] at hlong
    exact lt_irrefl _ hlong
  · intro hne
    have hle : source.length ≤ path.length := hbelow.length_le
    have hlength : source.length ≠ path.length := fun heq => hne (hbelow.eq_of_length heq)
    omega

theorem get_of_asStr {key text : Text}
    (h : (Json.Fields.get key fields).bind Json.asStr = some text) :
    Json.Fields.get key fields = some (.string text) := by
  obtain ⟨value, hget, hstr⟩ := Option.bind_eq_some_iff.1 h
  cases value <;> cases hstr
  exact hget

variable [BEq ν] {target : Json ν}

theorem patchMove_toOption (hn : n < 2 ^ 64) (h : target.ArraysLe n) (source path : List Text) :
    (patchMove unprintable target source path).toOption =
      (Operation.move source path).apply target := by
  rw [patchMove, Operation.apply]
  by_cases hbelow : source <+: path ∧ source ≠ path
  · rw [if_pos ((descendant_iff source path).2 hbelow), if_pos hbelow]
    rfl
  · rw [if_neg ((descendant_iff source path).not.2 hbelow), if_neg hbelow, toOption_bind,
      patchRemove_toOption unprintable hn h, Option.bind_assoc]
    apply Option.bind_congr
    intro moved _
    rw [Option.bind_map]
    apply Option.bind_congr
    intro rest hrest
    exact patchAdd_toOption unprintable hn (arraysLe_remove h hrest) moved

theorem applyNamed_toOption (hn : n < 2 ^ 64) (h : target.ArraysLe n) {name : Text}
    (path : List Text)
    (hfrom : name = "move".toList ∨ name = "copy".toList → PointerParses fields "from".toList)
    (hcopy : ∀ source copied, Operation.named fields path name = some (.copy source path) →
      eval target source = some copied → copied.nodes ≤ MAX_COPY_NODES) :
    (applyNamed unprintable target fields name path).toOption =
      (Operation.named fields path name).bind (Operation.apply target) := by
  unfold applyNamed
  unfold Operation.named at hcopy ⊢
  split_ifs at hcopy ⊢ with hadd hremove hreplace hmove hcopies htest
  · rw [toOption_bind, valueField_toOption, Option.bind_map]
    apply Option.bind_congr
    intro new _
    exact patchAdd_toOption unprintable hn h new
  · rw [toOption_map, patchRemove_toOption unprintable hn h]
    show _ = Rfc6902.remove path target
    -- the program removes and returns, the RFC only removes
    cases hrest : Rfc6902.remove path target with
    | none => cases eval target path <;> rfl
    | some rest =>
        obtain ⟨removed, heval⟩ := exists_eval_of_remove hrest
        rw [heval]
        rfl
  · rw [toOption_bind, valueField_toOption, Option.bind_map]
    apply Option.bind_congr
    intro new _
    exact patchReplace_toOption unprintable hn h new
  · rw [toOption_bind, pointerField_toOption unprintable (hfrom (.inl hmove)), Option.bind_map]
    apply Option.bind_congr
    intro source _
    exact patchMove_toOption unprintable hn h source path
  · rw [toOption_bind, pointerField_toOption unprintable (hfrom (.inr hcopies)), Option.bind_map]
    apply Option.bind_congr
    intro source hsource
    rw [toOption_bind, okOr_toOption, resolve_eq_eval unprintable hn h]
    apply Option.bind_congr
    intro copied hcopied
    -- the limit is never the reason
    have hsmall : copied.nodes ≤ MAX_COPY_NODES :=
      hcopy source copied (by rw [hsource]; rfl) hcopied
    rw [if_neg (by omega)]
    exact patchAdd_toOption unprintable hn h copied
  · rw [toOption_bind, valueField_toOption, Option.bind_map]
    apply Option.bind_congr
    intro wanted _
    rw [toOption_bind, okOr_toOption, resolve_eq_eval unprintable hn h]
    apply Option.bind_congr
    intro found _
    split_ifs <;> rfl
  · rfl

theorem applyOne_toOption (hn : n < 2 ^ 64) (h : target.ArraysLe n) {op : Json ν}
    (hptr : PointersParse op)
    (hcopy : ∀ source path copied, Operation.ofJson op = some (.copy source path) →
      eval target source = some copied → copied.nodes ≤ MAX_COPY_NODES) :
    (applyOne unprintable target op).toOption =
      (Operation.ofJson op).bind (Operation.apply target) := by
  cases op with
  | object fields =>
      obtain ⟨hpath, hfrom⟩ := hptr fields rfl
      have hread : Operation.ofJson (.object fields) =
          ((Json.Fields.get "op".toList fields).bind Json.asStr).bind fun name =>
            (pointerMember fields "path".toList).bind fun path =>
              Operation.named fields path name := rfl
      rw [applyOne, toOption_bind, nameField_toOption, hread]
      cases hname : (Json.Fields.get "op".toList fields).bind Json.asStr with
      | none => rfl
      | some name =>
          rw [Option.bind_some, Option.bind_some, toOption_bind,
            pointerField_toOption unprintable hpath]
          cases hpathMember : pointerMember fields "path".toList with
          | none => rfl
          | some path =>
              rw [Option.bind_some, Option.bind_some]
              apply applyNamed_toOption unprintable hn h path
              · exact hfrom name (get_of_asStr hname)
              · intro source copied hnamed
                apply hcopy source path copied
                rw [hread, hname, Option.bind_some, hpathMember, Option.bind_some, hnamed]
  | _ => rfl

/-! ## Patches -/

/-- The RFC's run of the operations never copies more than `limit` nodes. -/
def CopiesFit (limit : Nat) (d : Json ν) (ops : List (Json ν)) : Prop :=
  ∀ done op rest, ops = done ++ op :: rest →
    ∀ doc, Rfc6902.apply d done = some doc →
      ∀ source path, Operation.ofJson op = some (.copy source path) →
        ∀ copied, eval doc source = some copied → copied.nodes ≤ limit

theorem CopiesFit.tail {limit : Nat} {d doc op : Json ν} {read : Operation ν} {ops : List (Json ν)}
    (h : CopiesFit limit d (op :: ops)) (hread : Operation.ofJson op = some read)
    (happly : read.apply d = some doc) : CopiesFit limit doc ops := by
  intro done next rest hops doc' hdone
  apply h (op :: done) next rest (by rw [hops]; rfl) doc'
  show (Operation.ofJson op).bind _ = some doc'
  rw [hread]
  show (read.apply d).bind _ = some doc'
  rw [happly]
  exact hdone

/-- The operations left can lengthen an array to no more than a `usize` counts. -/
theorem applyFrom_toOption {ops : List (Json ν)} (hn : n + ops.length < 2 ^ 64)
    (h : target.ArraysLe n) (hops : ∀ op ∈ ops, op.ArraysLe n) (hptr : ∀ op ∈ ops, PointersParse op)
    (hcopy : CopiesFit MAX_COPY_NODES target ops) (index : Nat) :
    (applyFrom unprintable index target ops).toOption = Rfc6902.apply target ops := by
  -- the bound grows by one with each operation that is done
  induction ops generalizing n target index with
  | nil => rfl
  | cons op ops ih =>
      have hone : (applyOne unprintable target op).toOption =
          (Operation.ofJson op).bind (Operation.apply target) := by
        apply applyOne_toOption unprintable (by omega) h (hptr op List.mem_cons_self)
        intro source path copied hread heval
        exact hcopy [] op ops rfl target rfl source path hread copied heval
      rw [applyFrom]
      cases hdone : applyOne unprintable target op with
      | error error =>
          rw [hdone] at hone
          show none = (Operation.ofJson op).bind fun read => (read.apply target).bind _
          rw [← Option.bind_assoc, ← hone]
          rfl
      | ok doc =>
          rw [hdone] at hone
          show _ = (Operation.ofJson op).bind fun read => (read.apply target).bind _
          rw [← Option.bind_assoc, ← hone]
          obtain ⟨read, hread, happly⟩ := Option.bind_eq_some_iff.1 hone.symm
          have hop : read.ArraysLe n := arraysLe_ofJson (hops op List.mem_cons_self) hread
          have hlen : n + 1 + ops.length < 2 ^ 64 := by
            rw [List.length_cons] at hn
            omega
          exact ih hlen (arraysLe_apply h hop happly)
            (fun op hmem => (hops op (List.mem_cons_of_mem _ hmem)).mono n.le_succ)
            (fun op hmem => hptr op (List.mem_cons_of_mem _ hmem)) (hcopy.tail hread happly) _

/-- A patch of at most 1024 operations comes out as RFC 6902 has it: it goes
through when the RFC's operations do, one after the other, and with their
result. Pointers are well formed, a copy is of at most 65536 nodes, and nothing
given holds an array that a `Vec` could not. -/
theorem apply_patch_rfc (d : Json ν) (ops : List (Json ν)) (hlen : ops.length ≤ 1024)
    (hptr : ∀ op ∈ ops, PointersParse op) (hcopy : CopiesFit 65536 d ops)
    (hd : d.ArraysLe (2 ^ 63 - 1)) (hops : ∀ op ∈ ops, op.ArraysLe (2 ^ 63 - 1)) :
    (applyPatch unprintable d (.array ops)).toOption = Rfc6902.apply d ops := by
  have hlimit : ¬ ops.length > MAX_PATCH_OPS := by
    rw [MAX_PATCH_OPS]
    omega
  rw [applyPatch, if_neg hlimit]
  exact applyFrom_toOption unprintable (by omega) hd hops hptr hcopy 0

/-- A list whose first element is copied to its end, and a member moved away. -/
def listed : Json Nat :=
  .object [("List".toList, .array [.string ['a'], .string ['b']]), ("Old".toList, .number 7)]

def copyThenMove : List (Json Nat) :=
  [.object [("from".toList, .string "/List/0".toList), ("op".toList, .string "copy".toList),
      ("path".toList, .string "/List/-".toList)],
    .object [("from".toList, .string "/Old".toList), ("op".toList, .string "move".toList),
      ("path".toList, .string "/New".toList)]]

theorem apply_patch_rfc_listed :
    (applyPatch (fun _ => false) listed (.array copyThenMove)).toOption =
      Rfc6902.apply listed copyThenMove := by
  apply apply_patch_rfc
  · decide
  · intro op hop fields hfields
    simp only [copyThenMove, List.mem_cons, List.not_mem_nil, or_false] at hop
    obtain rfl | rfl := hop
    all_goals
      cases hfields
      exact ⟨pointerParses_of_get rfl rfl, fun _ _ _ => pointerParses_of_get rfl rfl⟩
  · intro done op rest hops doc hdone source path hread copied hcopied
    match done, hops, hdone with
    | [], hops, hdone =>
        cases hops
        cases hdone
        cases hread
        cases hcopied
        decide
    | [_], hops, _ =>
        cases hops
        cases hread
    | _ :: _ :: _, hops, _ => simp [copyThenMove] at hops
  · simp [listed, Json.ArraysLe, Json.ItemsLe, Json.FieldsLe]
  · intro op hop
    simp only [copyThenMove, List.mem_cons, List.not_mem_nil, or_false] at hop
    obtain rfl | rfl := hop <;> exact ⟨trivial, trivial, trivial, trivial⟩

end Operations

end RedfishProxy.ScriptUtil
