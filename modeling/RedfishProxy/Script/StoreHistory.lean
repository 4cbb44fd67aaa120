import RedfishProxy.Lib.LastWrite
import RedfishProxy.Script.Store

/-!
# The store over whole histories

A history is a run of calls from the empty store, each call with its reply.
What a key holds is read off the history alone: `Kept` is the value of the last
successful `set` that no removal followed. `Answers` is what a store then owes
its callers, and `store_history` gives it after every run.
-/

namespace RedfishProxy.ScriptStore

open Lib

section History

variable {V J : Type} (serde : Serde V J)

/-- A call and the reply it got. -/
abbrev Event (V : Type) := Call V × Except Text (Reply V)

/-- A successful `set` of the key to a value with this JSON. -/
def SetsTo (key : Text) (json : J) (event : Event V) : Prop :=
  ∃ value, event.1.op = .set key value ∧ event.2 = .ok .done ∧ serde.toValue value = .ok json

/-- A successful `remove` of the key, or `remove_prefix` of a prefix of it. -/
def Drops (key : Text) (event : Event V) : Prop :=
  (event.1.op = .remove key ∧ ∃ was, event.2 = .ok (.removed was)) ∨
    ∃ start count, event.1.op = .removePrefix start ∧ start <+: key ∧
      event.2 = .ok (.removedPrefix count)

/-- The history sets the key to this JSON, and after that it neither drops the
key nor sets it again. -/
def Kept (history : List (Event V)) (key : Text) (json : J) : Prop :=
  ∃ done event rest, history = done ++ event :: rest ∧ SetsTo serde key json event ∧
    ∀ later ∈ rest, ¬ Drops key later ∧ ∀ other, ¬ SetsTo serde key other later

/-- What an event does to a key. -/
def effect (key : Text) (event : Event V) : Effect J :=
  match event.1.op, event.2 with
  | .set k value, .ok .done =>
    match serde.toValue value with
    | .ok json => if k = key then .put json else .keep
    | .error _ => .keep
  | .remove k, .ok (.removed _) => if k = key then .drop else .keep
  | .removePrefix start, .ok (.removedPrefix _) => if start <+: key then .drop else .keep
  | _, _ => .keep

theorem effect_eq_put_iff (key : Text) (json : J) (event : Event V) :
    effect serde key event = .put json ↔ SetsTo serde key json event := by
  unfold effect SetsTo
  split
  · rename_i k value hop hreply
    rw [hop, hreply]
    cases hjson : serde.toValue value with
    | error e => simp [hjson]
    | ok j =>
        by_cases hk : k = key
        · simp [hk, hjson]
        · simp [hk]
  · rename_i k was hop hreply
    rw [hop, hreply]
    by_cases hk : k = key <;> simp [hk]
  · rename_i start count hop hreply
    rw [hop, hreply]
    by_cases hstart : start <+: key <;> simp [hstart]
  · rename_i hset _ _
    constructor
    · intro h
      cases h
    · intro h
      obtain ⟨value, hop, hreply, _⟩ := h
      exact absurd hreply (hset key value hop)

theorem effect_eq_drop_iff (key : Text) (event : Event V) :
    effect serde key event = .drop ↔ Drops key event := by
  unfold effect Drops
  split
  · rename_i k value hop hreply
    rw [hop, hreply]
    cases serde.toValue value with
    | error e => simp
    | ok j => by_cases hk : k = key <;> simp [hk]
  · rename_i k was hop hreply
    rw [hop, hreply]
    by_cases hk : k = key <;> simp [hk]
  · rename_i start count hop hreply
    rw [hop, hreply]
    by_cases hstart : start <+: key <;> simp [hstart]
  · rename_i _ hone hmany
    constructor
    · intro h
      cases h
    · intro h
      rcases h with ⟨hop, was, hreply⟩ | ⟨start, count, hop, _, hreply⟩
      · exact absurd hreply (hone key was hop)
      · exact absurd hreply (hmany start count hop)

theorem lastPut_iff_kept (history : List (Event V)) (key : Text) (json : J) :
    LastPut (effect serde key) history json ↔ Kept serde history key json := by
  have hkeep : ∀ event : Event V, effect serde key event = .keep ↔
      ¬ Drops key event ∧ ∀ other, ¬ SetsTo serde key other event := by
    intro event
    rw [← effect_eq_drop_iff serde]
    simp only [← effect_eq_put_iff]
    cases effect serde key event <;> simp
  unfold LastPut Kept
  simp only [effect_eq_put_iff, hkeep]

variable {serde} {store : Store J}

/-- **One call changes what a key holds exactly as its event says.** -/
theorem lookup_next (h : Bounded serde store) (call : Call V) (key : Text) :
    (next serde store call).entries.lookup key =
      (effect serde key (call, (step serde store call).1)).apply (store.entries.lookup key) := by
  rcases step_cases serde store call with
    ⟨k, value, json, hop, _, haccept, _, hstep⟩ | ⟨k, hop, _, hstep⟩ |
    ⟨start, hop, _, hstep⟩ | ⟨hnext, hquiet⟩
  · rw [next, hstep]
    simp only [effect, hop, haccept.1]
    rw [KeyMap.lookup_insert_eq]
    by_cases hk : k = key
    · simp [hk]
    · rw [if_neg hk, if_neg (Ne.symm hk)]
      rfl
  · rw [next, hstep]
    simp only [effect, hop]
    rw [KeyMap.lookup_erase_eq]
    by_cases hk : k = key
    · simp [hk]
    · rw [if_neg hk, if_neg (Ne.symm hk)]
      rfl
  · rw [next, hstep, countI64_of_bounded h]
    simp only [effect, hop, Except.map]
    rw [lookup_withoutPrefix]
    by_cases hstart : start <+: key
    · simp [hstart]
    · rw [if_neg hstart, if_neg (by rwa [List.isPrefixOf_iff_prefix])]
      rfl
  · -- a call that changes nothing keeps what every key holds
    rw [hnext]
    have hkeep : effect serde key (call, (step serde store call).1) = .keep := by
      unfold effect
      rcases hquiet with ⟨error, herror⟩ | ⟨k, hop⟩ | ⟨k, fallback, hop⟩ | ⟨k, hop⟩
      · simp only [herror]
        split <;> simp_all
      · simp only [hop]
      · simp only [hop]
      · simp only [hop]
    rw [hkeep]
    rfl

/-- The keys that were held before and are not any more. -/
def dropped (store store' : Store J) : List Text :=
  store.entries.keys.filter fun key => key ∉ store'.entries

/-- What a store with this history behind it owes every call. -/
structure Answers (serde : Serde V J) (history : List (Event V)) (store : Store J) : Prop where
  get_kept : ∀ r key json, IsKey key → Kept serde history key json →
    (step serde store ⟨some r, .get key⟩).1 =
      (toScriptValue serde json).map fun value => .value (some value)
  get_none : ∀ r key, IsKey key → (∀ json, ¬ Kept serde history key json) →
    (step serde store ⟨some r, .get key⟩).1 = .ok (.value none)
  getOr_kept : ∀ r key fallback json, IsKey key → Kept serde history key json →
    (step serde store ⟨some r, .getOr key fallback⟩).1 =
      (toScriptValue serde json).map .valueOr
  getOr_none : ∀ r key fallback, IsKey key → (∀ json, ¬ Kept serde history key json) →
    (step serde store ⟨some r, .getOr key fallback⟩).1 = .ok (.valueOr fallback)
  contains : ∀ r key, IsKey key →
    ∃ held, (step serde store ⟨some r, .contains key⟩).1 = .ok (.held held) ∧
      (held = true ↔ ∃ json, Kept serde history key json) ∧
      (held = false ↔ (step serde store ⟨some r, .get key⟩).1 = .ok (.value none))
  remove : ∀ r key, IsKey key →
    let store' := next serde store ⟨some r, .remove key⟩
    ∃ was, (step serde store ⟨some r, .remove key⟩).1 = .ok (.removed was) ∧
      (if was then 1 else 0) = (dropped store store').length ∧
      (∀ k, k ∈ dropped store store' ↔ k ∈ store.entries ∧ k = key) ∧
      ∀ other, other ≠ key → store'.entries.lookup other = store.entries.lookup other
  removePrefix : ∀ r start, IsKey start →
    let store' := next serde store ⟨some r, .removePrefix start⟩
    ∃ count, (step serde store ⟨some r, .removePrefix start⟩).1 = .ok (.removedPrefix count) ∧
      count = (dropped store store').length ∧
      (∀ key, key ∈ dropped store store' ↔ key ∈ store.entries ∧ start <+: key) ∧
      ∀ other, ¬ start <+: other → store'.entries.lookup other = store.entries.lookup other
  error : ∀ call error, (step serde store call).1 = .error error → next serde store call = store

/-! ## A bounded store answers from its map -/

variable (serde)

theorem step_get (h : Bounded serde store) {key : Text} (hkey : IsKey key) (r : Nat) :
    (step serde store ⟨some r, .get key⟩).1 =
      match store.entries.lookup key with
      | some json => (toScriptValue serde json).map fun value => .value (some value)
      | none => .ok (.value none) := by
  simp only [step, get]
  rw [lockFor_ok hkey h.unpoisoned r]
  show Except.map _ (match store.entries.lookup key with | some value => _ | none => _) = _
  cases store.entries.lookup key with
  | none => rfl
  | some json =>
      show Except.map _ (toScriptValue serde json >>= fun value => pure (some value)) =
        Except.map _ (toScriptValue serde json)
      cases toScriptValue serde json <;> rfl

theorem step_getOr (h : Bounded serde store) {key : Text} (hkey : IsKey key) (r : Nat)
    (fallback : V) :
    (step serde store ⟨some r, .getOr key fallback⟩).1 =
      match store.entries.lookup key with
      | some json => (toScriptValue serde json).map .valueOr
      | none => .ok (.valueOr fallback) := by
  simp only [step, getOr, get]
  rw [lockFor_ok hkey h.unpoisoned r]
  show Except.map _ ((match store.entries.lookup key with | some value => _ | none => _) >>= _) = _
  cases store.entries.lookup key with
  | none => rfl
  | some json =>
      show Except.map _ ((toScriptValue serde json >>= fun value => pure (some value)) >>= _) =
        Except.map _ (toScriptValue serde json)
      cases toScriptValue serde json <;> rfl

theorem step_contains (h : Bounded serde store) {key : Text} (hkey : IsKey key) (r : Nat) :
    (step serde store ⟨some r, .contains key⟩).1 =
      .ok (.held (store.entries.lookup key).isSome) := by
  simp only [step, lockFor_ok hkey h.unpoisoned r]

theorem step_remove (h : Bounded serde store) {key : Text} (hkey : IsKey key) (r : Nat) :
    step serde store ⟨some r, .remove key⟩ =
      (.ok (.removed (store.entries.lookup key).isSome),
        { store with entries := store.entries.erase key }) := by
  simp only [step, lockFor_ok hkey h.unpoisoned r]

theorem step_removePrefix (h : Bounded serde store) {start : Text} (hstart : IsKey start)
    (r : Nat) :
    step serde store ⟨some r, .removePrefix start⟩ =
      (.ok (.removedPrefix (store.entries.size - (withoutPrefix store.entries start).size)),
        { store with entries := withoutPrefix store.entries start }) := by
  simp only [step, lockFor_ok hstart h.unpoisoned r, countI64_of_bounded h]
  rfl

theorem mem_dropped (store store' : Store J) (key : Text) :
    key ∈ dropped store store' ↔ key ∈ store.entries ∧ key ∉ store'.entries := by
  simp [dropped, AList.mem_keys]

/-- The key itself is all that `erase` can drop. -/
theorem length_dropped_erase (store : Store J) (key : Text) :
    (dropped store { store with entries := store.entries.erase key }).length =
      if (store.entries.lookup key).isSome then 1 else 0 := by
  have hcount : (dropped store { store with entries := store.entries.erase key }).length =
      store.entries.keys.count key := by
    rw [dropped, List.count_eq_length_filter]
    congr 1
    refine List.filter_congr ?_
    intro k hk
    rw [← AList.mem_keys] at hk
    by_cases hkey : k = key <;> simp [AList.mem_erase, hk, hkey]
  rw [hcount, store.entries.keys_nodup.count]
  simp only [← AList.mem_keys, AList.lookup_isSome]

theorem dropped_withoutPrefix (store : Store J) (start : Text) :
    dropped store { store with entries := withoutPrefix store.entries start } =
      store.entries.keys.filter fun key => start.isPrefixOf key := by
  unfold dropped
  refine List.filter_congr ?_
  intro k hk
  rw [← AList.mem_keys] at hk
  have hmem := KeyMap.mem_retain (fun key : Text => !start.isPrefixOf key) store.entries k
  rw [withoutPrefix]
  cases hstart : start.isPrefixOf k <;> simp [hmem, hk, hstart]

/-- What a store answers is what its map holds, and its map holds what the
history kept. -/
theorem answers_of_kept {history : List (Event V)} (h : Bounded serde store)
    (hkept : ∀ key json, store.entries.lookup key = some json ↔ Kept serde history key json) :
    Answers serde history store := by
  have hnone : ∀ key, (∀ json, ¬ Kept serde history key json) →
      store.entries.lookup key = none := by
    intro key hkey
    rw [Option.eq_none_iff_forall_ne_some]
    exact fun json hjson => hkey json ((hkept key json).mp hjson)
  -- get, get_or with and without a value, contains, and the two removals
  refine ⟨?_, ?_, ?_, ?_, ?_, ?_, ?_, fun call error => step_error h call⟩
  · intro r key json hkey hjson
    rw [step_get serde h hkey r, (hkept key json).mpr hjson]
  · intro r key hkey hjson
    rw [step_get serde h hkey r, hnone key hjson]
  · intro r key fallback json hkey hjson
    rw [step_getOr serde h hkey r fallback, (hkept key json).mpr hjson]
  · intro r key fallback hkey hjson
    rw [step_getOr serde h hkey r fallback, hnone key hjson]
  · intro r key hkey
    refine ⟨_, step_contains serde h hkey r, ?_, ?_⟩
    · rw [Option.isSome_iff_exists]
      exact exists_congr (hkept key)
    · rw [step_get serde h hkey r]
      cases store.entries.lookup key with
      | none => simp
      | some json => cases hjson : toScriptValue serde json <;> simp [hjson, Except.map]
  · intro r key hkey
    have hstep := step_remove serde h hkey r
    refine ⟨_, congrArg Prod.fst hstep, ?_, ?_, ?_⟩
    · rw [next, hstep, length_dropped_erase]
    · intro k
      rw [next, hstep, mem_dropped]
      simp only [AList.mem_erase]
      tauto
    · intro other hother
      rw [next, hstep]
      exact AList.lookup_erase_ne hother
  · intro r start hstart
    have hstep := step_removePrefix serde h hstart r
    refine ⟨_, congrArg Prod.fst hstep, ?_, ?_, ?_⟩
    · rw [next, hstep, dropped_withoutPrefix, withoutPrefix, KeyMap.size_retain]
      simp
    · intro key
      rw [next, hstep, dropped_withoutPrefix, List.mem_filter, AList.mem_keys,
        List.isPrefixOf_iff_prefix]
    · intro other hother
      rw [next, hstep]
      show (withoutPrefix store.entries start).lookup other = _
      rw [lookup_withoutPrefix, if_neg (by rwa [List.isPrefixOf_iff_prefix])]

/-- After any calls, a key holds what the history kept. -/
theorem lookup_after_iff_kept (calls : List (Call V)) (key : Text) (json : J) :
    (after (next serde) new calls).entries.lookup key = some json ↔
      Kept serde (trace (step serde) new calls) key json := by
  have hview : (after (next serde) new calls).entries.lookup key =
      valueAfter (effect serde key) none (trace (step serde) new calls) :=
    view_after (fun store : Store J => store.entries.lookup key)
      (fun _ call (h : Bounded serde _) => next_bounded h call)
      (fun _ call h => lookup_next h call key) new_bounded calls
  rw [hview, valueAfter_eq_some_iff, lastPut_iff_kept]

/-- **The store is a finite map over whole histories**: after every run of calls,
of any requests in any order, it answers from the history. -/
theorem store_history (calls : List (Call V)) :
    Answers serde (trace (step serde) new calls) (after (next serde) new calls) := by
  have h : Bounded serde (after (next serde) (new : Store J) calls) :=
    (Visits.last calls).invariant new_bounded fun store call hs => next_bounded hs call
  exact answers_of_kept serde h (lookup_after_iff_kept serde calls)

end History
end RedfishProxy.ScriptStore
