import RedfishProxy.Lib.KeyMap
import RedfishProxy.Lib.Net
import RedfishProxy.Lib.Run

/-!
# The script store

`store::get`, `get_or`, `set`, `remove`, `remove_prefix` and `contains` over one
shared map, each call one atomic step under the lock. Rune values (`V`), JSON
values (`J`) and what serde does between them are parameters. A call comes from
a request, or from outside every request and is then refused.

Main results:
* `step_error`: a call that fails leaves the store as it was.
* `store_bounded`: the bounds hold in every state of every run.
-/

namespace RedfishProxy.ScriptStore

open Lib

/-- How many keys the store will hold. -/
def MAX_KEYS : Nat := 1024

/-- Longest key accepted, in bytes. -/
def MAX_KEY_LEN : Nat := 256

/-- Largest value accepted, measured as encoded JSON. -/
def MAX_VALUE_BYTES : Nat := 64 * 1024

/-- What the store leaves to serde, and the characters `Debug` escapes. -/
structure Serde (V J : Type) where
  /-- `serde_json::to_value` -/
  toValue : V → Except Text J
  /-- `serde_json::to_vec` -/
  toVec : J → Except Text (List UInt8)
  /-- `serde_json::from_value` -/
  fromValue : J → Except Text V
  unprintable : Char → Bool

/-- The shared map and its lock. -/
structure Store (J : Type) where
  entries : KeyMap Text J
  poisoned : Bool

/-- `Store::new`. -/
def new {J : Type} : Store J where
  entries := ∅
  poisoned := false

/-! ## What a call can be refused for -/

def checkKey (key : Text) : Except Text Unit :=
  if key.isEmpty then .error "store: the key is empty".toList
  else if key.byteLen > MAX_KEY_LEN then
    .error ("store: key is ".toList ++ decimal key.byteLen ++ " bytes, over the ".toList ++
      decimal MAX_KEY_LEN ++ " byte limit".toList)
  else .ok ()

/-- `request_ctx`, for a call made by `request`. -/
def requestCtx (request : Option Nat) (what : Text) : Except Text Unit :=
  match request with
  | some _ => .ok ()
  | none => .error (what ++ " is only callable from inside a request handler".toList)

/-- The lock, or the refusal of a poisoned one. -/
def lock {J : Type} (store : Store J) (what : Text) : Except Text (KeyMap Text J) :=
  if store.poisoned then
    .error ("store::".toList ++ what ++ ": the store lock is poisoned".toList)
  else .ok store.entries

section Calls

variable {V J : Type} (serde : Serde V J)

def toScriptValue (json : J) : Except Text V :=
  match serde.fromValue json with
  | .ok value => .ok value
  | .error error => .error ("building a script value: ".toList ++ error)

/-- `"store::set {key:?}: "` -/
def setError (key : Text) (message : Text) : Text :=
  "store::set ".toList ++ key.debug serde.unprintable ++ ": ".toList ++ message

/-- The lines every call but `set` starts with. -/
def lockFor (store : Store J) (request : Option Nat) (what key : Text) :
    Except Text (KeyMap Text J) := do
  checkKey key
  requestCtx request ("store::".toList ++ what)
  lock store what

def get (store : Store J) (request : Option Nat) (key : Text) : Except Text (Option V) := do
  let entries ← lockFor store request "get".toList key
  match entries.lookup key with
  | some value => return some (← toScriptValue serde value)
  | none => return none

def getOr (store : Store J) (request : Option Nat) (key : Text) (fallback : V) :
    Except Text V := do
  match ← get serde store request key with
  | some value => return value
  | none => return fallback

/-- The part of `set` before the lock: the JSON of an acceptable value. -/
def acceptValue (key : Text) (value : V) : Except Text J :=
  match serde.toValue value with
  | .error error =>
    .error (setError serde key ("value is not serialisable as JSON: ".toList ++ error))
  | .ok json =>
    match serde.toVec json with
    | .error error => .error (setError serde key error)
    | .ok bytes =>
      if bytes.length > MAX_VALUE_BYTES then
        .error (setError serde key ("value is ".toList ++ decimal bytes.length ++
          " bytes, over the ".toList ++ decimal MAX_VALUE_BYTES ++ " byte limit".toList))
      else .ok json

/-- The map `set` leaves behind. -/
def set (store : Store J) (request : Option Nat) (key : Text) (value : V) :
    Except Text (KeyMap Text J) := do
  checkKey key
  let json ← acceptValue serde key value
  requestCtx request "store::set".toList
  let entries ← lock store "set".toList
  -- Overwriting is always allowed. Only growing past the limit is refused.
  if entries.size ≥ MAX_KEYS ∧ key ∉ entries then
    .error (setError serde key
      ("the store already holds ".toList ++ decimal MAX_KEYS ++ " keys".toList))
  else return entries.insert key json

/-- `i64::try_from` on a count. -/
def countI64 (count : Nat) : Except Text Nat :=
  if count < 2 ^ 63 then .ok count else .error "store::remove_prefix overflowed".toList

/-- The map without the keys under the prefix. -/
def withoutPrefix (entries : KeyMap Text J) (start : Text) : KeyMap Text J :=
  entries.retain fun key => !start.isPrefixOf key

end Calls

/-! ## One call -/

inductive Op (V : Type) where
  | get (key : Text)
  | getOr (key : Text) (fallback : V)
  | set (key : Text) (value : V)
  | remove (key : Text)
  | removePrefix (start : Text)
  | contains (key : Text)

/-- A call, and the request that makes it. -/
structure Call (V : Type) where
  request : Option Nat
  op : Op V

inductive Reply (V : Type) where
  | value (value : Option V)
  | valueOr (value : V)
  | done
  | removed (was : Bool)
  | removedPrefix (count : Nat)
  | held (is : Bool)

section Step

variable {V J : Type} (serde : Serde V J)

/-- A call, run to its end under the lock. -/
def step (store : Store J) (call : Call V) : Except Text (Reply V) × Store J :=
  match call.op with
  | .get key => ((get serde store call.request key).map .value, store)
  | .getOr key fallback => ((getOr serde store call.request key fallback).map .valueOr, store)
  | .set key value =>
    match set serde store call.request key value with
    | .ok entries => (.ok .done, { store with entries })
    | .error error => (.error error, store)
  | .remove key =>
    match lockFor store call.request "remove".toList key with
    | .ok entries =>
      (.ok (.removed (entries.lookup key).isSome), { store with entries := entries.erase key })
    | .error error => (.error error, store)
  | .removePrefix start =>
    match lockFor store call.request "remove_prefix".toList start with
    | .ok entries =>
      let kept := withoutPrefix entries start
      ((countI64 (entries.size - kept.size)).map .removedPrefix, { store with entries := kept })
    | .error error => (.error error, store)
  | .contains key =>
    match lockFor store call.request "contains".toList key with
    | .ok entries => (.ok (.held (entries.lookup key).isSome), store)
    | .error error => (.error error, store)

/-- The store a call leaves behind. -/
def next (store : Store J) (call : Call V) : Store J := (step serde store call).2

/-- An acceptable key. -/
def IsKey (key : Text) : Prop := 1 ≤ key.byteLen ∧ key.byteLen ≤ MAX_KEY_LEN

theorem checkKey_ok_iff (key : Text) : checkKey key = .ok () ↔ IsKey key := by
  unfold checkKey IsKey
  have hempty : key.isEmpty = true ↔ key.byteLen = 0 := by
    rw [List.isEmpty_iff, Text.byteLen_eq_zero]
  by_cases h0 : key.isEmpty = true
  · rw [if_pos h0]
    have := hempty.mp h0
    constructor
    · intro h
      cases h
    · intro h
      omega
  · rw [if_neg h0]
    rw [hempty] at h0
    by_cases hlen : key.byteLen > MAX_KEY_LEN
    · rw [if_pos hlen]
      constructor
      · intro h
        cases h
      · intro h
        omega
    · rw [if_neg hlen]
      exact ⟨fun _ => by omega, fun _ => rfl⟩

/-! ## What a call can do -/

variable {serde} {store : Store J} {request : Option Nat} {what key : Text}

theorem lockFor_eq_ok {entries : KeyMap Text J} (h : lockFor store request what key = .ok entries) :
    IsKey key ∧ request.isSome ∧ store.poisoned = false ∧ entries = store.entries := by
  unfold lockFor at h
  cases hkey : checkKey key with
  | error e =>
      rw [hkey] at h
      cases h
  | ok u =>
      rw [hkey] at h
      cases request with
      | none => cases h
      | some r =>
          unfold lock at h
          cases hpoison : store.poisoned with
          | true =>
              rw [hpoison] at h
              cases h
          | false =>
              rw [hpoison] at h
              injection h with h
              exact ⟨(checkKey_ok_iff key).mp hkey, rfl, rfl, h.symm⟩

/-- A request with an acceptable key gets the lock. -/
theorem lockFor_ok (hkey : IsKey key) (hpoison : store.poisoned = false) (r : Nat) :
    lockFor store (some r) what key = .ok store.entries := by
  unfold lockFor lock
  rw [(checkKey_ok_iff key).mpr hkey, hpoison]
  rfl

/-- The value is acceptable: it is `json`, which encodes within the limit. -/
def Accepts (serde : Serde V J) (value : V) (json : J) : Prop :=
  serde.toValue value = .ok json ∧
    ∃ bytes, serde.toVec json = .ok bytes ∧ bytes.length ≤ MAX_VALUE_BYTES

theorem acceptValue_ok_iff (key : Text) (value : V) (json : J) :
    acceptValue serde key value = .ok json ↔ Accepts serde value json := by
  unfold acceptValue Accepts
  cases serde.toValue value with
  | error e => simp
  | ok j =>
      simp only [Except.ok.injEq]
      cases hvec : serde.toVec j with
      | error e =>
          constructor
          · intro h
            cases h
          · intro h
            obtain ⟨rfl, bytes, hbytes, _⟩ := h
            rw [hvec] at hbytes
            cases hbytes
      | ok bytes =>
          simp only
          split
          · rename_i hlong
            constructor
            · intro h
              cases h
            · intro h
              obtain ⟨rfl, bytes', hbytes, hle⟩ := h
              rw [hvec] at hbytes
              injection hbytes with hbytes
              subst hbytes
              omega
          · rename_i hshort
            constructor
            · intro h
              injection h with h
              subst h
              exact ⟨rfl, bytes, hvec, by omega⟩
            · intro h
              rw [h.1]

/-- There is room for the key. -/
def HasRoom (entries : KeyMap Text J) (key : Text) : Prop :=
  entries.size < MAX_KEYS ∨ key ∈ entries

theorem set_eq_ok {value : V} {entries : KeyMap Text J}
    (h : set serde store request key value = .ok entries) :
    IsKey key ∧ ∃ json, Accepts serde value json ∧ HasRoom store.entries key ∧
      entries = store.entries.insert key json := by
  unfold set at h
  cases hkey : checkKey key with
  | error e =>
      rw [hkey] at h
      cases h
  | ok u =>
      rw [hkey] at h
      cases haccept : acceptValue serde key value with
      | error e =>
          rw [haccept] at h
          cases h
      | ok json =>
          rw [haccept] at h
          -- outside of a request there is no store to lock
          cases request with
          | none => cases h
          | some r =>
              unfold lock at h
              cases hpoison : store.poisoned with
              | true =>
                  rw [hpoison] at h
                  cases h
              | false =>
                  rw [hpoison] at h
                  change (if store.entries.size ≥ MAX_KEYS ∧ key ∉ store.entries then _ else _) =
                    Except.ok entries at h
                  split at h
                  · cases h
                  · rename_i hroom
                    injection h with h
                    refine ⟨(checkKey_ok_iff key).mp hkey, json,
                      (acceptValue_ok_iff key value json).mp haccept, ?_, h.symm⟩
                    unfold HasRoom
                    -- a full map still takes a key that it holds
                    by_cases hmem : key ∈ store.entries
                    · exact .inr hmem
                    · refine .inl ?_
                      by_contra hfull
                      exact hroom ⟨by omega, hmem⟩

/-- And a request that meets these conditions succeeds. -/
theorem set_ok {value : V} {json : J} (hkey : IsKey key) (haccept : Accepts serde value json)
    (hpoison : store.poisoned = false) (hroom : HasRoom store.entries key) (r : Nat) :
    set serde store (some r) key value = .ok (store.entries.insert key json) := by
  have hfree : ¬ (store.entries.size ≥ MAX_KEYS ∧ key ∉ store.entries) := by
    intro h
    rcases hroom with hsize | hmem
    · omega
    · exact h.2 hmem
  unfold set lock
  rw [(checkKey_ok_iff key).mpr hkey, (acceptValue_ok_iff key value json).mpr haccept, hpoison]
  show (if store.entries.size ≥ MAX_KEYS ∧ key ∉ store.entries then _ else _) = _
  rw [if_neg hfree]
  rfl

/-- **Everything a call can do to the store.** -/
theorem step_cases (serde : Serde V J) (store : Store J) (call : Call V) :
    (∃ key value json, call.op = .set key value ∧ IsKey key ∧ Accepts serde value json ∧
      HasRoom store.entries key ∧
      step serde store call = (.ok .done, { store with entries := store.entries.insert key json })) ∨
    (∃ key, call.op = .remove key ∧ IsKey key ∧
      step serde store call = (.ok (.removed (store.entries.lookup key).isSome),
        { store with entries := store.entries.erase key })) ∨
    (∃ start, call.op = .removePrefix start ∧ IsKey start ∧
      step serde store call =
        ((countI64 (store.entries.size - (withoutPrefix store.entries start).size)).map
          .removedPrefix, { store with entries := withoutPrefix store.entries start })) ∨
    (next serde store call = store ∧ ((∃ error, (step serde store call).1 = .error error) ∨
      (∃ key, call.op = .get key) ∨ (∃ key fallback, call.op = .getOr key fallback) ∨
      ∃ key, call.op = .contains key)) := by
  obtain ⟨request, op⟩ := call
  cases op with
  | get key => exact .inr (.inr (.inr ⟨rfl, .inr (.inl ⟨key, rfl⟩)⟩))
  | getOr key fallback => exact .inr (.inr (.inr ⟨rfl, .inr (.inr (.inl ⟨key, fallback, rfl⟩))⟩))
  | set key value =>
      -- a set goes through whole, or the map is as it was
      cases hset : set serde store request key value with
      | ok entries =>
          obtain ⟨hkey, json, haccept, hroom, rfl⟩ := set_eq_ok hset
          exact .inl ⟨key, value, json, rfl, hkey, haccept, hroom, by simp only [step, hset]⟩
      | error error =>
          refine .inr (.inr (.inr ⟨?_, .inl ⟨error, ?_⟩⟩))
          · simp only [next, step, hset]
          · simp only [step, hset]
  | remove key =>
      cases hlock : lockFor store request "remove".toList key with
      | ok entries =>
          obtain ⟨hkey, _, _, rfl⟩ := lockFor_eq_ok hlock
          exact .inr (.inl ⟨key, rfl, hkey, by simp only [step, hlock]⟩)
      | error error =>
          refine .inr (.inr (.inr ⟨?_, .inl ⟨error, ?_⟩⟩))
          · simp only [next, step, hlock]
          · simp only [step, hlock]
  | removePrefix start =>
      cases hlock : lockFor store request "remove_prefix".toList start with
      | ok entries =>
          obtain ⟨hkey, _, _, rfl⟩ := lockFor_eq_ok hlock
          exact .inr (.inr (.inl ⟨start, rfl, hkey, by simp only [step, hlock]⟩))
      | error error =>
          refine .inr (.inr (.inr ⟨?_, .inl ⟨error, ?_⟩⟩))
          · simp only [next, step, hlock]
          · simp only [step, hlock]
  | contains key =>
      refine .inr (.inr (.inr ⟨?_, .inr (.inr (.inr ⟨key, rfl⟩))⟩))
      cases hlock : lockFor store request "contains".toList key <;> simp only [next, step, hlock]

/-! ## The bounds -/

/-- The bounds of the store, and a lock nobody has poisoned. -/
structure Bounded (serde : Serde V J) (store : Store J) : Prop where
  size : store.entries.size ≤ MAX_KEYS
  keys : ∀ key ∈ store.entries, IsKey key
  values : ∀ key json, store.entries.lookup key = some json →
    ∃ bytes, serde.toVec json = .ok bytes ∧ bytes.length ≤ MAX_VALUE_BYTES
  unpoisoned : store.poisoned = false

theorem new_bounded : Bounded serde (new : Store J) := by
  refine ⟨by simp [new], ?_, ?_, rfl⟩
  · intro key hkey
    exact absurd hkey (AList.notMem_empty key)
  · intro key json hlookup
    cases hlookup

theorem bounded_of_lookup {store' : Store J} (h : Bounded serde store)
    (hsize : store'.entries.size ≤ store.entries.size)
    (hlookup : ∀ key json, store'.entries.lookup key = some json →
      store.entries.lookup key = some json) (hpoison : store'.poisoned = store.poisoned) :
    Bounded serde store' := by
  refine ⟨hsize.trans h.size, ?_, ?_, hpoison.trans h.unpoisoned⟩
  · intro key hkey
    obtain ⟨json, hjson⟩ := Option.isSome_iff_exists.mp (AList.lookup_isSome.mpr hkey)
    exact h.keys key (AList.lookup_isSome.mp (by rw [hlookup key json hjson]; rfl))
  · intro key json hjson
    exact h.values key json (hlookup key json hjson)

theorem lookup_withoutPrefix (entries : KeyMap Text J) (start key : Text) :
    (withoutPrefix entries start).lookup key =
      if start.isPrefixOf key then none else entries.lookup key := by
  unfold withoutPrefix
  rw [KeyMap.lookup_retain]
  cases start.isPrefixOf key <;> rfl

/-- **Every call keeps the bounds.** -/
theorem next_bounded (h : Bounded serde store) (call : Call V) :
    Bounded serde (next serde store call) := by
  rcases step_cases serde store call with
    ⟨key, value, json, _, hkey, haccept, hroom, hstep⟩ | ⟨key, _, _, hstep⟩ |
    ⟨start, _, _, hstep⟩ | ⟨hnext, _⟩
  · rw [next, hstep]
    refine ⟨?_, ?_, ?_, h.unpoisoned⟩
    · -- A key that is new needs room, one that is held takes none.
      show KeyMap.size (store.entries.insert key json) ≤ MAX_KEYS
      by_cases hmem : key ∈ store.entries
      · rw [KeyMap.size_insert_of_mem hmem]
        exact h.size
      · rw [KeyMap.size_insert_of_notMem hmem]
        rcases hroom with hroom | hroom
        · omega
        · exact absurd hroom hmem
    · intro k hk
      rcases (AList.mem_insert _).mp hk with rfl | hk
      · exact hkey
      · exact h.keys k hk
    · intro k j hj
      change (store.entries.insert key json).lookup k = some j at hj
      rw [KeyMap.lookup_insert_eq] at hj
      split at hj
      · obtain rfl := Option.some.inj hj
        exact haccept.2
      · exact h.values k j hj
  · -- what a removal leaves was there before
    rw [next, hstep]
    refine bounded_of_lookup h (KeyMap.size_erase_le _ _) ?_ rfl
    intro k j hj
    change (store.entries.erase key).lookup k = some j at hj
    rw [KeyMap.lookup_erase_eq] at hj
    split at hj
    · cases hj
    · exact hj
  · rw [next, hstep]
    refine bounded_of_lookup h (KeyMap.size_retain_le _ _) ?_ rfl
    intro k j hj
    change (withoutPrefix store.entries start).lookup k = some j at hj
    rw [lookup_withoutPrefix] at hj
    split at hj
    · cases hj
    · exact hj
  · rw [hnext]
    exact h

/-- The overflow of `remove_prefix` is out of reach of a bounded store. -/
theorem countI64_of_bounded (h : Bounded serde store) (start : Text) :
    countI64 (store.entries.size - (withoutPrefix store.entries start).size) =
      .ok (store.entries.size - (withoutPrefix store.entries start).size) := by
  unfold countI64
  rw [if_pos]
  have hsize := h.size
  unfold MAX_KEYS at hsize
  omega

/-- A call that fails leaves the store as it was. -/
theorem step_error (h : Bounded serde store) (call : Call V) {error : Text}
    (herror : (step serde store call).1 = .error error) : next serde store call = store := by
  rcases step_cases serde store call with
    ⟨key, value, json, _, _, _, _, hstep⟩ | ⟨key, _, _, hstep⟩ | ⟨start, _, _, hstep⟩ | ⟨hnext, _⟩
  · rw [hstep] at herror
    cases herror
  · rw [hstep] at herror
    cases herror
  · rw [hstep, countI64_of_bounded h] at herror
    cases herror
  · exact hnext

/-- **The bounds hold in every state of every run**, and a full store still
takes an acceptable value for a key it holds. -/
theorem store_bounded (serde : Serde V J) (calls : List (Call V)) {store : Store J}
    (hvisit : Visits (next serde) new calls store) :
    (store.entries.size ≤ 1024 ∧
      (∀ key ∈ store.entries, 1 ≤ key.byteLen ∧ key.byteLen ≤ 256) ∧
      ∀ key json, store.entries.lookup key = some json →
        ∃ bytes, serde.toVec json = .ok bytes ∧ bytes.length ≤ 65536) ∧
      ∀ key ∈ store.entries, ∀ value json, Accepts serde value json →
        ∀ r, (step serde store { request := some r, op := .set key value }).1 = .ok .done := by
  have h : Bounded serde store := hvisit.invariant new_bounded fun s call hs => next_bounded hs call
  refine ⟨⟨h.size, h.keys, h.values⟩, ?_⟩
  intro key hkey value json haccept r
  have hset := set_ok (h.keys key hkey) haccept h.unpoisoned (.inr hkey) r
  simp only [step, hset]

end Step

/-- Serde on booleans. -/
def boolSerde : Serde Bool Bool where
  toValue value := .ok value
  toVec json :=
    .ok ((if json then "true".toList else "false".toList).flatMap String.utf8EncodeChar)
  fromValue json := .ok json
  unprintable _ := false

theorem store_bounded_one_key :
    let store := next boolSerde new { request := some 1, op := .set "seen".toList true }
    (store.entries.size ≤ 1024 ∧
      (∀ key ∈ store.entries, 1 ≤ key.byteLen ∧ key.byteLen ≤ 256) ∧
      ∀ key json, store.entries.lookup key = some json →
        ∃ bytes, boolSerde.toVec json = .ok bytes ∧ bytes.length ≤ 65536) ∧
      ∀ key ∈ store.entries, ∀ value json, Accepts boolSerde value json →
        ∀ r, (step boolSerde store { request := some r, op := .set key value }).1 = .ok .done :=
  store_bounded boolSerde [{ request := some 1, op := .set "seen".toList true }] (Visits.last _)

end RedfishProxy.ScriptStore
