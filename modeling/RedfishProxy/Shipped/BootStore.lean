import RedfishProxy.Shipped.BootWrite

/-!
# The orders the store keeps

The orders of a boot write go to the store one after the other, until the store
refuses one. What is kept in the end is the last of those before it.

Main results:
* `exec_forM_storeSet`: the loop over the orders, as a function of the store.
* `lookup_keepAll`: what a key holds after it.
-/

namespace RedfishProxy.Shipped

open Lib Http Script RuneHost
open ScriptStore (IsKey Accepts HasRoom Bounded)

section Keep

variable {ν σ : Type} (host : Rune ν σ)

/-- The store takes the value for the key. -/
def Storable (store : ScriptStore.Store (Json ν)) (key : Text) (value : Json ν) : Prop :=
  IsKey key ∧ Accepts host.serde value value ∧ store.poisoned = false ∧
    HasRoom store.entries key

/-- The same, as the store decides it. -/
def storable (store : ScriptStore.Store (Json ν)) (key : Text) (value : Json ν) : Bool :=
  match (ScriptStore.step host.serde store ⟨some 0, .set key value⟩).1 with
  | .ok _ => true
  | .error _ => false

/-- `store::set(key, value)?`, one value after the other. -/
def keepAll (key : Text) : List (Json ν) → ScriptStore.Store (Json ν) →
    Except Text Unit × ScriptStore.Store (Json ν)
  | [], store => (.ok (), store)
  | value :: values, store =>
    match (ScriptStore.step host.serde store ⟨some 0, .set key value⟩).1 with
    | .ok _ => keepAll key values (ScriptStore.next host.serde store ⟨some 0, .set key value⟩)
    | .error text => (.error text, ScriptStore.next host.serde store ⟨some 0, .set key value⟩)

/-- The last value that is kept. -/
def keptValue (store : ScriptStore.Store (Json ν)) (key : Text) (values : List (Json ν)) :
    Option (Json ν) :=
  (values.takeWhile (storable host store key)).getLast?

variable {host} {store : ScriptStore.Store (Json ν)} {key : Text} {value : Json ν}

theorem exec_forM_storeSet (values : List (Json ν)) (machine : Machine ν σ) :
    exec (values.forM (storeSet host key)) machine =
      ((keepAll host key values machine.store).1.mapError fun text => Stop.error [.display text],
        { machine with store := (keepAll host key values machine.store).2 }) := by
  induction values generalizing machine with
  | nil => rfl
  | cons value values ih =>
      have hcons : (value :: values).forM (storeSet (σ := σ) host key) =
          storeSet host key value >>= fun _ => values.forM (storeSet host key) := rfl
      rw [hcons, exec_bind]
      unfold storeSet keepAll
      rw [exec_bind, exec_storeCall]
      cases (ScriptStore.step host.serde machine.store ⟨some 0, .set key value⟩).1 with
      | error text => rfl
      | ok reply => exact ih _

variable (host) in
/-- A value that is storable is stored, and any other is refused. -/
theorem set_cases (store : ScriptStore.Store (Json ν)) (key : Text) (value : Json ν) :
    (Storable host store key value ∧
      ScriptStore.step host.serde store ⟨some 0, .set key value⟩ =
        (.ok .done, { store with entries := store.entries.insert key value })) ∨
    (¬ Storable host store key value ∧ ∃ text,
      ScriptStore.step host.serde store ⟨some 0, .set key value⟩ = (.error text, store)) := by
  by_cases h : Storable host store key value
  · obtain ⟨hkey, haccepts, hpoison, hroom⟩ := h
    refine .inl ⟨⟨hkey, haccepts, hpoison, hroom⟩, ?_⟩
    have hset := ScriptStore.set_ok hkey haccepts hpoison hroom 0
    simp only [ScriptStore.step, hset]
  · refine .inr ⟨h, ?_⟩
    cases hset : ScriptStore.set host.serde store (some 0) key value with
    | error text => exact ⟨text, by simp only [ScriptStore.step, hset]⟩
    | ok entries =>
        exfalso
        apply h
        obtain ⟨hkey, json, haccepts, hroom, _⟩ := ScriptStore.set_eq_ok hset
        obtain rfl : value = json := by
          have hjson := haccepts.1
          injection hjson
        refine ⟨hkey, haccepts, ?_, hroom⟩
        -- a poisoned lock would have refused the value
        cases hpoison : store.poisoned with
        | false => rfl
        | true =>
            unfold ScriptStore.set ScriptStore.lock at hset
            rw [(ScriptStore.checkKey_ok_iff key).mpr hkey,
              (ScriptStore.acceptValue_ok_iff key value value).mpr haccepts, hpoison] at hset
            cases hset

theorem storable_iff : storable host store key value = true ↔ Storable host store key value := by
  unfold storable
  rcases set_cases host store key value with ⟨h, hstep⟩ | ⟨h, text, hstep⟩
  · rw [hstep]
    simp [h]
  · rw [hstep]
    simp [h]

/-- One value kept leaves room for the next. -/
theorem storable_next (h : Storable host store key value) (other : Json ν) :
    storable host { store with entries := store.entries.insert key value } key other =
      storable host store key other := by
  rw [Bool.eq_iff_iff, storable_iff, storable_iff]
  obtain ⟨hkey, _, hpoison, hroom⟩ := h
  constructor
  · intro h
    exact ⟨hkey, h.2.1, hpoison, hroom⟩
  · intro h
    exact ⟨hkey, h.2.1, hpoison, .inr (AList.mem_insert _ |>.mpr (.inl rfl))⟩

/-! ## The store afterwards -/

theorem keepAll_cons_of_storable (h : Storable host store key value) (values : List (Json ν)) :
    keepAll host key (value :: values) store =
      keepAll host key values { store with entries := store.entries.insert key value } := by
  rcases set_cases host store key value with ⟨_, hstep⟩ | ⟨hnot, _⟩
  · rw [keepAll]
    unfold ScriptStore.next
    simp only [hstep]
  · exact absurd h hnot

theorem keepAll_cons_of_not (h : ¬ Storable host store key value) (values : List (Json ν)) :
    ∃ text, keepAll host key (value :: values) store = (.error text, store) := by
  rcases set_cases host store key value with ⟨hstorable, _⟩ | ⟨_, text, hstep⟩
  · exact absurd hstorable h
  · refine ⟨text, ?_⟩
    rw [keepAll]
    unfold ScriptStore.next
    simp only [hstep]

/-- **The key holds the last value that was kept**, or what it held. -/
theorem lookup_keepAll (values : List (Json ν)) (store : ScriptStore.Store (Json ν)) :
    (keepAll host key values store).2.entries.lookup key =
      (keptValue host store key values).or (store.entries.lookup key) := by
  unfold keptValue
  induction values generalizing store with
  | nil => rfl
  | cons value values ih =>
      by_cases h : Storable host store key value
      · rw [keepAll_cons_of_storable h, ih, List.takeWhile_cons, if_pos (storable_iff.mpr h),
          List.getLast?_cons, KeyMap.lookup_insert_eq, if_pos rfl]
        simp only [funext (storable_next h)]
        cases (values.takeWhile (storable host store key)).getLast? <;> rfl
      · obtain ⟨text, hkeep⟩ := keepAll_cons_of_not h values
        rw [hkeep, List.takeWhile_cons, if_neg (by rwa [storable_iff])]
        rfl

/-- No other key is touched. -/
theorem lookup_keepAll_of_ne {other : Text} (hother : other ≠ key) (values : List (Json ν))
    (store : ScriptStore.Store (Json ν)) :
    (keepAll host key values store).2.entries.lookup other = store.entries.lookup other := by
  induction values generalizing store with
  | nil => rfl
  | cons value values ih =>
      by_cases h : Storable host store key value
      · rw [keepAll_cons_of_storable h, ih, KeyMap.lookup_insert_eq, if_neg hother]
      · obtain ⟨text, hkeep⟩ := keepAll_cons_of_not h values
        rw [hkeep]

/-- The loop ends when every value is kept. -/
theorem keepAll_ok_iff (values : List (Json ν)) (store : ScriptStore.Store (Json ν)) :
    (keepAll host key values store).1 = .ok () ↔
      ∀ value ∈ values, storable host store key value = true := by
  induction values generalizing store with
  | nil => simp [keepAll]
  | cons value values ih =>
      by_cases h : Storable host store key value
      · rw [keepAll_cons_of_storable h, ih, List.forall_mem_cons]
        simp only [funext (storable_next h), storable_iff.mpr h, true_and]
      · obtain ⟨text, hkeep⟩ := keepAll_cons_of_not h values
        rw [hkeep, List.forall_mem_cons, storable_iff]
        simp [h]

/-! ## A read -/

/-- `store::get_or(key, fallback)?` with an acceptable key. -/
theorem exec_storeGetOr {machine : Machine ν σ} (h : Bounded host.serde machine.store)
    (hkey : IsKey key) (fallback : Json ν) : exec (storeGetOr host key fallback) machine =
      (.ok (((machine.store.entries.lookup key).map host.scriptValue).getD fallback), machine) := by
  unfold storeGetOr
  rw [exec_bind, exec_storeCall, step_getOr_eq h hkey]
  rfl

/-- And with any other. -/
theorem exec_storeGetOr_error (hkey : ¬ IsKey key) (fallback : Json ν) (machine : Machine ν σ) :
    ∃ text, exec (storeGetOr host key fallback) machine =
      (.error (.error [.display text]), machine) := by
  obtain ⟨text, htext⟩ : ∃ text, ScriptStore.checkKey key = .error text := by
    cases hcheck : ScriptStore.checkKey key with
    | error text => exact ⟨text, rfl⟩
    | ok value => exact absurd ((ScriptStore.checkKey_ok_iff key).mp hcheck) hkey
  refine ⟨text, ?_⟩
  have hlock : ScriptStore.lockFor machine.store (some 0) "get".toList key = .error text := by
    unfold ScriptStore.lockFor
    rw [htext]
    rfl
  have hstep : (ScriptStore.step host.serde machine.store ⟨some 0, .getOr key fallback⟩).1 =
      .error text := by
    simp only [ScriptStore.step, ScriptStore.getOr, ScriptStore.get, hlock]
    rfl
  unfold storeGetOr
  rw [exec_bind, exec_storeCall, hstep]
  rfl

end Keep
end RedfishProxy.Shipped
