import RedfishProxy.Shipped.Requests

/-!
# What reaches the store

The store of the proxy while requests are in service. A request writes under the
one key of the resource its path names, and only if it is a write; a factory
reset takes everything. So what no request of a run is about stays, and after a
reset the store is that of a proxy that has just started.

Main results:
* `untouched`: what is kept under a key that no request of the run touches.
* `reads_only`: what a request that reads does to the store, and to the BMC.
* `reset_forgets`: the store after a reset.
-/

namespace RedfishProxy.Shipped

open Lib Http Config Script RuneHost ScriptUtil

namespace ShippedScript

/-- The key of what a resource keeps. -/
def ownKey (req : ScriptRequest) : ShippedScript → Option Text
  | systems => (segment req.path 4).map orderKey
  | secureBoot => (segment req.path 4).map secureBootKey
  | sysLockdown => (segment req.path 4).map sysLockdownKey
  | kcsInterface => (segment req.path 4).map kcsInterfaceKey
  | hostInterface => do
    let manager ← segment req.path 4
    let id ← segment req.path 6
    return hostInterfaceKey manager id
  | biosChangePassword => some uefiKey
  | _ => none

variable {ν : Type} {req : ScriptRequest} {script : ShippedScript}
  {op : ScriptStore.Op (Json ν)}

/-- A write of a resource is a write of its key. -/
theorem Writes.cases (h : script.Writes req op) :
    (∃ key value, op = .set key value ∧ script.ownKey req = some key ∧
      (isWrite req = true ∨ script = biosChangePassword)) ∨
    (script = smcManagerConfigReset ∧ op = .removePrefix "supermicro/".toList) := by
  cases h with
  | order hmethod hsystem order =>
      refine .inl ⟨_, order, rfl, by simp [ownKey, hsystem], .inl ?_⟩
      unfold isWrite
      rw [hmethod]
      rfl
  | secureBoot hwrite hsystem value =>
      exact .inl ⟨_, value, rfl, by simp [ownKey, hsystem], .inl hwrite⟩
  | sysLockdown hwrite hmanager value =>
      exact .inl ⟨_, value, rfl, by simp [ownKey, hmanager], .inl hwrite⟩
  | kcsInterface hwrite hmanager value =>
      exact .inl ⟨_, value, rfl, by simp [ownKey, hmanager], .inl hwrite⟩
  | hostInterface hwrite hmanager hid value =>
      exact .inl ⟨_, value, rfl, by simp [ownKey, hmanager, hid], .inl hwrite⟩
  | password => exact .inl ⟨uefiKey, _, rfl, rfl, .inr rfl⟩
  | reset => exact .inr ⟨rfl, rfl⟩

/-- The keys of the proxy start alike. -/
theorem prefix_of_ownKey {key : Text} (h : script.ownKey req = some key) :
    "supermicro/".toList <+: key := by
  cases script <;> simp only [ownKey, reduceCtorEq] at h
  case systems | secureBoot | sysLockdown | kcsInterface =>
    obtain ⟨name, _, rfl⟩ := Option.map_eq_some_iff.mp h
    exact ⟨_, (List.append_assoc ..).symm⟩
  case hostInterface =>
    obtain ⟨manager, _, h⟩ := Option.bind_eq_some_iff.mp h
    obtain ⟨id, _, h⟩ := Option.bind_eq_some_iff.mp h
    obtain rfl := Option.some.inj h
    unfold hostInterfaceKey
    rw [List.append_assoc, List.append_assoc]
    exact ⟨_, rfl⟩
  case biosChangePassword =>
    obtain rfl := Option.some.inj h
    exact ⟨"UefiPasswordSet".toList, rfl⟩

end ShippedScript

/-- A request that can change what is kept under a key: a write of the resource
whose key it is, or a factory reset. -/
def Touches (app : Proxy.AppState) (incoming : Incoming) (key : Text) : Prop :=
  ∃ admitted, receive app incoming = .ok admitted ∧
    (admitted.script = .smcManagerConfigReset ∨
      (admitted.script.ownKey admitted.req = some key ∧
        (isWrite admitted.req = true ∨ admitted.script = .biosChangePassword)))

/-- A request that reads: a `GET` or a `HEAD`, and of nothing that acts. -/
def Admitted.Reads (admitted : Admitted) : Prop :=
  (admitted.parts.method = .GET ∨ admitted.parts.method = .HEAD) ∧
    admitted.script ∉ [.biosChangePassword, .oemSystemReset, .smcManagerConfigReset]

section InService

variable {ν σ : Type} {host : Rune ν σ} {app : Proxy.AppState} {scriptDir : Text}
  {store : ScriptStore.Store (Json ν)} {pool : InService ν}

/-! ## One question -/

theorem put_call (store : ScriptStore.Store (Json ν)) (op : ScriptStore.Op (Json ν)) :
    Threads.put (storeShared host) store (.call op) =
      ScriptStore.next host.serde store ⟨some 0, op⟩ := rfl

/-- What is asked is a read of the store, a write of it, or nothing to it. -/
theorem asked_cases (h : Reached host app scriptDir store pool) {id : Nat} {question : Ask ν}
    (hasked : (id, question) ∈ pool.asked) :
    (∀ before, Threads.put (storeShared host) before question = before) ∨
    ∃ (thread : Thread (@Ask.Answer ν) Incoming Response) (admitted : Admitted)
        (op : ScriptStore.Op (Json ν)), pool.threads[id]? = some thread ∧
      receive app thread.request = .ok admitted ∧ question = .call op ∧
      admitted.script.Writes admitted.req op := by
  obtain ⟨thread, admitted, stage, stage', hthread, hreceive, hallows⟩ := asked_allowed h hasked
  cases hallows with
  | opens left => exact .inl fun _ => rfl
  | fetches hsends hget left => exact .inl fun _ => rfl
  | acts hsends calls acts => exact .inl fun _ => rfl
  | answers left status headers body => exact .inl fun _ => rfl
  | calls hcalls calls acts =>
      rcases hcalls with ⟨key, fallback, rfl⟩ | hwrites
      · exact .inl fun _ => rfl
      · exact .inr ⟨thread, admitted, _, hthread, hreceive, rfl, hwrites⟩

/-- A set leaves every other key. -/
theorem lookup_next_set {key other : Text} (hne : other ≠ key) (value : Json ν)
    (store : ScriptStore.Store (Json ν)) :
    (ScriptStore.next host.serde store ⟨some 0, .set key value⟩).entries.lookup other =
      store.entries.lookup other := by
  unfold ScriptStore.next
  rcases step_set_cases host store key value with ⟨text, hstep⟩ | hstep
  · rw [hstep]
  · rw [hstep]
    exact AList.lookup_insert_ne hne

def SameAt (key : Text) (store before : ScriptStore.Store (Json ν)) : Prop :=
  before.entries.lookup key = store.entries.lookup key

/-- **What no request of a run touches stays**, whatever they do besides. -/
theorem untouched (h : Reached host app scriptDir store pool) (key : Text)
    (hkey : ∀ (id : Nat) (thread : Thread (@Ask.Answer ν) Incoming Response),
      pool.threads[id]? = some thread → ¬ Touches app thread.request key) :
    pool.shared.entries.lookup key = store.entries.lookup key := by
  have hrun : SameAt key store
      (after (Threads.put (storeShared host)) store (pool.asked.map Prod.snd)) := by
    refine (Visits.last _).invariant_of_mem (rfl : SameAt key store store)
      fun before question hmem hbefore => ?_
    obtain ⟨⟨id, question⟩, hasked, rfl⟩ := List.mem_map.mp hmem
    rcases asked_cases h hasked with
      hsame | ⟨thread, admitted, op, hthread, hreceive, rfl, hwrites⟩
    · show SameAt key store (Threads.put _ _ _)
      rw [hsame before]
      exact hbefore
    · rcases hwrites.cases with ⟨own, value, rfl, hown, hwrite⟩ | ⟨hscript, rfl⟩
      · have hne : key ≠ own := by
          rintro rfl
          exact hkey id thread hthread ⟨admitted, hreceive, .inr ⟨hown, hwrite⟩⟩
        exact (lookup_next_set hne value before).trans hbefore
      · exact absurd ⟨admitted, hreceive, .inl hscript⟩ (hkey id thread hthread)
  rw [store_eq h]
  exact hrun

end InService

/-- The proxy after the events, from a store on. -/
def passwordPool (store : ScriptStore.Store (Json Nat)) (events : List (ServiceEvent Nat)) :
    InService Nat :=
  after (serviceStep quietHost passwordApp []) (Threads.empty store) events

theorem reached_passwordPool (store : ScriptStore.Store (Json Nat))
    (events : List (ServiceEvent Nat)) :
    Reached quietHost passwordApp [] store (passwordPool store events) :=
  ⟨events, Visits.last events⟩

/-- A store in which a lockdown is kept. -/
def lockedStore : ScriptStore.Store (Json Nat) :=
  ScriptStore.next quietHost.serde ScriptStore.new
    ⟨some 0, .set (sysLockdownKey "1".toList) (.bool true)⟩

/-- A change of the password, up to its call of the store. -/
def changeEvents : List (ServiceEvent Nat) :=
  [.arrive passwordChange] ++ [.go 0 nobody, .go 0 nobody]

theorem passwordPool_changed : ∃ heard rest asked, passwordPool lockedStore changeEvents =
    ⟨ScriptStore.next quietHost.serde lockedStore ⟨some 0, .set uefiKey (.bool true)⟩,
      [⟨passwordChange, heard, rest⟩], asked⟩ := by
  obtain ⟨record, rest, hopening⟩ := opening_passwordChange
  have harrived : after (serviceStep quietHost passwordApp []) (Threads.empty lockedStore)
      [.arrive passwordChange] =
        ⟨lockedStore, [⟨passwordChange, [], opening quietHost passwordApp [] passwordChange⟩], []⟩ :=
    rfl
  rw [passwordPool, changeEvents, after_append, harrived, hopening]
  exact ⟨_, _, _, rfl⟩

/-- The password is kept next to the lockdown, which stays. -/
theorem untouched_password :
    (passwordPool lockedStore changeEvents).shared.entries.lookup uefiKey = some (.bool true) ∧
      (passwordPool lockedStore changeEvents).shared.entries.lookup (sysLockdownKey "1".toList) =
        some (.bool true) := by
  obtain ⟨heard, rest, asked, hpool⟩ := passwordPool_changed
  have hlocked : lockedStore.entries.lookup (sysLockdownKey "1".toList) = some (.bool true) := rfl
  have hkept := untouched (reached_passwordPool lockedStore changeEvents)
    (sysLockdownKey "1".toList)
  rw [hpool, hlocked] at hkept
  rw [hpool]
  refine ⟨rfl, hkept fun id thread hthread htouches => ?_⟩
  have hrequest : thread.request = passwordChange := by
    cases id with
    | zero => exact (congrArg Thread.request (Option.some.inj hthread)).symm
    | succ id => cases hthread
  rw [hrequest] at htouches
  obtain ⟨admitted, hreceive, hreset | ⟨hown, _⟩⟩ := htouches
  all_goals rw [receive_passwordChange] at hreceive; obtain rfl := Except.ok.inj hreceive
  · cases hreset
  · exact absurd (Option.some.inj hown) (by decide)

section InService

variable {ν σ : Type} {host : Rune ν σ} {app : Proxy.AppState} {scriptDir : Text}
  {store : ScriptStore.Store (Json ν)} {pool : InService ν}

/-! ## Requests that read -/

/-- A `GET` or a `HEAD` is no write. -/
theorem isWrite_of_reads {admitted : Admitted} (h : admitted.Reads) :
    isWrite admitted.req = false := by
  have hmethod : admitted.req.method = admitted.parts.method.name := rfl
  unfold isWrite
  rw [hmethod]
  rcases h.1 with hget | hhead
  · rw [hget]
    decide
  · rw [hhead]
    decide

/-- What a script that reads makes up is a `GET`. -/
theorem methods_of_reads {admitted : Admitted} (h : admitted.Reads) :
    admitted.script.methods admitted.req = [.GET] := by
  have hwrite := isWrite_of_reads h
  have hpatch : ¬ admitted.req.method = "PATCH".toList := by
    intro hpatch
    unfold isWrite at hwrite
    rw [hpatch] at hwrite
    cases hwrite
  obtain ⟨_, hscript⟩ := h
  unfold ShippedScript.methods
  split
  · rw [if_neg hpatch]
  · rw [if_neg (by simp [hwrite])]
  · rename_i heq
    exact absurd heq (by rintro heq'; simp [heq'] at hscript)
  · rfl

/-- **A request that reads changes nothing**: not the store, and it sends the BMC
nothing but `GET` and `HEAD`. -/
theorem reads_only (h : Reached host app scriptDir store pool) {id : Nat}
    {thread : Thread (@Ask.Answer ν) Incoming Response} (hthread : pool.threads[id]? = some thread)
    {admitted : Admitted} (hreceive : receive app thread.request = .ok admitted)
    (hreads : admitted.Reads) {question : Ask ν} (hasked : (id, question) ∈ pool.asked) :
    (∀ before, Threads.put (storeShared host) before question = before) ∧
      ∀ outbound, question = .send outbound →
        outbound.method = .GET ∨ outbound.method = .HEAD := by
  obtain ⟨thread', admitted', stage, stage', hthread', hreceive', hallows⟩ := asked_allowed h hasked
  obtain rfl : thread = thread' := by simpa [hthread] using hthread'
  obtain rfl : admitted = admitted' := by simpa [hreceive] using hreceive'
  cases hallows with
  | opens left => exact ⟨fun _ => rfl, fun _ heq => by cases heq⟩
  | answers left status headers body => exact ⟨fun _ => rfl, fun _ heq => by cases heq⟩
  | fetches hsends hget left =>
      refine ⟨fun _ => rfl, fun outbound heq => ?_⟩
      obtain rfl := Ask.send.inj heq
      exact .inl hget
  | acts hsends calls acts =>
      refine ⟨fun _ => rfl, fun outbound heq => ?_⟩
      obtain rfl := Ask.send.inj heq
      rcases hsends.2 with hown | hmade
      · rw [hown]
        exact hreads.1
      · rw [methods_of_reads hreads] at hmade
        exact .inl (List.mem_singleton.mp hmade)
  | calls hcalls calls acts =>
      refine ⟨?_, fun _ heq => by cases heq⟩
      rcases hcalls with ⟨key, fallback, rfl⟩ | hwrites
      · exact fun _ => rfl
      · -- a write is a method it does not have, or a script that acts
        rcases hwrites.cases with ⟨key, value, rfl, _, hwrite | hscript⟩ | ⟨hscript, _⟩
        · exact absurd hwrite (by simp [isWrite_of_reads hreads])
        · exact absurd hreads.2 (by simp [hscript])
        · exact absurd hreads.2 (by simp [hscript])

end InService

/-- A read of the lockdown state, up to its call of the store. -/
def lockdownRead : Incoming :=
  incomingTo .sysLockdown .GET "/redfish/v1/Managers/1/Oem/Supermicro/SysLockdown".toList

def readEvents : List (ServiceEvent Nat) := [.arrive lockdownRead, .go 0 nobody, .go 0 nobody]

/-- The proxy at that point. -/
def readPool : InService Nat :=
  after (serviceStep quietHost (appWith .sysLockdown) []) (Threads.empty ScriptStore.new) readEvents

theorem reached_readPool :
    Reached quietHost (appWith .sysLockdown) [] ScriptStore.new readPool :=
  ⟨readEvents, Visits.last _⟩

theorem request_readPool {id : Nat} {thread : Thread (@Ask.Answer Nat) Incoming Response}
    (h : readPool.threads[id]? = some thread) : thread.request = lockdownRead := by
  cases id with
  | zero => exact (congrArg Thread.request (Option.some.inj h)).symm
  | succ id => cases h

theorem reads_only_read :
    (0, Ask.call (.getOr (sysLockdownKey "1".toList) (.bool false))) ∈ readPool.asked ∧
      Threads.put (storeShared quietHost) ScriptStore.new
          (.call (.getOr (sysLockdownKey "1".toList) (.bool false))) = ScriptStore.new := by
  have hasked : (0, Ask.call (.getOr (sysLockdownKey "1".toList) (.bool false))) ∈
      readPool.asked := List.mem_cons_of_mem _ List.mem_cons_self
  obtain ⟨thread, hthread⟩ : ∃ thread, readPool.threads[0]? = some thread := ⟨_, rfl⟩
  have hreceive : receive (appWith .sysLockdown) thread.request = .ok
      ⟨.sysLockdown, lockdownRead.parts, [], bareDisk⟩ := by
    rw [request_readPool hthread]
    exact receive_appWith ..
  exact ⟨hasked,
    (reads_only reached_readPool hthread hreceive ⟨.inl rfl, by decide⟩ hasked).1 _⟩

section InService

variable {ν σ : Type} {host : Rune ν σ} {app : Proxy.AppState} {scriptDir : Text}
  {store : ScriptStore.Store (Json ν)} {pool : InService ν}

/-! ## A factory reset -/

/-- The proxy's own keys, and no others. -/
structure Ours (host : Rune ν σ) (store : ScriptStore.Store (Json ν)) : Prop where
  bounded : ScriptStore.Bounded host.serde store
  keys : ∀ key ∈ store.entries, "supermicro/".toList <+: key

theorem ours_new : Ours host ScriptStore.new :=
  ⟨ScriptStore.new_bounded, fun key hkey => absurd hkey (AList.notMem_empty key)⟩

theorem next_reset (h : Ours host store) :
    ScriptStore.next host.serde store ⟨some 0, .removePrefix "supermicro/".toList⟩ =
      ScriptStore.new := by
  have hkey : ScriptStore.IsKey "supermicro/".toList := ⟨by decide, by decide⟩
  have hempty : ScriptStore.withoutPrefix store.entries "supermicro/".toList = ∅ := by
    refine AList.ext (List.filter_eq_nil_iff.mpr fun entry hentry => ?_)
    have hmem : entry.1 ∈ store.entries := List.mem_keys_of_mem hentry
    simpa [List.isPrefixOf_iff_prefix] using h.keys _ hmem
  unfold ScriptStore.next
  rw [ScriptStore.step_removePrefix host.serde h.bounded hkey, hempty]
  show ScriptStore.Store.mk ∅ store.poisoned = ⟨∅, false⟩
  rw [h.bounded.unpoisoned]

/-- Everything that is written is the proxy's own. -/
theorem ours_put (h : Reached host app scriptDir store pool) {id : Nat} {question : Ask ν}
    (hasked : (id, question) ∈ pool.asked) {before : ScriptStore.Store (Json ν)}
    (hbefore : Ours host before) : Ours host (Threads.put (storeShared host) before question) := by
  rcases asked_cases h hasked with hsame | ⟨_, admitted, op, _, _, rfl, hwrites⟩
  · rw [hsame before]
    exact hbefore
  · refine ⟨ScriptStore.next_bounded hbefore.bounded _, fun key hkey => ?_⟩
    rcases hwrites.cases with ⟨own, value, rfl, hown, _⟩ | ⟨_, rfl⟩
    · by_cases hkeys : key = own
      · rw [hkeys]
        exact ShippedScript.prefix_of_ownKey hown
      · refine hbefore.keys key (AList.lookup_isSome.mp ?_)
        rw [← lookup_next_set hkeys value]
        exact AList.lookup_isSome.mpr hkey
    · rw [put_call, next_reset hbefore] at hkey
      exact absurd hkey (AList.notMem_empty key)

def IsNew (store : ScriptStore.Store (Json ν)) : Prop := store = ScriptStore.new

/-- **After a factory reset the store is as new**, until something is set again:
whatever requests were in service at the reset, or are since. -/
theorem reset_forgets (h : Reached host app scriptDir ScriptStore.new pool) {id : Nat}
    {front back : List (Nat × Ask ν)}
    (hasked : pool.asked =
      front ++ (id, .call (.removePrefix "supermicro/".toList)) :: back)
    (hback : ∀ entry ∈ back, ∀ key value, entry.2 ≠ .call (.set key value)) :
    pool.shared = ScriptStore.new := by
  have hfront : Ours host (after (Threads.put (storeShared host)) ScriptStore.new
      (front.map Prod.snd)) := by
    refine (Visits.last _).invariant_of_mem ours_new fun before question hmem hbefore => ?_
    obtain ⟨⟨other, question⟩, hentry, rfl⟩ := List.mem_map.mp hmem
    exact ours_put h (by rw [hasked]; exact List.mem_append_left _ hentry) hbefore
  rw [store_eq h, hasked, List.map_append, List.map_cons, after_append]
  have hreset : Threads.put (storeShared host)
      (after (Threads.put (storeShared host)) ScriptStore.new (front.map Prod.snd))
      (.call (.removePrefix "supermicro/".toList)) = ScriptStore.new := next_reset hfront
  show List.foldl _ (Threads.put (storeShared host) (after _ _ _) _) _ = _
  rw [hreset]
  -- what comes after it reads, or resets again
  have hrun : IsNew (after (Threads.put (storeShared host)) ScriptStore.new
      (back.map Prod.snd)) := by
    refine (Visits.last _).invariant_of_mem (rfl : IsNew ScriptStore.new)
      fun before question hmem hbefore => ?_
    obtain ⟨⟨other, question⟩, hentry, rfl⟩ := List.mem_map.mp hmem
    obtain rfl : before = ScriptStore.new := hbefore
    have hlater : (other, question) ∈ pool.asked := by
      rw [hasked]
      exact List.mem_append_right _ (List.mem_cons_of_mem _ hentry)
    rcases asked_cases h hlater with hsame | ⟨_, admitted, op, _, _, rfl, hwrites⟩
    · exact hsame _
    · rcases hwrites.cases with ⟨own, value, rfl, _, _⟩ | ⟨_, rfl⟩
      · exact absurd rfl (hback _ hentry own value)
      · exact next_reset ours_new
  exact hrun

end InService

/-- A change of the password, a reset, and another change. -/
def resetArrivals : List (ServiceEvent Nat) :=
  [.arrive passwordChange, .arrive factoryReset, .arrive passwordChange]

/-- The first has set the password, the others are in service. -/
def beforeReset : List (ServiceEvent Nat) :=
  resetArrivals ++ [.go 0 nobody, .go 0 nobody, .go 1 nobody, .go 2 nobody]

theorem after_resetArrivals : ∃ record rest,
    after (serviceStep quietHost passwordApp []) (Threads.empty ScriptStore.new) resetArrivals =
      ⟨ScriptStore.new,
        [⟨passwordChange, [], .ask (.log record) fun _ =>
          .ask (.call (.set uefiKey (.bool true))) rest⟩,
        ⟨factoryReset, [], opening quietHost passwordApp [] factoryReset⟩,
        ⟨passwordChange, [], .ask (.log record) fun _ =>
          .ask (.call (.set uefiKey (.bool true))) rest⟩], []⟩ := by
  obtain ⟨record, rest, hopening⟩ := opening_passwordChange
  refine ⟨record, rest, ?_⟩
  rw [← hopening]
  rfl

/-- What was set is there before the reset, and gone after it. -/
theorem reset_forgets_password :
    (passwordPool ScriptStore.new beforeReset).shared.entries.lookup uefiKey =
        some (.bool true) ∧
      (passwordPool ScriptStore.new (beforeReset ++ [.go 1 nobody])).shared =
        ScriptStore.new := by
  obtain ⟨record, rest, harrived⟩ := after_resetArrivals
  have hasked : ∃ front, (passwordPool ScriptStore.new (beforeReset ++ [.go 1 nobody])).asked =
      front ++ (1, .call (.removePrefix "supermicro/".toList)) :: [] := by
    rw [passwordPool, beforeReset, after_append, after_append, harrived]
    exact ⟨[_, _, _, _], rfl⟩
  obtain ⟨front, hasked⟩ := hasked
  refine ⟨?_, reset_forgets (reached_passwordPool _ _) hasked fun _ hback => by cases hback⟩
  rw [passwordPool, beforeReset, after_append, harrived]
  rfl

end RedfishProxy.Shipped
