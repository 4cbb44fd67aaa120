import RedfishProxy.Shipped.Serve

/-!
# Reading a boot write

The loop of `systems.rn` and of `system_settings.rn` over the `Boot` of a
`PATCH`: the overrides are collected, and an order is given to the store or is
not. What it reads of the body is its `BootWrite`.

Main result:
* `exec_bootOverrides`: the loop is what it reads, its orders kept first.
-/

namespace RedfishProxy.Shipped

open Lib Http Script RuneHost ScriptUtil

/-- The members a `PATCH` relays. -/
def isOverride (name : Text) : Bool :=
  name == "BootSourceOverrideEnabled".toList || name == "BootSourceOverrideTarget".toList ||
    name == "BootSourceOverrideMode".toList

def isOrder (name : Text) : Bool := name == "BootOrder".toList

section Loop

variable {ν σ : Type} (host : Rune ν σ)

/-- What a `for` goes through: the items, or the entries as pairs. -/
def entriesOf (value : Json ν) : Option (List (Json ν)) :=
  match value with
  | .array items => some items
  | .object fields => some ((host.order fields).map fun field =>
      .array [.string field.1, field.2])
  | .null => if host.unitLoops then some [] else none
  | _ => none

/-- `entry.0` and `entry.1`, which a pair or a vector has. -/
def entryAt (entry : Json ν) (index : Nat) : Option (Json ν) :=
  match entry with
  | .array items => items[index]?
  | _ => none

/-- The name and the value of an entry, unless the value is null. The name is
compared with texts, which only a text can be. -/
def readEntry (entry : Json ν) : Option (Option (Text × Json ν)) :=
  match entryAt entry 1 with
  | none => none
  | some .null => some none
  | some value => ((entryAt entry 0).bind Json.asStr).map fun name => some (name, value)

/-- What the loop has collected. -/
structure Taken (ν : Type) where
  boot : Json.Fields ν
  count : Nat

def Taken.nothing : Taken ν where
  boot := []
  count := 0

/-- `boot[entry.0] = value; count += 1`. -/
def Taken.add (taken : Taken ν) (member : Text × Json ν) : Taken ν :=
  if isOverride member.1 then {
    boot := Json.Fields.insert member.1 member.2 taken.boot
    count := taken.count + 1 }
  else taken

/-- One turn of the loop. -/
def takeEntry (keep : Json ν → Script ν σ Unit) (taken : Taken ν) (entry : Json ν) :
    Script ν σ (Taken ν) := do
  match ← orStop (readEntry entry) with
  | none => return taken
  | some member =>
    let taken := taken.add member
    if isOrder member.1 then keep member.2
    return taken

/-- The loop, over what the body has at `Boot`. -/
def bootOverrides (keep : Json ν → Script ν σ Unit) (req : ScriptRequest) :
    Script ν σ (Taken ν) :=
  if req.isJson then do
    let body ← requestJson host req
    match valueAt body "Boot".toList with
    | some fields => do
      let entries ← orStop (entriesOf host fields)
      entries.foldlM (takeEntry keep) .nothing
    | none => return .nothing
  else return .nothing

/-! ## What is read -/

/-- The members up to the end of the loop, and how it ends. -/
structure BootWrite (ν : Type) where
  members : List (Text × Json ν)
  ended : Except Stop Unit

/-- The members of the entries, up to one that stops the machine. -/
def readEntries : List (Json ν) → BootWrite ν
  | [] => ⟨[], .ok ()⟩
  | entry :: entries =>
    match readEntry entry with
    | none => ⟨[], .error .vm⟩
    | some none => readEntries entries
    | some (some member) => { readEntries entries with
        members := member :: (readEntries entries).members }

def bootWrite (req : ScriptRequest) : BootWrite ν :=
  if req.isJson then
    match bodyJson host.toHost req.body "request".toList with
    | .error fault => ⟨[], .error (.error fault)⟩
    | .ok body =>
      match valueAt body "Boot".toList with
      | none => ⟨[], .ok ()⟩
      | some fields =>
        match entriesOf host fields with
        | none => ⟨[], .error .vm⟩
        | some entries => readEntries entries
  else ⟨[], .ok ()⟩

namespace BootWrite

/-- The orders, one after the other. -/
def orders (write : BootWrite ν) : List (Json ν) :=
  write.members.filterMap fun member => if isOrder member.1 then some member.2 else none

def taken (write : BootWrite ν) : Taken ν := write.members.foldl Taken.add .nothing

/-- The orders are kept, and then the loop ends as it does. -/
def follow (keep : Json ν → Script ν σ Unit) (write : BootWrite ν) : Script ν σ (Taken ν) := do
  write.orders.forM keep
  match write.ended with
  | .ok () => return write.taken
  | .error stop => throw stop

end BootWrite

variable {host} {keep : Json ν → Script ν σ Unit}

theorem exec_takeEntry_member {entry : Json ν} {member : Text × Json ν}
    (h : readEntry entry = some (some member)) (taken : Taken ν) (machine : Machine ν σ) :
    exec (takeEntry keep taken entry) machine =
      exec ((if isOrder member.1 then keep member.2 else pure ()) >>= fun _ =>
        pure (taken.add member)) machine := by
  unfold takeEntry
  rw [exec_bind, h, exec_orStop_some, thenExec_ok]
  simp only
  split <;> rfl

theorem exec_foldlM_takeEntry (entries : List (Json ν)) (taken : Taken ν) (machine : Machine ν σ) :
    exec (entries.foldlM (takeEntry keep) taken) machine =
      exec ((readEntries entries).orders.forM keep >>= fun _ => match (readEntries entries).ended with
        | .ok () => pure ((readEntries entries).members.foldl Taken.add taken)
        | .error stop => throw stop) machine := by
  induction entries generalizing taken machine with
  | nil => rfl
  | cons entry entries ih =>
      rw [List.foldlM_cons, exec_bind]
      unfold readEntries
      cases hentry : readEntry entry with
      | none =>
          unfold takeEntry
          rw [exec_bind, hentry]
          rfl
      | some read =>
          cases read with
          | none =>
              have htake : exec (takeEntry keep taken entry) machine = (.ok taken, machine) := by
                unfold takeEntry
                rw [exec_bind, hentry]
                rfl
              rw [htake, thenExec_ok]
              exact ih taken machine
          | some member =>
              rw [exec_takeEntry_member hentry, exec_bind]
              unfold BootWrite.orders
              simp only [List.filterMap_cons, List.foldl_cons]
              -- an order goes first, and what is collected does not depend on it
              cases isOrder member.1 with
              | false =>
                  simp only [Bool.false_eq_true, if_false, exec_pure, thenExec_ok]
                  exact ih (taken.add member) machine
              | true =>
                  have hcons : ∀ (value : Json ν) (values : List (Json ν)),
                      (value :: values).forM keep = keep value >>= fun _ => values.forM keep :=
                    fun _ _ => rfl
                  simp only [if_true, hcons]
                  rw [exec_bind, exec_bind]
                  cases exec (keep member.2) machine with
                  | mk result machine =>
                      cases result with
                      | error stop => rfl
                      | ok value =>
                          simp only [thenExec_ok, exec_pure, ih]
                          rw [exec_bind]
                          rfl

/-- **The loop is what it reads**, its orders kept first. -/
theorem exec_bootOverrides (req : ScriptRequest) (machine : Machine ν σ) :
    exec (bootOverrides host keep req) machine =
      exec ((bootWrite host req).follow keep) machine := by
  unfold bootOverrides bootWrite requestJson
  cases req.isJson with
  | false => rfl
  | true =>
      simp only [if_true]
      cases bodyJson host.toHost req.body "request".toList with
      | error fault => rfl
      | ok body =>
          rw [exec_bind, exec_tryResult_ok, thenExec_ok]
          simp only
          cases valueAt body "Boot".toList with
          | none => rfl
          | some fields =>
              simp only
              cases entriesOf host fields with
              | none => rfl
              | some entries =>
                  rw [exec_bind, exec_orStop_some, thenExec_ok]
                  exact exec_foldlM_takeEntry entries .nothing machine

end Loop
end RedfishProxy.Shipped
