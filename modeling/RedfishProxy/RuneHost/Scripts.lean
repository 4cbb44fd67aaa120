import Mathlib.Data.List.AList
import RedfishProxy.Config.Routes

/-!
# Compiling the script directory

`collect_scripts` walks a directory and lists its `.rn` files; `compile` turns
each into a unit, stored under its path in the directory. The Rune compiler is
the parameter `compileOne`. What it is installed with does not depend on the
directory and is left out.

A path is compared by its components, which is how the units are keyed.
-/

namespace RedfishProxy.RuneHost

open Lib

/-! ## Paths -/

/-- The components of a path: what its `Eq` and `Hash` see. -/
def components (path : Text) : List Text :=
  let parts := path.splitOn '/'
  let relative := parts.zipIdx.filterMap fun (part, index) =>
    if part = [] then none
    else if part = ['.'] ∧ index ≠ 0 then none
    else some part
  if path.head? = some '/' then ['/'] :: relative else relative

/-- `Path::extension` of a file name. -/
def extension (name : Text) : Option Text :=
  match Text.rsplitOnce '.' name with
  | some (stem, ext) => if stem.isEmpty then none else some ext
  | none => none

def isScriptName (name : Text) : Bool := extension name == some "rn".toList

/-! ## Directories -/

mutual

/-- What `read_dir` finds at a path. -/
inductive Dir where
  | unreadable (source : Text)
  | listing (entries : Entries)

/-- The entries in the order the iterator gives them, which may fail. -/
inductive Entries where
  | nil
  | failed (source : Text)
  | dir (name : Text) (contents : Dir) (rest : Entries)
  | file (name : Text) (text : Except Text Text) (rest : Entries)

end

inductive RuneError where
  | read (path : Text) (source : Text)
  | compile (message : Text)
  deriving DecidableEq

/-- A source to compile: its key, its displayed path and its text. -/
structure ScriptSource where
  key : List Text
  name : Text
  text : Text
  deriving DecidableEq

/-- `Path::join` with a file name. -/
def join (path name : Text) : Text :=
  if path.getLast? = some '/' then path ++ name else path ++ '/' :: name

mutual

/-- Every `.rn` under a directory. `root` and `path` are the directory and the
one that is read, `key` the components between them. -/
def collectScripts (path : Text) (key : List Text) (out : List ScriptSource) :
    Dir → Except RuneError (List ScriptSource)
  | .unreadable source => .error (.read path source)
  | .listing entries => collectEntries path key out entries

/-- The `for` loop over the entries. -/
def collectEntries (path : Text) (key : List Text) (out : List ScriptSource) :
    Entries → Except RuneError (List ScriptSource)
  | .nil => .ok out
  | .failed source => .error (.read path source)
  | .dir name contents rest =>
    match collectScripts (join path name) (key ++ [name]) out contents with
    | .error error => .error error
    | .ok out => collectEntries path key out rest
  | .file name text rest =>
    if isScriptName name then
      match text with
      | .error source => .error (.read (join path name) source)
      | .ok text =>
        collectEntries path key (out ++ [{ key := key ++ [name], name := join path name, text }])
          rest
    else collectEntries path key out rest

end

/-! ## Units -/

section Compile

variable {υ : Type}

/-- Compiled scripts, one unit per file. -/
structure Scripts (υ : Type) where
  units : AList fun _ : List Text => υ

def Scripts.unitFor (scripts : Scripts υ) (script : Text) : Option υ :=
  scripts.units.lookup (components script)

/-- The `for` loop of `compile`, which stops at the first source that fails. -/
def compileInto (compileOne : Text → Text → Except Text υ)
    (units : AList fun _ : List Text => υ) : List ScriptSource → Except RuneError (Scripts υ)
  | [] => .ok ⟨units⟩
  | source :: rest =>
    match compileOne source.name source.text with
    | .error message => .error (.compile message)
    | .ok unit => compileInto compileOne (units.insert source.key unit) rest

def compile (compileOne : Text → Text → Except Text υ) (sources : List ScriptSource) :
    Except RuneError (Scripts υ) := compileInto compileOne ∅ sources

/-- Compiles every `.rn` file in `dir` into its own unit. -/
def compileDir (compileOne : Text → Text → Except Text υ) (dir : Text) (contents : Dir) :
    Except RuneError (Scripts υ) :=
  match collectScripts dir [] [] contents with
  | .error error => .error error
  | .ok sources => compile compileOne sources

/-- What `compileInto` has a unit for: what it had one for, and its sources. -/
theorem compileInto_units {compileOne : Text → Text → Except Text υ}
    {units : AList fun _ : List Text => υ} {sources : List ScriptSource} {scripts : Scripts υ}
    (h : compileInto compileOne units sources = .ok scripts) (key : List Text) :
    (scripts.units.lookup key).isSome ↔
      (units.lookup key).isSome ∨ ∃ source ∈ sources, source.key = key := by
  induction sources generalizing units with
  | nil =>
      unfold compileInto at h
      injection h with h
      subst h
      simp
  | cons source sources ih =>
      unfold compileInto at h
      cases hone : compileOne source.name source.text with
      | error message =>
          rw [hone] at h
          cases h
      | ok unit =>
          rw [hone] at h
          rw [ih h]
          by_cases hkey : key = source.key
          · subst hkey
            simp
          · rw [AList.lookup_insert_ne hkey]
            have hne : ¬ source.key = key := fun h => hkey h.symm
            simp [hne]

end Compile

/-! ## What a directory holds -/

mutual

/-- A `.rn` file stands at these components. -/
def Dir.HasScript : Dir → List Text → Prop
  | .unreadable _, _ => False
  | .listing entries, key => entries.HasScript key

def Entries.HasScript : Entries → List Text → Prop
  | .nil, _ => False
  | .failed _, _ => False
  | .dir name contents rest, key =>
    (∃ below, key = name :: below ∧ contents.HasScript below) ∨ rest.HasScript key
  | .file name _ rest, key => (key = [name] ∧ isScriptName name = true) ∨ rest.HasScript key

end

mutual

/-- The keys that are collected are the scripts of the directory. -/
theorem collectScripts_keys {path : Text} {front : List Text} {out sources : List ScriptSource}
    (contents : Dir) (h : collectScripts path front out contents = .ok sources)
    (key : List Text) : (∃ source ∈ sources, source.key = key) ↔
      (∃ source ∈ out, source.key = key) ∨
        ∃ below, key = front ++ below ∧ contents.HasScript below :=
  match contents with
  | .unreadable _ => by
      unfold collectScripts at h
      cases h
  | .listing entries => by
      unfold collectScripts at h
      unfold Dir.HasScript
      exact collectEntries_keys entries h key

theorem collectEntries_keys {path : Text} {front : List Text} {out sources : List ScriptSource}
    (entries : Entries) (h : collectEntries path front out entries = .ok sources)
    (key : List Text) : (∃ source ∈ sources, source.key = key) ↔
      (∃ source ∈ out, source.key = key) ∨
        ∃ below, key = front ++ below ∧ entries.HasScript below :=
  match entries with
  | .nil => by
      unfold collectEntries at h
      injection h with h
      subst h
      simp [Entries.HasScript]
  | .failed _ => by
      unfold collectEntries at h
      cases h
  | .dir name contents rest => by
      unfold collectEntries at h
      cases hsub : collectScripts (join path name) (front ++ [name]) out contents with
      | error e =>
          rw [hsub] at h
          cases h
      | ok out' =>
          rw [hsub] at h
          have hrest := collectEntries_keys rest h key
          have hcontents := collectScripts_keys contents hsub key
          -- a directory's scripts lie one name deeper
          have hdeeper : (∃ below, key = front ++ [name] ++ below ∧ contents.HasScript below) ↔
              ∃ below, key = front ++ below ∧ ∃ b, below = name :: b ∧ contents.HasScript b := by
            constructor
            · intro hb
              obtain ⟨below, hkey, hhas⟩ := hb
              exact ⟨name :: below, by simp [hkey], below, rfl, hhas⟩
            · intro hb
              obtain ⟨below, hkey, b, hbelow, hhas⟩ := hb
              exact ⟨b, by simp [hkey, hbelow], hhas⟩
          rw [hrest, hcontents, hdeeper, or_assoc]
          simp only [Entries.HasScript, and_or_left, exists_or]
  | .file name text rest => by
      unfold collectEntries at h
      simp only [Entries.HasScript, and_or_left, exists_or]
      by_cases hname : isScriptName name = true
      · rw [if_pos hname] at h
        cases text with
        | error e => cases h
        | ok text =>
            rw [collectEntries_keys rest h key]
            -- the source this file adds
            have hnew : (∃ source ∈ out ++ [ScriptSource.mk (front ++ [name]) (join path name) text],
                source.key = key) ↔ (∃ source ∈ out, source.key = key) ∨ front ++ [name] = key := by
              simp [or_and_right, exists_or]
            have hhere : front ++ [name] = key ↔
                ∃ below, key = front ++ below ∧ below = [name] ∧ isScriptName name = true := by
              constructor
              · intro hkey
                exact ⟨[name], hkey.symm, rfl, hname⟩
              · intro hb
                obtain ⟨below, hkey, hbelow, _⟩ := hb
                rw [hkey, hbelow]
            rw [hnew, hhere, or_assoc]
      · -- a file that is no script adds nothing
        rw [if_neg hname] at h
        rw [collectEntries_keys rest h key]
        simp [hname]

end

section Compiled

variable {υ : Type} {compileOne : Text → Text → Except Text υ} {dir : Text} {contents : Dir}

/-- **A directory that compiles has a unit for each of its scripts**, and for
nothing else. -/
theorem compileDir_unitFor {scripts : Scripts υ}
    (h : compileDir compileOne dir contents = .ok scripts) (script : Text) :
    (scripts.unitFor script).isSome ↔ contents.HasScript (components script) := by
  unfold compileDir at h
  cases hsources : collectScripts dir [] [] contents with
  | error e =>
      rw [hsources] at h
      cases h
  | ok sources =>
      rw [hsources] at h
      show (scripts.units.lookup (components script)).isSome ↔ _
      rw [compileInto_units h, collectScripts_keys contents hsources]
      simp

end Compiled

end RedfishProxy.RuneHost
