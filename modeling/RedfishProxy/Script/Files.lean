import RedfishProxy.Lib.FileTree
import RedfishProxy.Lib.JsonText
import RedfishProxy.Lib.Run
import RedfishProxy.RuneHost.Scripts
import RedfishProxy.Script.Calls
import RedfishProxy.Script.Patch

/-!
# Documents beside the scripts

`read_script_json`, the one place a script reaches the file system, and the two
calls that read through it. The name is resolved first, links and dots and all,
and only what is found beneath the script directory is read.

Main results:
* `readScriptJson_iff_beneath`: the documents a script can read, whatever name it gives.
* `readScriptJson_beneath`: a file beneath the directory is read by its path in it.
-/

namespace RedfishProxy.Script

open Lib Http RuneHost ScriptUtil

/-- The file system as a request finds it. -/
structure Disk where
  tree : FileTree Text (Except Text Text)
  /-- The directory the proxy runs in. -/
  cwd : List Text
  notFound : Text
  realCwd : tree.RealDir cwd

/-- How many links the system follows on one path. -/
def maxLinks : Nat := 40

/-- A path from the root, as it is displayed. -/
def pathText (place : List Text) : Text := '/' :: ['/'].intercalate place

/-- `Path::join`. -/
def joinPath (path name : Text) : Text :=
  if FileTree.isAbsolute name then name
  else if path.getLast? = some '/' then path ++ name
  else path ++ '/' :: name

/-- `path.extension()` is `json`, in any case. -/
def isJsonName (name : Text) : Bool :=
  (extension name).any fun ext => ext.eqIgnoreAsciiCase "json".toList

namespace Disk

/-- `Path::canonicalize`. -/
def canonicalize (disk : Disk) (path : Text) : Except Text (List Text) :=
  if path.isEmpty then .error disk.notFound
  else disk.tree.resolve maxLinks (if FileTree.isAbsolute path then [] else disk.cwd)
    (path.splitOn '/')

/-- `std::fs::read_to_string`. -/
def readToString (disk : Disk) (path : List Text) : Except Text Text :=
  disk.tree.read maxLinks path >>= id

end Disk

section Read

variable {ν V σ : Type} (host : Host ν V σ) (disk : Disk) (scriptDir : Text)

def readScriptJson (name : Text) : Except Fault (Json ν) := do
  let root ← (disk.canonicalize scriptDir).mapError fun error =>
    [.lit "resolving rune.script_dir ".toList, .display scriptDir, .lit ": ".toList,
      .display error]
  -- A `..`, an absolute name and a link that points out of the directory all
  -- show in the resolved path.
  let path ← (disk.canonicalize (joinPath (pathText root) name)).mapError fun error =>
    [.lit "resolving ".toList, .debug name, .lit " under ".toList, .display (pathText root),
      .lit ": ".toList, .display error]
  if !root.isPrefixOf path then
    throw [.debug name, .lit " resolves to ".toList, .display (pathText path),
      .lit ", outside rune.script_dir ".toList, .display (pathText root)]
  else if !path.getLast?.any isJsonName then
    throw [.debug name, .lit " is not a .json file".toList]
  else
    let text ← (disk.readToString path).mapError fun error =>
      [.lit "reading ".toList, .display (pathText path), .lit ": ".toList, .display error]
    (host.fromSlice (Json.utf8Encode text)).mapError fun error =>
      [.debug name, .lit " is not valid JSON: ".toList, .complaint error]

/-- `util::read_json_file`. -/
def readJsonFile (name : Text) : Except Fault V := do
  toScriptValue host (← readScriptJson host disk scriptDir name)

/-- `util::json_patch_file`, on a value serde can write. -/
def jsonPatchFile [BEq ν] (target : Json ν) (name : Text) : Except Fault V := do
  let ops ← readScriptJson host disk scriptDir name
  let patched ← (applyPatch host.unprintable target ops).mapError fun error =>
    [.lit "util::json_patch_file ".toList, .display error]
  toScriptValue host patched

end Read

/-! ## Names and paths -/

theorem splitOn_pathText {place : List Text} (h : ∀ name ∈ place, IsName name)
    (hne : place ≠ []) : (pathText place).splitOn '/' = [] :: place := by
  have hfront : pathText place = [] ++ '/' :: ['/'].intercalate place := rfl
  rw [hfront, List.splitOn_append_cons_self_of_not_mem (by simp),
    List.splitOn_intercalate '/' (fun name hname => (h name hname).noSlash) hne]

section Disk

variable {disk : Disk} {place below : List Text} {name : Text} {text : Except Text Text}

theorem isName_of_realDir (h : disk.tree.RealDir place) : ∀ name ∈ place, IsName name := by
  induction h with
  | root => simp
  | child h hentry ih =>
      intro name hname
      rcases List.mem_append.mp hname with hname | hname
      · exact ih name hname
      · rw [List.mem_singleton.mp hname]
        exact disk.tree.isName _ _ _ hentry

/-- The names on the way to a file are names. -/
theorem isName_of_realFile (h : disk.tree.RealFile place name text) :
    ∀ piece ∈ place ++ [name], IsName piece := by
  intro piece hpiece
  rcases List.mem_append.mp hpiece with hpiece | hpiece
  · exact isName_of_realDir h.inside piece hpiece
  · rw [List.mem_singleton.mp hpiece]
    exact disk.tree.isName _ _ _ h.entry

/-- What a path is canonicalized to is real. -/
theorem real_of_canonicalize {path : Text} (h : disk.canonicalize path = .ok place) :
    disk.tree.Real place := by
  unfold Disk.canonicalize at h
  split at h
  · cases h
  · refine FileTree.real_of_resolve ?_ h
    split
    · exact .root
    · exact disk.realCwd

theorem canonicalize_pathText (h : disk.tree.RealFile place name text) :
    disk.canonicalize (pathText (place ++ [name])) = .ok (place ++ [name]) := by
  have hsplit := splitOn_pathText (isName_of_realFile h) (by simp)
  show disk.tree.resolve maxLinks [] ((pathText (place ++ [name])).splitOn '/') = _
  rw [hsplit]
  apply FileTree.resolve_of_walk
  rw [FileTree.walk_nil_cons]
  have hstands : disk.tree.RealFile ([] ++ place) name text := h
  exact FileTree.walk_of_realFile hstands

/-- A real path is read as the file that stands there. -/
theorem readToString_ok_iff {path : List Text} (h : disk.tree.Real path) {text : Text} :
    disk.readToString path = .ok text ↔
      ∃ place name, path = place ++ [name] ∧ disk.tree.RealFile place name (.ok text) := by
  unfold Disk.readToString
  rw [← FileTree.read_of_real h maxLinks]
  cases disk.tree.read maxLinks path with
  | error error => exact iff_of_false (fun h => nomatch h) (fun h => nomatch h)
  | ok contents =>
      constructor
      · intro h
        exact congrArg Except.ok h
      · intro h
        exact Except.ok.inj h

end Disk

/-! ## What a script can read -/

section Readable

variable {ν V σ : Type} {host : Host ν V σ} {disk : Disk} {scriptDir : Text}

/-- A `.json` file beneath the root, whose text is this document. -/
structure Beneath (host : Host ν V σ) (disk : Disk) (root place : List Text) (name : Text)
    (value : Json ν) : Prop where
  beneath : root <+: place ++ [name]
  isJson : isJsonName name = true
  stands : ∃ text, disk.tree.RealFile place name (.ok text) ∧
    host.fromSlice (Json.utf8Encode text) = .ok value

/-- What is read was found beneath the root. -/
theorem beneath_of_readScriptJson {name : Text} {value : Json ν}
    (h : readScriptJson host disk scriptDir name = .ok value) :
    ∃ root, disk.canonicalize scriptDir = .ok root ∧
      ∃ place file, Beneath host disk root place file value := by
  unfold readScriptJson at h
  obtain ⟨root, hroot, h⟩ := bind_ok h
  obtain ⟨path, hpath, h⟩ := bind_ok h
  refine ⟨root, mapError_ok hroot, ?_⟩
  have hreal := real_of_canonicalize (mapError_ok hpath)
  split at h
  · cases h
  · rename_i hbeneath
    split at h
    · cases h
    · rename_i hjson
      obtain ⟨text, htext, hvalue⟩ := bind_ok h
      obtain ⟨place, file, rfl, hfile⟩ := (readToString_ok_iff hreal).mp (mapError_ok htext)
      refine ⟨place, file, ?_, ?_, text, hfile, mapError_ok hvalue⟩
      · simpa using hbeneath
      · simpa using hjson

/-- A name that leads to a file beneath the root reads it. -/
theorem readScriptJson_of_beneath {root place : List Text} {name file : Text} {value : Json ν}
    (hroot : disk.canonicalize scriptDir = .ok root)
    (hname : joinPath (pathText root) name = pathText (place ++ [file]))
    (h : Beneath host disk root place file value) :
    readScriptJson host disk scriptDir name = .ok value := by
  obtain ⟨text, hfile, hvalue⟩ := h.stands
  have hreads : disk.readToString (place ++ [file]) = .ok text :=
    (readToString_ok_iff (.file hfile)).mpr ⟨place, file, rfl, hfile⟩
  have hbeneath : root.isPrefixOf (place ++ [file]) = true :=
    List.isPrefixOf_iff_prefix.mpr h.beneath
  unfold readScriptJson
  rw [hroot]
  show ((disk.canonicalize (joinPath (pathText root) name)).mapError _ >>= _) = _
  rw [hname, canonicalize_pathText hfile]
  show (if _ then _ else _) = _
  rw [if_neg (by simp [hbeneath]), if_neg (by simp [h.isJson]), hreads]
  show (host.fromSlice _).mapError _ = _
  rw [hvalue]
  rfl

theorem isAbsolute_pathText (place : List Text) :
    FileTree.isAbsolute (pathText place) = true := rfl

/-- **A script reads exactly the JSON files beneath the script directory**, with
whatever name it gives and whatever links there are. -/
theorem readScriptJson_iff_beneath {value : Json ν} :
    (∃ name, readScriptJson host disk scriptDir name = .ok value) ↔
      ∃ root, disk.canonicalize scriptDir = .ok root ∧
        ∃ place file, Beneath host disk root place file value := by
  constructor
  · intro ⟨name, h⟩
    exact beneath_of_readScriptJson h
  · intro ⟨root, hroot, place, file, h⟩
    -- its own path from the root names it
    exact ⟨pathText (place ++ [file]), readScriptJson_of_beneath hroot
      (if_pos (isAbsolute_pathText _)) h⟩

/-! ## By its path in the directory -/

theorem intercalate_append {front back : List Text} (hfront : front ≠ []) (hback : back ≠ []) :
    ['/'].intercalate front ++ '/' :: ['/'].intercalate back =
      ['/'].intercalate (front ++ back) := by
  induction front with
  | nil => exact absurd rfl hfront
  | cons piece front ih =>
      cases front with
      | nil =>
          rw [List.intercalate_singleton, List.singleton_append,
            List.intercalate_cons_of_ne_nil hback, List.append_assoc, List.singleton_append]
      | cons next front =>
          have hrest := ih (by simp)
          rw [List.intercalate_cons_cons, List.append_assoc, hrest]
          exact List.intercalate_cons_cons.symm

/-- A path that ends in a slash has nothing behind it. -/
theorem getLast_pathText {place : List Text} (h : ∀ name ∈ place, IsName name) (hne : place ≠ []) :
    (pathText place).getLast? ≠ some '/' := by
  intro hlast
  obtain ⟨front, hfront⟩ := List.getLast?_eq_some_iff.mp hlast
  have hsplit := splitOn_pathText h hne
  rw [hfront, List.splitOn_append_cons_self] at hsplit
  have hmem : [] ∈ place := by
    have hend := congrArg List.getLast? hsplit
    rw [List.splitOn_nil, List.getLast?_concat, List.getLast?_cons_of_ne_nil hne] at hend
    exact List.mem_of_getLast? hend.symm
  exact (h [] hmem).notEmpty rfl

theorem isAbsolute_intercalate {first : Text} (h : IsName first) (rest : List Text) :
    FileTree.isAbsolute (['/'].intercalate (first :: rest)) = false := by
  cases first with
  | nil => exact absurd rfl h.notEmpty
  | cons c first =>
      rw [List.intercalate_cons_cons_left]
      have hc : c ≠ '/' := fun hc => h.noSlash (by simp [hc])
      simpa [FileTree.isAbsolute] using hc

/-- A relative path is joined to the directory. -/
theorem joinPath_pathText {root below : List Text} (hroot : ∀ name ∈ root, IsName name)
    (hbelow : ∀ name ∈ below, IsName name) (hne : below ≠ []) :
    joinPath (pathText root) (['/'].intercalate below) = pathText (root ++ below) := by
  obtain ⟨first, rest, rfl⟩ := List.exists_cons_of_ne_nil hne
  have hrelative := isAbsolute_intercalate (hbelow first (by simp)) rest
  unfold joinPath
  rw [if_neg (by simp [hrelative])]
  cases root with
  | nil => rfl
  | cons name root =>
      rw [if_neg (getLast_pathText hroot (by simp))]
      exact congrArg (List.cons '/') (intercalate_append (by simp) hne)

/-- **A file beneath the directory is read by its path in it.** -/
theorem readScriptJson_beneath {root below : List Text} {file : Text} {value : Json ν}
    (hroot : disk.canonicalize scriptDir = .ok root)
    (h : Beneath host disk root (root ++ below) file value) :
    readScriptJson host disk scriptDir (['/'].intercalate (below ++ [file])) = .ok value := by
  obtain ⟨text, hfile, _⟩ := h.stands
  have hnames := isName_of_realFile hfile
  rw [List.append_assoc] at hnames
  refine readScriptJson_of_beneath hroot ?_ h
  rw [List.append_assoc]
  refine joinPath_pathText ?_ ?_ (by simp)
  · intro name hname
    exact hnames name (List.mem_append_left _ hname)
  · intro name hname
    exact hnames name (List.mem_append_right _ hname)

end Readable
end RedfishProxy.Script
