import Mathlib.Data.List.Induction
import RedfishProxy.Lib.Text

/-!
# A tree of files

What stands where in a file system, and how a path is resolved in it: name by
name, up at two dots, on from where a symbolic link points. A path that came out
of that is real: directories all the way, and no link or dots on it.

Main results:
* `real_of_resolve`: what a path resolves to is real.
* `resolve_of_real`: a real path resolves to itself.
-/

namespace Lib

/-- What stands at a path. -/
inductive FileEntry (τ : Type) where
  | dir
  | file (contents : τ)
  | link (target : Text)

/-- A name an entry can have. -/
structure IsName (name : Text) : Prop where
  notEmpty : name ≠ []
  notDot : name ≠ ['.']
  notDots : name ≠ ['.', '.']
  noSlash : '/' ∉ name

/-- A file system, with what it says where a path leads nowhere. -/
structure FileTree (ε τ : Type) where
  /-- What stands at a path whose parents are directories. -/
  entry : List Text → Except ε (FileEntry τ)
  notDirectory : ε
  isDirectory : ε
  tooManyLinks : ε
  root : entry [] = .ok .dir
  isName : ∀ place name found, entry (place ++ [name]) = .ok found → IsName name

namespace FileTree

variable {ε τ : Type}

def isAbsolute (path : Text) : Bool := path.head? == some '/'

/-- Where a walk along names comes to. -/
inductive Walked (ε : Type) where
  | ended (place : List Text)
  | failed (error : ε)
  | linked (place : List Text) (target : Text) (rest : List Text)

/-- The result, where `next` says how to go on from a link. -/
def Walked.finish (next : List Text → Text → List Text → Except ε (List Text)) :
    Walked ε → Except ε (List Text)
  | ended place => .ok place
  | failed error => .error error
  | linked place target rest => next place target rest

section Walk

variable (tree : FileTree ε τ)

/-- From a directory along names, up to the first link. -/
def walk : List Text → List Text → Walked ε
  | place, [] => .ended place
  | place, name :: rest =>
    if name = [] ∨ name = ['.'] then walk place rest
    else if name = ['.', '.'] then walk place.dropLast rest
    else
      match tree.entry (place ++ [name]) with
      | .error error => .failed error
      | .ok .dir => walk (place ++ [name]) rest
      | .ok (.file _) =>
        if rest.isEmpty then .ended (place ++ [name]) else .failed tree.notDirectory
      | .ok (.link target) => .linked place target rest

/-- The names of a link take its place. -/
def resolve : Nat → List Text → List Text → Except ε (List Text)
  | 0, place, names => (tree.walk place names).finish fun _ _ _ => .error tree.tooManyLinks
  | links + 1, place, names => (tree.walk place names).finish fun place target rest =>
    resolve links (if isAbsolute target then [] else place) (target.splitOn '/' ++ rest)

/-- What is read at a path. -/
def read (links : Nat) (path : List Text) : Except ε τ := do
  let place ← tree.resolve links [] path
  match ← tree.entry place with
  | .file contents => return contents
  | _ => throw tree.isDirectory

end Walk

/-! ## Real paths -/

section Real

variable (tree : FileTree ε τ)

/-- Directories all the way from the root. -/
inductive RealDir : List Text → Prop where
  | root : RealDir []
  | child {place : List Text} {name : Text} (h : RealDir place)
      (hentry : tree.entry (place ++ [name]) = .ok .dir) : RealDir (place ++ [name])

/-- A file in a real directory. -/
structure RealFile (place : List Text) (name : Text) (contents : τ) : Prop where
  inside : tree.RealDir place
  entry : tree.entry (place ++ [name]) = .ok (.file contents)

inductive Real : List Text → Prop where
  | dir {path : List Text} (h : tree.RealDir path) : Real path
  | file {place : List Text} {name : Text} {contents : τ} (h : tree.RealFile place name contents) :
      Real (place ++ [name])

end Real

variable {tree : FileTree ε τ}

theorem realDir_concat_iff {place : List Text} {name : Text} : tree.RealDir (place ++ [name]) ↔
    tree.RealDir place ∧ tree.entry (place ++ [name]) = .ok .dir := by
  constructor
  · intro h
    generalize hpath : place ++ [name] = path at h
    cases h with
    | root => simp at hpath
    | child h hentry =>
        obtain ⟨rfl, hsame⟩ := List.append_inj' hpath rfl
        obtain rfl := List.singleton_inj.mp hsame
        exact ⟨h, hentry⟩
  · intro ⟨h, hentry⟩
    exact h.child hentry

theorem RealDir.of_append {place more : List Text} (h : tree.RealDir (place ++ more)) :
    tree.RealDir place := by
  induction more using List.reverseRecOn with
  | nil => rwa [List.append_nil] at h
  | append_singleton more name ih =>
      rw [← List.append_assoc, realDir_concat_iff] at h
      exact ih h.1

theorem RealDir.dropLast {place : List Text} (h : tree.RealDir place) :
    tree.RealDir place.dropLast := by
  cases h with
  | root => exact .root
  | child h _ => rwa [List.dropLast_concat]

/-! ## What a path resolves to -/

/-- What a walk from a real directory comes to is real, or to a link in one. -/
def Walked.Real (tree : FileTree ε τ) : Walked ε → Prop
  | ended path => tree.Real path
  | failed _ => True
  | linked place _ _ => tree.RealDir place

/-- **A walk stays on real paths**, up to a link. -/
theorem walk_real {place : List Text} (h : tree.RealDir place) (names : List Text) :
    (tree.walk place names).Real tree := by
  induction names generalizing place with
  | nil => exact .dir h
  | cons name rest ih =>
      unfold walk
      by_cases hdot : name = [] ∨ name = ['.']
      · rw [if_pos hdot]
        exact ih h
      · rw [if_neg hdot]
        by_cases hdots : name = ['.', '.']
        -- up from a directory is a directory, at the root too
        · rw [if_pos hdots]
          exact ih h.dropLast
        · rw [if_neg hdots]
          cases hentry : tree.entry (place ++ [name]) with
          | error error => trivial
          | ok found =>
              cases found with
              | dir => exact ih (h.child hentry)
              | file contents =>
                  simp only
                  split
                  · exact .file ⟨h, hentry⟩
                  · trivial
              | link target => exact h

/-- **What a path resolves to is real**, whatever links are on its way. -/
theorem real_of_resolve {links : Nat} {place names path : List Text} (hplace : tree.RealDir place)
    (h : tree.resolve links place names = .ok path) : tree.Real path := by
  induction links generalizing place names with
  | zero =>
      have hwalk := walk_real hplace names
      unfold resolve at h
      cases hw : tree.walk place names with
      | ended last =>
          rw [hw] at h hwalk
          obtain rfl := Except.ok.inj h
          exact hwalk
      | failed error =>
          rw [hw] at h
          cases h
      | linked last target rest =>
          rw [hw] at h
          cases h
  | succ links ih =>
      have hwalk := walk_real hplace names
      unfold resolve at h
      cases hw : tree.walk place names with
      | ended last =>
          rw [hw] at h hwalk
          obtain rfl := Except.ok.inj h
          exact hwalk
      | failed error =>
          rw [hw] at h
          cases h
      | linked last target rest =>
          rw [hw] at h hwalk
          -- a link starts over, from the root or from where it stands
          refine ih ?_ h
          split
          · exact .root
          · exact hwalk

/-! ## Real paths resolve to themselves -/

/-- The name of an entry is looked up, whatever is found. -/
theorem walk_dir {place : List Text} {name : Text}
    (hentry : tree.entry (place ++ [name]) = .ok .dir) (rest : List Text) :
    tree.walk place (name :: rest) = tree.walk (place ++ [name]) rest := by
  have hname := tree.isName place name .dir hentry
  rw [walk, if_neg (not_or.mpr ⟨hname.notEmpty, hname.notDot⟩), if_neg hname.notDots, hentry]

theorem walk_file {place : List Text} {name : Text} {contents : τ}
    (hentry : tree.entry (place ++ [name]) = .ok (.file contents)) :
    tree.walk place [name] = .ended (place ++ [name]) := by
  have hname := tree.isName place name (.file contents) hentry
  rw [walk, if_neg (not_or.mpr ⟨hname.notEmpty, hname.notDot⟩), if_neg hname.notDots, hentry]
  rfl

/-- Directories are walked through. -/
theorem walk_of_realDir {place more : List Text} (h : tree.RealDir (place ++ more))
    (rest : List Text) : tree.walk place (more ++ rest) = tree.walk (place ++ more) rest := by
  induction more generalizing place with
  | nil => rw [List.append_nil, List.nil_append]
  | cons name more ih =>
      rw [List.append_cons] at h
      have hentry := (realDir_concat_iff.mp h.of_append).2
      have hrest := ih h
      rwa [List.cons_append, walk_dir hentry, List.append_cons place name more]

theorem resolve_of_walk {links : Nat} {place names path : List Text}
    (h : tree.walk place names = .ended path) : tree.resolve links place names = .ok path := by
  cases links with
  | zero =>
      unfold resolve
      rw [h]
      rfl
  | succ links =>
      unfold resolve
      rw [h]
      rfl

/-- **A directory resolves to itself**, from any directory above it. -/
theorem resolve_of_realDir {place more : List Text} (h : tree.RealDir (place ++ more))
    (links : Nat) : tree.resolve links place more = .ok (place ++ more) := by
  have hwalk := walk_of_realDir h []
  rw [List.append_nil] at hwalk
  exact resolve_of_walk hwalk

theorem walk_of_realFile {place more : List Text} {name : Text} {contents : τ}
    (h : tree.RealFile (place ++ more) name contents) :
    tree.walk place (more ++ [name]) = .ended (place ++ (more ++ [name])) := by
  rw [walk_of_realDir h.inside, walk_file h.entry, List.append_assoc]

/-- Two slashes are one, and so is the first of an absolute path. -/
theorem walk_nil_cons (place rest : List Text) :
    tree.walk place ([] :: rest) = tree.walk place rest := by
  rw [walk, if_pos (.inl rfl)]

/-- A real path resolves to itself. -/
theorem resolve_of_real {path : List Text} (h : tree.Real path) (links : Nat) :
    tree.resolve links [] path = .ok path := by
  cases h with
  | dir h =>
      have hstands : tree.RealDir ([] ++ _) := h
      exact resolve_of_realDir hstands links
  | file h =>
      have hstands : tree.RealFile ([] ++ _) _ _ := h
      exact resolve_of_walk (walk_of_realFile hstands)

/-- What is read at a real path is the file that stands there. -/
theorem read_of_real {path : List Text} (h : tree.Real path) (links : Nat) {contents : τ} :
    tree.read links path = .ok contents ↔
      ∃ place name, path = place ++ [name] ∧ tree.RealFile place name contents := by
  unfold read
  rw [resolve_of_real h]
  constructor
  · intro hread
    change (tree.entry path >>= _) = _ at hread
    cases h with
    | dir h =>
        -- a directory has no contents
        exfalso
        cases h with
        | root =>
            rw [tree.root] at hread
            cases hread
        | child h hentry =>
            rw [hentry] at hread
            cases hread
    | file h =>
        rw [h.entry] at hread
        obtain rfl := Except.ok.inj hread
        exact ⟨_, _, rfl, h⟩
  · intro hfile
    obtain ⟨place, name, rfl, hfile⟩ := hfile
    change (tree.entry (place ++ [name]) >>= _) = _
    rw [hfile.entry]
    rfl

end FileTree
end Lib
