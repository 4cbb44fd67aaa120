import Mathlib.Data.Char
import Mathlib.Data.List.Lex
import RedfishProxy.Config.Routes
import RedfishProxy.Lib.WebUrl

/-!
# What a configuration must hold

`Config::parse` and `Config::validate`, with the fields that `validate` reads.
TOML and serde are the parameter `fromToml`, and a `url::Url` is what the parser
of `Lib.WebUrl` makes.

Main results:
* `mem_pathCounts`: the map of seen paths has each with how often it is declared.
* `validate_ok_iff`: what an accepted configuration holds.
-/

namespace RedfishProxy

open Lib

namespace Config

structure TlsConfig where
  certPath : Option Text
  keyPath : Option Text
  deriving DecidableEq

structure RewriteConfig (hosts : WebUrl.HostParser) where
  externalBaseUrl : WebUrl.Parsed hosts

/-- `ε` is the TOML crate's own error. -/
inductive ConfigError (ε : Type) where
  | parse (source : ε)
  | invalid (message : Text)

/-! ## Duplicate paths -/

/-- `*seen.entry(path).or_default() += 1`, with the keys in order. -/
def countPath (path : Text) : List (Text × Nat) → List (Text × Nat)
  | [] => [(path, 1)]
  | (key, n) :: seen =>
    if path = key then (key, n + 1) :: seen
    else if path < key then (path, 1) :: (key, n) :: seen
    else (key, n) :: countPath path seen

def pathCounts (paths : List Text) : List (Text × Nat) :=
  paths.foldl (fun seen path => countPath path seen) []

def Ordered (seen : List (Text × Nat)) : Prop := seen.Pairwise fun a b => a.1 < b.1

theorem fst_mem_countPath {path : Text} {seen : List (Text × Nat)} {entry : Text × Nat}
    (h : entry ∈ countPath path seen) : entry.1 = path ∨ entry.1 ∈ seen.map Prod.fst := by
  induction seen with
  | nil =>
      obtain rfl := List.mem_singleton.mp h
      exact .inl rfl
  | cons head seen ih =>
      obtain ⟨key, n⟩ := head
      unfold countPath at h
      rw [List.map_cons, List.mem_cons]
      split at h
      · rcases List.mem_cons.mp h with rfl | h
        · exact .inr (.inl rfl)
        · exact .inr (.inr (List.mem_map_of_mem h))
      · split at h
        · rcases List.mem_cons.mp h with rfl | h
          · exact .inl rfl
          · exact .inr (List.mem_cons.mp (List.mem_map_of_mem h))
        · rcases List.mem_cons.mp h with rfl | h
          · exact .inr (.inl rfl)
          · exact (ih h).imp_right .inr

theorem Ordered.countPath {seen : List (Text × Nat)} (h : Ordered seen) (path : Text) :
    Ordered (countPath path seen) := by
  induction seen with
  | nil => exact List.pairwise_singleton ..
  | cons head seen ih =>
      obtain ⟨key, n⟩ := head
      obtain ⟨hkey, hseen⟩ := List.pairwise_cons.mp h
      unfold Config.countPath
      split
      · exact List.pairwise_cons.mpr ⟨hkey, hseen⟩
      · rename_i hne
        split
        · rename_i hlt
          refine List.pairwise_cons.mpr ⟨?_, h⟩
          intro entry hentry
          rcases List.mem_cons.mp hentry with rfl | hentry
          · exact hlt
          · exact lt_trans hlt (hkey entry hentry)
        · rename_i hnot
          have hgt : key < path := lt_of_le_of_ne (not_lt.mp hnot) (Ne.symm hne)
          refine List.pairwise_cons.mpr ⟨?_, ih hseen⟩
          intro entry hentry
          rcases fst_mem_countPath hentry with heq | hmem
          · rw [heq]
            exact hgt
          · obtain ⟨other, hother, heq⟩ := List.mem_map.mp hmem
            rw [← heq]
            exact hkey other hother

/-- The map holds every path that was declared, with how often. -/
def Counts (paths : List Text) (seen : List (Text × Nat)) : Prop :=
  ∀ path n, (path, n) ∈ seen ↔ n = paths.count path ∧ 0 < n

/-- One more declaration of a path that the map has, or has not. -/
theorem mem_countPath {path : Text} {seen : List (Text × Nat)} (h : Ordered seen) (key : Text)
    (n : Nat) : (key, n) ∈ countPath path seen ↔
      if key = path then (∃ m, (key, m) ∈ seen ∧ n = m + 1) ∨ (n = 1 ∧ ∀ m, (key, m) ∉ seen)
      else (key, n) ∈ seen := by
  induction seen with
  | nil =>
      unfold countPath
      by_cases hkey : key = path <;> simp [hkey]
  | cons head seen ih =>
      obtain ⟨first, count⟩ := head
      obtain ⟨hfirst, hseen⟩ := List.pairwise_cons.mp h
      -- behind its own entry no path comes again
      have habove : ∀ m, ∀ above : Text, above ≤ first → (above, m) ∉ seen :=
        fun m above hle hmem => absurd (hfirst _ hmem) (not_lt.mpr hle)
      unfold countPath
      split
      · rename_i heq
        subst heq
        by_cases hkey : key = path
        · subst hkey
          rw [if_pos rfl]
          have hnot := fun m => habove m key (le_refl _)
          simp [hnot]
        · simp [hkey]
      · rename_i hne
        split
        · rename_i hlt
          by_cases hkey : key = path
          · subst hkey
            have hnot := fun m => habove m key hlt.le
            simp [hnot, hne]
          · simp [hkey]
        · by_cases hkey : key = path
          · subst hkey
            simp only [List.mem_cons, Prod.mk.injEq, hne, false_and, false_or, ih hseen, if_pos]
          · simp only [List.mem_cons, ih hseen, if_neg hkey]

theorem Counts.countPath {paths : List Text} {seen : List (Text × Nat)} (h : Counts paths seen)
    (hordered : Ordered seen) (path : Text) : Counts (paths ++ [path]) (countPath path seen) := by
  intro key n
  have hseen : ∀ m, (key, m) ∈ seen ↔ m = paths.count key ∧ 0 < m := h key
  rw [mem_countPath hordered, List.count_append]
  by_cases hkey : key = path
  · subst hkey
    rw [if_pos rfl, List.count_singleton_self]
    constructor
    · rintro (⟨m, hm, rfl⟩ | ⟨rfl, hnone⟩)
      · obtain ⟨rfl, hpos⟩ := (hseen m).mp hm
        omega
      · have hzero : ¬ 0 < paths.count key :=
          fun hpos => hnone _ ((hseen _).mpr ⟨rfl, hpos⟩)
        omega
    · rintro ⟨rfl, _⟩
      by_cases hpos : 0 < paths.count key
      · exact .inl ⟨_, (hseen _).mpr ⟨rfl, hpos⟩, rfl⟩
      · refine .inr ⟨by omega, ?_⟩
        intro m hmem
        obtain ⟨rfl, hm⟩ := (hseen m).mp hmem
        exact hpos hm
  · have hzero : [path].count key = 0 := by simp [Ne.symm hkey]
    rw [if_neg hkey, hseen, hzero, Nat.add_zero]

theorem pathCounts_spec (paths : List Text) :
    Ordered (pathCounts paths) ∧ Counts paths (pathCounts paths) := by
  suffices hall : ∀ (done : List Text) (seen : List (Text × Nat)), Ordered seen →
      Counts done seen → Ordered (paths.foldl (fun seen path => countPath path seen) seen) ∧
        Counts (done ++ paths) (paths.foldl (fun seen path => countPath path seen) seen) by
    refine hall [] [] List.Pairwise.nil ?_
    intro path n
    simp
  induction paths with
  | nil =>
      intro done seen hordered hcounts
      rw [List.append_nil]
      exact ⟨hordered, hcounts⟩
  | cons path paths ih =>
      intro done seen hordered hcounts
      have hnext := ih (done ++ [path]) _ (hordered.countPath path)
        (hcounts.countPath hordered path)
      rwa [List.append_assoc] at hnext

/-- **The map of seen paths** has each with how often it is declared. -/
theorem mem_pathCounts (paths : List Text) (path : Text) (n : Nat) :
    (path, n) ∈ pathCounts paths ↔ n = paths.count path ∧ 0 < n :=
  (pathCounts_spec paths).2 path n

/-- The first path in key order that is declared more than once. -/
def duplicate (paths : List Text) : Option Text :=
  ((pathCounts paths).find? fun entry => 1 < entry.2).map Prod.fst

theorem duplicate_eq_none_iff (paths : List Text) : duplicate paths = none ↔ paths.Nodup := by
  unfold duplicate
  rw [Option.map_eq_none_iff, List.find?_eq_none, List.nodup_iff_count_le_one]
  constructor
  · intro h path
    by_cases hpos : 0 < paths.count path
    · have hentry := h _ ((mem_pathCounts paths path _).mpr ⟨rfl, hpos⟩)
      simpa using hentry
    · omega
  · rintro h ⟨path, n⟩ hentry
    obtain ⟨rfl, _⟩ := (mem_pathCounts paths path n).mp hentry
    simpa using h path

end Config

/-! ## The configuration -/

structure Config (hosts : WebUrl.HostParser) where
  tls : Config.TlsConfig
  rewrite : Config.RewriteConfig hosts
  route : List Config.RouteConfig

namespace Config

variable {hosts : WebUrl.HostParser} {ε : Type} (unprintable : Char → Bool)

/-- Fails closed, rejecting at startup rather than at the first request. -/
def validate (config : Config hosts) : Except (ConfigError ε) Unit :=
  match duplicate (config.route.map RouteConfig.path) with
  | some path => .error (.invalid ("duplicate route path ".toList ++ path.debug unprintable ++
      "; route precedence would be ambiguous".toList))
  | none =>
    let base := config.rewrite.externalBaseUrl.url.path.text
    if base ≠ [] ∧ base ≠ ['/'] then
      .error (.invalid ("rewrite.external_base_url has path ".toList ++ base.debug unprintable ++
        "; it must name a scheme, host and port only, since no path prefix is ".toList ++
        "stripped on the way in".toList))
    else
      match config.tls.certPath, config.tls.keyPath with
      | some _, none => .error (.invalid (
        "tls.cert_path is set but tls.key_path is not; set both to serve ".toList ++
        "your own material, or neither to generate one at startup".toList))
      | none, some _ => .error (.invalid (
        "tls.key_path is set but tls.cert_path is not; set both to serve ".toList ++
        "your own material, or neither to generate one at startup".toList))
      | _, _ => .ok ()

def parse (fromToml : Text → Except ε (Config hosts)) (text : Text) :
    Except (ConfigError ε) (Config hosts) :=
  match fromToml text with
  | .error source => .error (.parse source)
  | .ok config => do
    config.validate unprintable
    return config

/-- **What an accepted configuration holds**: no path twice, a base without a
path, and both halves of the TLS pair or neither. -/
theorem validate_ok_iff (config : Config hosts) :
    config.validate unprintable = (.ok () : Except (ConfigError ε) Unit) ↔
      (config.route.map RouteConfig.path).Nodup ∧
        (config.rewrite.externalBaseUrl.url.path.text = [] ∨
          config.rewrite.externalBaseUrl.url.path.text = ['/']) ∧
        (config.tls.certPath.isSome ↔ config.tls.keyPath.isSome) := by
  rw [← duplicate_eq_none_iff]
  unfold validate
  cases hduplicate : duplicate (config.route.map RouteConfig.path) with
  | some path => simp
  | none =>
      dsimp only
      by_cases hbase : config.rewrite.externalBaseUrl.url.path.text ≠ [] ∧
          config.rewrite.externalBaseUrl.url.path.text ≠ ['/']
      · simp [hbase]
      · have hpath : config.rewrite.externalBaseUrl.url.path.text = [] ∨
            config.rewrite.externalBaseUrl.url.path.text = ['/'] := by
          by_contra hnot
          exact hbase (not_or.mp hnot)
        rw [if_neg hbase]
        cases config.tls.certPath <;> cases config.tls.keyPath <;> simp [hpath]

theorem parse_eq_ok_iff (fromToml : Text → Except ε (Config hosts)) (text : Text)
    (config : Config hosts) : parse unprintable fromToml text = .ok config ↔
      fromToml text = .ok config ∧
        config.validate unprintable = (.ok () : Except (ConfigError ε) Unit) := by
  unfold parse
  cases fromToml text with
  | error source => simp
  | ok found =>
      dsimp only
      cases hvalid : (found.validate unprintable : Except (ConfigError ε) Unit) with
      | error refusal =>
          rw [Except.ok.injEq]
          constructor
          · intro h
            cases h
          · rintro ⟨rfl, h⟩
            rw [hvalid] at h
            cases h
      | ok =>
          rw [Except.ok.injEq]
          constructor
          · intro h
            obtain rfl : found = config := Except.ok.inj h
            exact ⟨rfl, hvalid⟩
          · rintro ⟨rfl, _⟩
            rfl

end Config

end RedfishProxy
