import Mathlib.Data.List.Chain
import RedfishProxy.Http.Fault

/-!
# What an error text shows of the target

An error reaches the caller as a JSON string inside a JSON string. Its parts are
kept apart by a space or a quote, so it shows the target exactly when one of its
parts does (`leaks_text_iff`): a text it quotes, or a client error that names the
URL of the request.
-/

namespace RedfishProxy.Http

open Lib

/-- A text as it stands in the body, where the failure path quotes it twice. -/
def twice (text : Text) : Text := Json.escaped (Json.escaped text)

@[simp] theorem twice_append (a b : Text) : twice (a ++ b) = twice a ++ twice b := by
  simp [twice]

theorem twice_of_plain {text : Text}
    (h : ∀ c ∈ text, c ≠ '"' ∧ c ≠ '\\' ∧ 32 ≤ c.toNat) : twice text = text := by
  rw [twice, Json.escaped_of_plain h, Json.escaped_of_plain h]

/-! ## Parts -/

namespace Part

/-- A literal without a `://`. -/
def quiet : Part → Bool
  | lit text => (text.splitOnce sep).isNone
  | _ => true

/-- The part starts with a space or a quote. -/
def opens : Part → Bool
  | lit text => text.head? == some ' '
  | debug _ => true
  | _ => false

/-- The part ends with a space or a quote. -/
def closes : Part → Bool
  | lit text => text.getLast? == some ' '
  | debug _ => true
  | _ => false

/-- A client error is one the client raised, about a URL of the target. -/
def Aimed (raised : TransportError → Prop) (target : SocketAddrV4) : Part → Prop
  | transport error url => raised error ∧ ∃ u, url = some u ∧ u.credentials = none ∧
      u.host = target.ip.display ∧ u.path.head? = some '/'
  | _ => True

/-- The part shows the host, as it stands in the body. -/
def Shows (unprintable : Char → Bool) (host : Text) : Part → Prop
  | lit _ => False
  | display text => Leaks host (twice text)
  | debug text => Leaks host (twice (text.debug unprintable))
  | complaint _ => False
  | transport error _ => error.named.isSome = true

end Part

/-- Quiet literals, and a space or a quote between any two parts. -/
def Fault.check : Fault → Bool
  | [] => true
  | [part] => part.quiet
  | part :: next :: rest =>
    part.quiet && (part.closes || next.opens) && Fault.check (next :: rest)

/-- What the proofs need of an error text. -/
structure Fault.WellFormed (raised : TransportError → Prop) (target : SocketAddrV4)
    (fault : Fault) : Prop where
  check : fault.check = true
  aimed : ∀ part ∈ fault, part.Aimed raised target

section WellFormed

variable {raised : TransportError → Prop} {target : SocketAddrV4} {part : Part} {fault : Fault}

theorem Fault.WellFormed.tail (h : Fault.WellFormed raised target (part :: fault)) :
    Fault.WellFormed raised target fault := by
  refine ⟨?_, fun p hp => h.aimed p (by simp [hp])⟩
  cases fault with
  | nil => rfl
  | cons next rest =>
      have hcheck := h.check
      simp only [Fault.check, Bool.and_eq_true] at hcheck
      exact hcheck.2

theorem Fault.WellFormed.quiet (h : Fault.WellFormed raised target (part :: fault)) :
    part.quiet = true := by
  have hcheck := h.check
  cases fault with
  | nil => exact hcheck
  | cons next rest =>
      simp only [Fault.check, Bool.and_eq_true] at hcheck
      exact hcheck.1.1

end WellFormed

section Leak

variable {unprintable : Char → Bool} {raised : TransportError → Prop} {target : SocketAddrV4}

theorem twice_closes {part : Part} (h : part.closes = true) :
    ∃ front d, twice (part.text unprintable) = front ++ [d] ∧ isBreak d = true := by
  cases part with
  | lit text =>
      obtain ⟨front, rfl⟩ := List.getLast?_eq_some_iff.mp (by simpa [Part.closes] using h)
      exact ⟨twice front, ' ', by simp [Part.text]; rfl, by decide⟩
  | debug text =>
      refine ⟨twice ('"' :: text.flatMap (Text.escapeDebug unprintable)) ++ ['\\', '\\', '\\'],
        '"', ?_, by decide⟩
      show twice ('"' :: text.flatMap (Text.escapeDebug unprintable) ++ ['"']) = _
      rw [twice_append, List.append_assoc]
      rfl
  | display text => cases h
  | complaint error => cases h
  | transport error url => cases h

theorem twice_opens {part : Part} (h : part.opens = true) :
    ∃ d back, twice (part.text unprintable) = d :: back ∧ isBreak d = true := by
  cases part with
  | lit text =>
      obtain ⟨back, rfl⟩ := List.head?_eq_some_iff.mp (by simpa [Part.opens] using h)
      exact ⟨' ', twice back, rfl, by decide⟩
  | debug text =>
      exact ⟨'\\', '\\' :: '\\' :: '"' ::
        twice (text.flatMap (Text.escapeDebug unprintable) ++ ['"']), rfl, by decide⟩
  | display text => cases h
  | complaint error => cases h
  | transport error url => cases h

theorem not_leaks_twice_of_noSep {ip : Ipv4Addr} {text : Text} (h : NoSep text) :
    ¬ Leaks ip.display (twice text) :=
  not_leaks_of_noSep h.escaped.escaped

theorem plain_of_isDigit {c : Char} (h : c.isDigit = true) :
    c ≠ '"' ∧ c ≠ '\\' ∧ 32 ≤ c.toNat := by
  have hge : 48 ≤ c.toNat := (Char.isDigit_iff_toNat.mp h).1
  refine ⟨?_, ?_, by omega⟩
  · intro hc
    rw [hc] at h
    cases h
  · intro hc
    rw [hc] at h
    cases h

theorem twice_display (ip : Ipv4Addr) : twice ip.display = ip.display := by
  refine twice_of_plain ?_
  intro c hc
  rcases Ipv4Addr.mem_display hc with hdigit | rfl
  · exact plain_of_isDigit hdigit
  · decide

/-- The port of a URL, if it has one. -/
theorem isPort_port (port : Option Nat) :
    IsPort (port.elim [] fun n => ':' :: decimal n) ∧
      twice (port.elim [] fun n => ':' :: decimal n) = port.elim [] fun n => ':' :: decimal n := by
  cases port with
  | none => exact ⟨.inl rfl, rfl⟩
  | some n =>
      refine ⟨.inr ⟨decimal n, rfl, fun d hd => isDigit_of_mem_decimal hd⟩, twice_of_plain ?_⟩
      intro c hc
      rcases List.mem_cons.mp hc with rfl | hc
      · decide
      · exact plain_of_isDigit (isDigit_of_mem_decimal hc)

/-- **A client error shows the target exactly when it names its URL.** -/
theorem leaks_transport_iff {error : TransportError} {url : Option Whatwg.Url}
    (h : (Part.transport error url).Aimed raised target) :
    Leaks target.ip.display (twice (error.display url)) ↔ error.named.isSome = true := by
  obtain ⟨_, u, rfl, hcredentials, hhost, hpath⟩ := h
  unfold TransportError.display
  cases hnamed : error.named with
  | none =>
      simp only [List.append_nil]
      constructor
      · intro hleaks
        exact absurd hleaks (not_leaks_twice_of_noSep error.what.quiet)
      · intro hsome
        cases hsome
  | some tail =>
      obtain ⟨path, hslash⟩ := List.head?_eq_some_iff.mp hpath
      obtain ⟨hport, hporttwice⟩ := isPort_port u.port
      -- the URL it names is the target's, whatever the path
      refine ⟨fun _ => rfl, fun _ => ?_⟩
      have hscheme : "https".toList = "http".toList ++ ['s'] := by decide
      generalize hp : u.port.elim [] (fun n => ':' :: decimal n) = port at hport hporttwice
      refine ⟨twice error.what.text ++ (" for url (".toList ++ "https".toList),
        target.ip.display ++ port ++ (['/'] ++ twice (path ++ tail ++ ")".toList)), ?_,
        ⟨twice error.what.text ++ (" for url (".toList ++ "http".toList), 's', ?_, by decide⟩,
        _, _, rfl, ⟨[], port, rfl, .inl rfl, hport⟩, ?_⟩
      · -- Everything in front of the path is plain, so the quoting leaves it alone.
        have hlead : twice " for url (".toList = " for url (".toList := twice_of_plain (by decide)
        have hsep : twice "https://".toList = "https".toList ++ sep :=
          (twice_of_plain (by decide)).trans (by decide)
        have hroot : twice ['/'] = ['/'] := rfl
        have hurl : u.display =
            "https://".toList ++ (target.ip.display ++ (port ++ (['/'] ++ path))) := by
          unfold Whatwg.Url.display
          rw [hcredentials, hhost, hslash, hp]
          rfl
        show twice (error.what.text ++ (" for url (".toList ++ u.display ++ tail ++ ")".toList)) = _
        rw [hurl]
        simp only [twice_append, twice_display, hlead, hsep, hporttwice, hroot, List.append_assoc]
      · rw [List.append_assoc, List.append_assoc]
        exact congrArg (fun scheme => twice error.what.text ++ (" for url (".toList ++ scheme))
          hscheme
      · intro c hc
        obtain rfl : '/' = c := by simpa using hc
        decide

/-- **An error text shows the target exactly when one of its parts does.** -/
theorem leaks_text_iff {fault : Fault} (h : Fault.WellFormed raised target fault) :
    Leaks target.ip.display (twice (Fault.text unprintable fault)) ↔
      ∃ part ∈ fault, part.Shows unprintable target.ip.display := by
  induction fault with
  | nil =>
      constructor
      · intro hleaks
        exact absurd hleaks not_leaks_nil
      · intro hshows
        obtain ⟨part, hmem, _⟩ := hshows
        cases hmem
  | cons part fault ih =>
      have hpart : Leaks target.ip.display (twice (part.text unprintable)) ↔
          part.Shows unprintable target.ip.display := by
        cases part with
        | lit text =>
            -- what the source writes itself holds no separator
            have hquiet := h.quiet
            simp only [Part.quiet, Option.isNone_iff_eq_none] at hquiet
            exact iff_of_false (not_leaks_twice_of_noSep (noSep_of_splitOnce hquiet)) id
        | display text => exact Iff.rfl
        | debug text => exact Iff.rfl
        | complaint error => exact iff_of_false (not_leaks_twice_of_noSep error.quiet) id
        | transport error url => exact leaks_transport_iff (h.aimed _ (by simp))
      have hjoin : Leaks target.ip.display (twice (Fault.text unprintable (part :: fault))) ↔
          Leaks target.ip.display (twice (part.text unprintable)) ∨
            Leaks target.ip.display (twice (Fault.text unprintable fault)) := by
        rw [show Fault.text unprintable (part :: fault) =
          part.text unprintable ++ Fault.text unprintable fault from rfl, twice_append]
        cases fault with
        | nil => simp [Fault.text, twice, not_leaks_nil]
        | cons next rest =>
            have hcheck := h.check
            simp only [Fault.check, Bool.and_eq_true, Bool.or_eq_true] at hcheck
            -- the two parts meet at a character that ends every host
            rcases hcheck.1.2 with hcloses | hopens
            · exact leaks_join (.inl (twice_closes hcloses))
            · obtain ⟨d, back, hnext, hd⟩ : ∃ d back, twice (next.text unprintable) = d :: back ∧
                  isBreak d = true := twice_opens hopens
              refine leaks_join (.inr ⟨d, back ++ twice (Fault.text unprintable rest), ?_, hd⟩)
              rw [show Fault.text unprintable (next :: rest) =
                next.text unprintable ++ Fault.text unprintable rest from rfl, twice_append, hnext]
              rfl
      rw [hjoin, hpart, ih h.tail]
      simp

end Leak

end RedfishProxy.Http
