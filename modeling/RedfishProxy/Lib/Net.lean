import RedfishProxy.Lib.Text

/-!
# IPv4 socket addresses

`std::net::Ipv4Addr` and `SocketAddrV4` with their `Display`: four decimal
octets joined by dots, and `ip:port`.
-/

namespace Lib

/-- A natural number in decimal, as `Display` writes it. -/
def decimal (n : Nat) : Text := Nat.toDigits 10 n

theorem decimal_ne_nil (n : Nat) : decimal n ≠ [] := Nat.toDigits_ne_nil

theorem isDigit_of_mem_decimal {n : Nat} {c : Char} (h : c ∈ decimal n) : c.isDigit = true :=
  Nat.isDigit_of_mem_toDigits (by decide) (by decide) h

theorem decimal_injective {m n : Nat} (h : decimal m = decimal n) : m = n := by
  have hread := congrArg (fun digits => Nat.ofDigitChars 10 digits 0) h
  simpa [decimal, Nat.ofDigitChars_ten_toDigits] using hread

/-- Four octets, most significant first. -/
structure Ipv4Addr where
  a : Fin 256
  b : Fin 256
  c : Fin 256
  d : Fin 256
  deriving DecidableEq

namespace Ipv4Addr

/-- `to_string`, the dotted form. -/
def display (ip : Ipv4Addr) : Text :=
  decimal ip.a ++ '.' :: decimal ip.b ++ '.' :: decimal ip.c ++ '.' :: decimal ip.d

theorem mem_display {ip : Ipv4Addr} {ch : Char} (h : ch ∈ ip.display) :
    ch.isDigit = true ∨ ch = '.' := by
  simp only [display, List.mem_append, List.mem_cons] at h
  rcases h with ((h | h | h) | h | h) | h | h
  all_goals first
    | exact .inl (isDigit_of_mem_decimal h)
    | exact .inr h

theorem toNat_of_mem_display {ip : Ipv4Addr} {ch : Char} (h : ch ∈ ip.display) :
    ch.toNat < 65 := by
  rcases mem_display h with h | rfl
  · exact Nat.lt_of_le_of_lt (Text.isDigit_toNat h) (by decide)
  · decide

theorem colon_notMem_display (ip : Ipv4Addr) : ':' ∉ ip.display := by
  intro h
  rcases mem_display h with h | h <;> exact absurd h (by decide)

/-- The dotted form is a first digit and more. -/
theorem display_eq_cons (ip : Ipv4Addr) :
    ∃ first rest, ip.display = first :: rest ∧ first.isDigit = true := by
  obtain ⟨first, rest, hcons⟩ := List.exists_cons_of_ne_nil (decimal_ne_nil ip.a)
  refine ⟨first, _, by rw [display, hcons]; rfl, ?_⟩
  exact isDigit_of_mem_decimal (n := ip.a) (by simp [hcons])

/-- It ends in a digit. -/
theorem display_eq_concat (ip : Ipv4Addr) :
    ∃ rest last, ip.display = rest ++ [last] ∧ last.isDigit = true := by
  have hne := decimal_ne_nil ip.d
  refine ⟨decimal ip.a ++ '.' :: decimal ip.b ++ '.' :: decimal ip.c ++
      '.' :: (decimal ip.d).dropLast, (decimal ip.d).getLast hne, ?_,
    isDigit_of_mem_decimal (n := ip.d) (List.getLast_mem hne)⟩
  conv_lhs => rw [display, ← List.dropLast_append_getLast hne]
  simp

end Ipv4Addr

/-- An IPv4 address and a port. -/
structure SocketAddrV4 where
  ip : Ipv4Addr
  port : Fin 65536
  deriving DecidableEq

/-- `to_string`, as `ip:port`. -/
def SocketAddrV4.display (addr : SocketAddrV4) : Text :=
  addr.ip.display ++ ':' :: decimal addr.port

end Lib
