import FlareAuth.Web.Hosts

/-!
# Texts of addresses

Which characters the text of an address has, where it can be split, and how the text of
an IPv6 address begins.
-/

namespace Web

theorem mem_intercalate {sep c : Char} {parts : List (List Char)}
    (h : c ∈ [sep].intercalate parts) : c = sep ∨ ∃ part ∈ parts, c ∈ part := by
  induction parts with
  | nil => cases h
  | cons part parts ih =>
    cases parts with
    | nil =>
      rw [List.intercalate_singleton] at h
      exact .inr ⟨part, List.mem_cons_self, h⟩
    | cons next parts =>
      rw [List.intercalate_cons_cons, List.append_assoc, List.mem_append] at h
      rcases h with h | h
      · exact .inr ⟨part, List.mem_cons_self, h⟩
      · rcases List.mem_cons.mp h with rfl | h
        · exact .inl rfl
        · obtain hsep | ⟨other, hother, hc⟩ := ih h
          · exact .inl hsep
          · exact .inr ⟨other, List.mem_cons_of_mem _ hother, hc⟩

section Ipv4

variable {a : Ipv4Address}

theorem octets_lt : ∀ n ∈ a.octets, n < 256 := by
  have hlt : a.toNat < 2 ^ 32 := a.isLt
  intro n hn
  simp only [Ipv4Address.octets, List.mem_cons, List.not_mem_nil, or_false] at hn
  omega

theorem mem_serialize_ipv4 {c : Char} (h : c ∈ Ipv4Address.serialize a) :
    c = '.' ∨ c.isDigit = true := by
  obtain hdot | ⟨digits, hdigits, hc⟩ := mem_intercalate h
  · exact .inl hdot
  · obtain ⟨n, -, rfl⟩ := List.mem_map.mp hdigits
    exact .inr (Nat.isDigit_of_mem_toDigits (by decide) (by decide) hc)

theorem splitOn_serialize_ipv4 :
    (Ipv4Address.serialize a).splitOn '.' = a.octets.map (Nat.toDigits 10) := by
  refine List.splitOn_intercalate '.' ?_ (by simp [Ipv4Address.octets])
  intro digits hdigits hdot
  obtain ⟨n, -, rfl⟩ := List.mem_map.mp hdigits
  have hdigit := Nat.isDigit_of_mem_toDigits (by decide) (by decide) hdot
  cases hdigit

end Ipv4

section Hexadecimal

def hexDigits : List Char := "0123456789abcdef".toList

theorem digitChar_mem_hexDigits {n : ℕ} (h : n < 16) : n.digitChar ∈ hexDigits := by
  have hall : ∀ n : Fin 16, n.val.digitChar ∈ hexDigits := by decide
  exact hall ⟨n, h⟩

theorem mem_hexDigits {n : ℕ} {c : Char} (h : c ∈ Nat.toDigits 16 n) : c ∈ hexDigits := by
  induction n using Nat.strongRecOn with
  | ind n ih =>
    by_cases hn : n < 16
    · rw [Nat.toDigits_of_lt_base hn, List.mem_singleton] at h
      rw [h]
      exact digitChar_mem_hexDigits hn
    · rw [Nat.toDigits_of_base_le (by omega) (by omega), List.mem_append, List.mem_singleton] at h
      rcases h with h | h
      · exact ih (n / 16) (by omega) h
      · rw [h]
        exact digitChar_mem_hexDigits (Nat.mod_lt n (by omega))

/-- Four hexadecimal digits. -/
theorem toDigits_four {n : ℕ} (hlow : 0x1000 ≤ n) (hhigh : n < 0x10000) :
    Nat.toDigits 16 n = [(n / 4096).digitChar, (n / 256 % 16).digitChar, (n / 16 % 16).digitChar,
      (n % 16).digitChar] := by
  rw [Nat.toDigits_of_base_le (by omega) (by omega : 16 ≤ n),
    Nat.toDigits_of_base_le (by omega) (by omega : 16 ≤ n / 16),
    Nat.toDigits_of_base_le (by omega) (by omega : 16 ≤ n / 16 / 16),
    Nat.toDigits_of_lt_base (by omega : n / 16 / 16 / 16 < 16)]
  simp only [Nat.div_div_eq_div_mul, List.cons_append, List.nil_append]

end Hexadecimal

section Ipv6

variable {a : Ipv6Address}

theorem mem_joinPieces {c : Char} {pieces : List ℕ} (h : c ∈ joinPieces pieces) :
    c = ':' ∨ c ∈ hexDigits := by
  obtain hcolon | ⟨digits, hdigits, hc⟩ := mem_intercalate h
  · exact .inl hcolon
  · obtain ⟨n, -, rfl⟩ := List.mem_map.mp hdigits
    exact .inr (mem_hexDigits hc)

theorem mem_serializePieces {c : Char} {pieces : List ℕ} (h : c ∈ serializePieces pieces) :
    c = ':' ∨ c ∈ hexDigits := by
  unfold serializePieces at h
  dsimp only at h
  split at h
  · rcases List.mem_append.mp h with h | h
    · exact mem_joinPieces h
    · rcases List.mem_cons.mp h with rfl | h
      · exact .inl rfl
      · rcases List.mem_cons.mp h with rfl | h
        · exact .inl rfl
        · exact mem_joinPieces h
  · exact mem_joinPieces h

theorem joinPieces_cons (piece : ℕ) (rest : List ℕ) :
    ∃ tail, joinPieces (piece :: rest) ++ [':'] = Nat.toDigits 16 piece ++ ':' :: tail := by
  cases rest with
  | nil => exact ⟨[], by simp [joinPieces, List.intercalate_singleton]⟩
  | cons next rest =>
    refine ⟨joinPieces (next :: rest) ++ [':'], ?_⟩
    rw [joinPieces, List.map_cons, List.map_cons, List.intercalate_cons_cons, ← List.map_cons]
    simp [joinPieces]

/-- A first piece other than zero stands at the beginning. -/
theorem serializePieces_cons {piece next : ℕ} {rest : List ℕ} (h : piece ≠ 0) :
    ∃ tail, serializePieces (piece :: next :: rest) = Nat.toDigits 16 piece ++ ':' :: tail := by
  unfold serializePieces
  dsimp only
  split
  · next hlength =>
    -- the run that is left out does not begin with the first piece
    cases hfirst : longestRun (piece :: next :: rest) with
    | zero =>
      rw [hfirst] at hlength
      simp [zeroRun, h] at hlength
    | succ first =>
      rw [List.take_succ_cons]
      obtain ⟨tail, htail⟩ := joinPieces_cons piece ((next :: rest).take first)
      generalize joinPieces ((piece :: next :: rest).drop _) = last
      refine ⟨tail ++ ':' :: last, ?_⟩
      calc joinPieces (piece :: (next :: rest).take first) ++ ':' :: ':' :: last
          = (joinPieces (piece :: (next :: rest).take first) ++ [':']) ++ ':' :: last := by simp
        _ = Nat.toDigits 16 piece ++ ':' :: (tail ++ ':' :: last) := by rw [htail]; simp
  · refine ⟨joinPieces (next :: rest), ?_⟩
    rw [joinPieces, List.map_cons, List.map_cons, List.intercalate_cons_cons, ← List.map_cons]
    simp [joinPieces]

theorem pieces_eq : ∃ rest, a.pieces = a.toNat / 2 ^ 112 :: a.toNat / 2 ^ 96 % 2 ^ 16 :: rest := by
  have hlt : a.toNat < 2 ^ 128 := a.isLt
  refine ⟨[5, 4, 3, 2, 1, 0].map fun k => a.toNat / 2 ^ (16 * k) % 2 ^ 16, ?_⟩
  rw [Ipv6Address.pieces, List.map_cons, List.map_cons, Nat.mod_eq_of_lt (by omega)]

/-- The text of an address whose first piece is not zero. -/
theorem serialize_of_first (h : a.toNat / 2 ^ 112 ≠ 0) :
    ∃ tail, Ipv6Address.serialize a = Nat.toDigits 16 (a.toNat / 2 ^ 112) ++ ':' :: tail := by
  obtain ⟨rest, hpieces⟩ := pieces_eq (a := a)
  rw [Ipv6Address.serialize, hpieces]
  exact serializePieces_cons h

/-- The text of an IPv4-mapped address. -/
theorem serialize_of_mapped (h : a.toNat / 2 ^ 32 = 0xffff) :
    ∃ tail, Ipv6Address.serialize a = "::ffff:".toList ++ tail := by
  have hpieces : a.pieces = [0, 0, 0, 0, 0, 0xffff, a.toNat / 2 ^ 16 % 2 ^ 16,
      a.toNat % 2 ^ 16] := by
    simp only [Ipv6Address.pieces, List.map_cons, List.map_nil, List.cons.injEq, and_true,
      Nat.reduceMul, Nat.reducePow, Nat.div_one]
    omega
  rw [Ipv6Address.serialize, hpieces]
  generalize a.toNat / 2 ^ 16 % 2 ^ 16 = high
  generalize a.toNat % 2 ^ 16 = low
  have hrun : longestRun [0, 0, 0, 0, 0, 0xffff, high, low] = 0 := by
    by_cases hhigh : high = 0 <;> by_cases hlow : low = 0 <;>
      simp [longestRun, zeroRun, List.range_succ, hhigh, hlow]
  refine ⟨joinPieces [high, low], ?_⟩
  rw [serializePieces, hrun]
  rfl

end Ipv6

end Web
