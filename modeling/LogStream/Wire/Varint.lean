import LogStream.Text.Basic

/-! # Variable-length integers

A number as bytes of seven bits each, the lowest first; every byte but the last has its high bit set.
Reading takes ten bytes at most and keeps 64 bits; what is written reads back (`decode?_encode`). -/

namespace LogStream.Varint

/-- The bytes of a number. -/
def encode (n : Nat) : Bytes :=
  if n < 128 then [byte n] else byte (n % 128 + 128) :: encode (n / 128)
termination_by n
decreasing_by omega

/-- The number at the front of some bytes, in at most `count` of them, and the bytes behind it. -/
def read? : Nat → Bytes → Option (Nat × Bytes)
  | 0, _ => none
  | _ + 1, [] => none
  | count + 1, b :: r =>
    if b.toNat < 128 then some (b.toNat, r)
    else (read? count r).map fun (n, rest) => (b.toNat - 128 + 128 * n, rest)

/-- The 64-bit number at the front of some bytes and the bytes behind it. -/
def decode? (bs : Bytes) : Option (Nat × Bytes) :=
  (read? 10 bs).map fun (n, rest) => (n % 0x10000000000000000, rest)

/-- What is written reads back, whatever stands behind it. -/
theorem read?_encode (count n : Nat) (rest : Bytes) (h : n < Nat.pow 128 (count + 1)) :
    read? (count + 1) (encode n ++ rest) = some (n, rest) := by
  induction count generalizing n with
  | zero =>
    have h : n < 128 := h
    have hb : (byte n).toNat = n := by simp [byte]; omega
    rw [encode, if_pos h]
    simp only [List.cons_append, List.nil_append, read?, hb, if_pos h]
  | succ count ih =>
    rw [encode]
    split
    · next hn =>
      have hb : (byte n).toNat = n := by simp [byte]; omega
      simp only [List.cons_append, List.nil_append, read?, hb, if_pos hn]
    · next hn =>
      have hb : (byte (n % 128 + 128)).toNat = n % 128 + 128 := by simp [byte]; omega
      have hc : n / 128 < Nat.pow 128 (count + 1) := by
        have : n < Nat.pow 128 (count + 1) * 128 := h
        omega
      have he : n % 128 + 128 - 128 + 128 * (n / 128) = n := by omega
      rw [List.cons_append, read?, hb, if_neg (by omega), ih _ hc, Option.map_some]
      simp only [he]

/-- A 64-bit number reads back. -/
theorem decode?_encode {n : Nat} (h : n < 0x10000000000000000) (rest : Bytes) :
    decode? (encode n ++ rest) = some (n, rest) := by
  have hn : n < Nat.pow 128 10 := Nat.lt_trans h (by decide)
  rw [decode?, read?_encode 9 n rest hn, Option.map_some]
  simp only [Nat.mod_eq_of_lt h]

/-- A signed number as 64 bits. -/
def ofInt (n : Int) : Nat := (n % 0x10000000000000000).toNat

/-- The signed number of 64 bits. -/
def toInt64 (n : Nat) : Int := Int.bmod n 0x10000000000000000

/-- The signed number of the low 32 bits. -/
def toInt32 (n : Nat) : Int := Int.bmod n 0x100000000

end LogStream.Varint
