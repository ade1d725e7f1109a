import LogStream.Text.Basic

/-! # UTF-8

Encoding refuses surrogates. Decoding takes the shortest form of each code point only; it refuses
surrogates too unless asked to let them pass. -/

namespace LogStream.Utf8

/-- The bytes of one code point, surrogates included. -/
def encodePoint (c : CodePoint) : Bytes :=
  let n := c.val
  if n < 0x80 then [byte n]
  else if n < 0x800 then [byte (0xC0 + n / 64), byte (0x80 + n % 64)]
  else if n < 0x10000 then
    [byte (0xE0 + n / 4096), byte (0x80 + n / 64 % 64), byte (0x80 + n % 64)]
  else
    [byte (0xF0 + n / 262144), byte (0x80 + n / 4096 % 64), byte (0x80 + n / 64 % 64),
      byte (0x80 + n % 64)]

/-- The bytes of a text, if it holds no surrogate. -/
def encode? : Text → Option Bytes
  | [] => some []
  | c :: r => if c.isSurrogate then none else (encode? r).map (encodePoint c ++ ·)

/-- The bytes of a text of which the surrogates are encoded like other code points. -/
def encodeAll (t : Text) : Bytes := t.flatMap encodePoint

/-- The low six bits of a continuation byte. -/
def tail? (b : UInt8) : Option Nat :=
  if 0x80 ≤ b.toNat ∧ b.toNat < 0xC0 then some (b.toNat - 0x80) else none

/-- The text of some bytes; `surrogates` says whether encoded surrogates pass. -/
def decodeWith? (surrogates : Bool) : Bytes → Option Text
  | [] => some []
  | b :: r =>
    if b.toNat < 0x80 then (decodeWith? surrogates r).map (CodePoint.ofNat b.toNat :: ·)
    else match r with
      | [] => none
      | b₁ :: r₁ =>
        match tail? b₁ with
        | none => none
        | some t₁ =>
          if 0xC2 ≤ b.toNat ∧ b.toNat < 0xE0 then
            (decodeWith? surrogates r₁).map
              (CodePoint.ofNat ((b.toNat - 0xC0) * 64 + t₁) :: ·)
          else match r₁ with
            | [] => none
            | b₂ :: r₂ =>
              match tail? b₂ with
              | none => none
              | some t₂ =>
                if 0xE0 ≤ b.toNat ∧ b.toNat < 0xF0 then
                  let n := (b.toNat - 0xE0) * 4096 + t₁ * 64 + t₂
                  if n < 0x800 ∨ (0xD800 ≤ n ∧ n < 0xE000 ∧ surrogates = false) then none
                  else (decodeWith? surrogates r₂).map (CodePoint.ofNat n :: ·)
                else match r₂ with
                  | [] => none
                  | b₃ :: r₃ =>
                    match tail? b₃ with
                    | none => none
                    | some t₃ =>
                      let n := (b.toNat - 0xF0) * 262144 + t₁ * 4096 + t₂ * 64 + t₃
                      if b.toNat < 0xF0 ∨ n < 0x10000 ∨ 0x110000 ≤ n then none
                      else (decodeWith? surrogates r₃).map (CodePoint.ofNat n :: ·)

/-- The text of some bytes. -/
def decode? (bs : Bytes) : Option Text := decodeWith? false bs

end LogStream.Utf8
