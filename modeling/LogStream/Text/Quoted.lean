import LogStream.Text.Classes

/-! # Quoted text

How texts and bytes are shown in messages: between single quotes, or between double quotes when the
content holds a single quote and no double quote. The quote, the backslash and what does not print
are escaped. -/

namespace LogStream

namespace Text

/-- A hexadecimal numeral in lower case, padded with zeros to a width. -/
def hex (width n : Nat) : Text :=
  padLeft (CodePoint.ofChar '0') width ((Nat.toDigits 16 n).map CodePoint.ofChar)

/-- A numbered escape of two, four or eight digits. -/
def numberedEscape (c : CodePoint) : Text :=
  if c.val < 0x100 then lit "\\x" ++ hex 2 c.val
  else if c.val < 0x10000 then lit "\\u" ++ hex 4 c.val
  else lit "\\U" ++ hex 8 c.val

/-- The quote that goes around a content. -/
def quoteFor (t : Text) : CodePoint :=
  if t.any (·.is '\'') && !t.any (·.is '"') then CodePoint.ofChar '"' else CodePoint.ofChar '\''

/-- One code point between quotes; `plain` says which others stand for themselves. -/
def quotePoint (plain : CodePoint → Bool) (quote c : CodePoint) : Text :=
  if c = quote ∨ c.is '\\' then [CodePoint.ofChar '\\', c]
  else if c.is '\n' then lit "\\n"
  else if c.is '\r' then lit "\\r"
  else if c.is '\t' then lit "\\t"
  else if plain c then [c]
  else numberedEscape c

/-- A text between quotes; `plain` says which code points stand for themselves. -/
def quotedBy (plain : CodePoint → Bool) (t : Text) : Text :=
  let q := quoteFor t
  q :: t.flatMap (quotePoint plain q) ++ [q]

/-- A text between quotes, printable characters of all scripts standing for themselves. -/
def quoted (t : Text) : Text := quotedBy CodePoint.isPrintable t

/-- A text between quotes in ASCII alone. -/
def quotedAscii (t : Text) : Text := quotedBy (fun c => 32 ≤ c.val && c.val < 127) t

end Text

/-- Bytes between quotes after the letter b, each byte that is no printable ASCII as two digits. -/
def Bytes.quoted (bs : Bytes) : Text :=
  CodePoint.ofChar 'b' :: Text.quotedAscii (bs.map fun b => CodePoint.ofNat b.toNat)

end LogStream
