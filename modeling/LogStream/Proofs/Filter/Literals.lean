import LogStream.Filter.Parser

/-! # What literals stand for

The constants that the tokens of literals denote (`Token.Denotes`): a numeral of decimal digits or
of hexadecimal ones, up to a greatest number; a quoted text with escapes, each of which is one of a
few forms (`Escape`). -/

namespace LogStream.Filter

/-! ### Numerals -/

/-- A numeral and its number: decimal digits, or hexadecimal digits behind their mark. -/
inductive IsNumeral : Text → Nat → Prop
  | decimal {t : Text} {ds : List Nat} (h : t.mapM CodePoint.decimal? = some ds) (hne : t ≠ []) :
      IsNumeral t (Text.numberOf 10 ds)
  | hex {z x : CodePoint} {r : Text} {ds : List Nat} (hz : z.is '0') (hx : x.isIn "xX")
      (h : r.mapM CodePoint.hexValue? = some ds) (hne : r ≠ []) :
      IsNumeral (z :: x :: r) (Text.numberOf 16 ds)

/-- The token is no numeral of more decimal digits than are read. -/
def Token.IsReadable (t : Token) : Prop :=
  t.kind = .int → (t.text.takeWhile CodePoint.isDecimal).length ≤ Text.maxDigits

/-- What the token of an integer is: a numeral, and the mark of an unsigned integer or not. -/
def IsInteger (t : Text) : Prop :=
  ∃ n, IsNumeral t n ∨ ∃ ds mark, t = ds ++ [mark] ∧ mark.isIn "uU" = true ∧ IsNumeral ds n

/-! ### Escapes -/

/-- What may stand behind a backslash, and the code point that it stands for. -/
inductive Escape : Text → CodePoint → Prop
  | simple {c : Char} {n : Nat} (h : (c, n) ∈ simpleEscapes) :
      Escape [CodePoint.ofChar c] (CodePoint.ofNat n)
  | numbered {mark : Char} {count : Nat} {r : Text} {ds : List Nat}
      (h : (mark, count) ∈ [('x', 2), ('u', 4), ('U', 8)])
      (hr : r.mapM CodePoint.hexValue? = some ds) (hl : r.length = count)
      (hb : Text.numberOf 16 ds < 0x110000) :
      Escape (CodePoint.ofChar mark :: r) (CodePoint.ofNat (Text.numberOf 16 ds))
  | octal {a b c : CodePoint} (ha : 48 ≤ a.val ∧ a.val ≤ 51) (hb : 48 ≤ b.val ∧ b.val ≤ 55)
      (hc : 48 ≤ c.val ∧ c.val ≤ 55) :
      Escape [a, b, c] (CodePoint.ofNat (Text.numberOf 8 [a.val - 48, b.val - 48, c.val - 48]))

/-- A text with escapes, and the text that it stands for. A backslash at the very end stands for
itself. -/
inductive Unescapes : Text → Text → Prop
  | nil : Unescapes [] []
  | last {b : CodePoint} (hb : b.is '\\') : Unescapes [b] [b]
  | plain {c : CodePoint} {r t : Text} (hc : c.is '\\' = false) (h : Unescapes r t) :
      Unescapes (c :: r) (c :: t)
  | escape {b x : CodePoint} {e r t : Text} (hb : b.is '\\') (he : Escape e x)
      (h : Unescapes r t) : Unescapes (b :: (e ++ r)) (x :: t)

/-! ### Literals -/

/-- The letters in front of the quotes. -/
def quoteLetters (t : Text) : Text := t.takeWhile (·.isIn "rRbB")

/-- What a quoted text says between the quotes: an `r` in front leaves it as it is. -/
inductive Says (t : Text) : Text → Prop
  | raw (h : (quoteLetters t).any (·.isIn "rR") = true) :
      Says t (betweenQuotes (t.dropWhile (·.isIn "rRbB")))
  | cooked {content : Text} (h : (quoteLetters t).any (·.isIn "rR") = false)
      (hc : Unescapes (betweenQuotes (t.dropWhile (·.isIn "rRbB"))) content) : Says t content

/-- The bytes of a text: one of each code point if all of these are below 256, else those in UTF-8.
-/
inductive SaysBytes (content : Text) : Bytes → Prop
  | narrow (h : ∀ c ∈ content, c.val < 256) : SaysBytes content (content.map fun c => byte c.val)
  | wide {bs : Bytes} (h : ¬ ∀ c ∈ content, c.val < 256) (hb : Utf8.encode? content = some bs) :
      SaysBytes content bs

/-- The constants that a token of a literal denotes. -/
inductive Token.Denotes (t : Token) : Constant → Prop
  | int {n : Nat} (hk : t.kind = .int) (h : IsNumeral t.text n) (hb : n ≤ intLiteralMax) :
      Denotes t (.int n)
  | uint {ds : Text} {mark : CodePoint} {n : Nat} (hk : t.kind = .int) (ht : t.text = ds ++ [mark])
      (hm : mark.isIn "uU") (h : IsNumeral ds n) (hb : n ≤ uintLiteralMax) : Denotes t (.uint n)
  | float (hk : t.kind = .float) : Denotes t (readFloat t)
  | string {content : Text} (hk : t.kind = .string) (h : Says t.text content)
      (hl : (quoteLetters t.text).any (·.isIn "bB") = false) : Denotes t (.string content)
  | bytes {content : Text} {bs : Bytes} (hk : t.kind = .string) (h : Says t.text content)
      (hl : (quoteLetters t.text).any (·.isIn "bB") = true) (hb : SaysBytes content bs) :
      Denotes t (.bytes bs)

end LogStream.Filter
