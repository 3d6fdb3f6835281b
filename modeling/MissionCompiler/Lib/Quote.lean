import Mathlib.Data.List.Basic

/-!
# Two ways to quote a string

Python's `json.dumps(…, ensure_ascii=False)` and Go's `strconv.Quote` (the `%q` verb) both work
one character at a time between two quotation marks. They disagree on some characters, and two
quoted strings can be compared exactly where they do not: `QuotedAlike`.
-/

namespace Lib

/-- A number in lower-case hexadecimal, padded with zeros to a width. -/
def hexPadded (width n : ℕ) : List Char :=
  let digits := Nat.toDigits 16 n
  List.replicate (width - digits.length) '0' ++ digits

/-- `json.dumps` of one character, with `ensure_ascii` off: the two marks, the five named
controls, and every other control below U+0020 by its code. -/
def jsonQuoteChar (c : Char) : List Char :=
  if c = '"' then ['\\', '"']
  else if c = '\\' then ['\\', '\\']
  else if c.toNat = 0x08 then ['\\', 'b']
  else if c.toNat = 0x0C then ['\\', 'f']
  else if c = '\n' then ['\\', 'n']
  else if c = '\r' then ['\\', 'r']
  else if c = '\t' then ['\\', 't']
  else if c.toNat < 0x20 then '\\' :: 'u' :: hexPadded 4 c.toNat
  else [c]

def jsonQuote (s : String) : String :=
  String.ofList ('"' :: s.toList.flatMap jsonQuoteChar ++ ['"'])

/-- `strconv.Quote` of one character, over Go's own table of printable characters: the two
marks, then what is printable as it stands, then the seven named controls, then a code. -/
def goQuoteChar (isPrint : Char → Bool) (c : Char) : List Char :=
  if c = '"' ∨ c = '\\' then ['\\', c]
  else if isPrint c then [c]
  else if c.toNat = 0x07 then ['\\', 'a']
  else if c.toNat = 0x08 then ['\\', 'b']
  else if c.toNat = 0x0C then ['\\', 'f']
  else if c = '\n' then ['\\', 'n']
  else if c = '\r' then ['\\', 'r']
  else if c = '\t' then ['\\', 't']
  else if c.toNat = 0x0B then ['\\', 'v']
  else if c.toNat < 0x20 ∨ c.toNat = 0x7F then '\\' :: 'x' :: hexPadded 2 c.toNat
  else if c.toNat < 0x10000 then '\\' :: 'u' :: hexPadded 4 c.toNat
  else '\\' :: 'U' :: hexPadded 8 c.toNat

def goQuote (isPrint : Char → Bool) (s : String) : String :=
  String.ofList ('"' :: s.toList.flatMap (goQuoteChar isPrint) ++ ['"'])

/-- No character of the string is escaped differently by the two. -/
def QuotedAlike (isPrint : Char → Bool) (s : String) : Prop :=
  ∀ c ∈ s.toList, goQuoteChar isPrint c = jsonQuoteChar c

instance (isPrint : Char → Bool) (s : String) : Decidable (QuotedAlike isPrint s) :=
  inferInstanceAs (Decidable (∀ c ∈ s.toList, goQuoteChar isPrint c = jsonQuoteChar c))

/-- Quoting is character by character, so strings escaped alike are quoted alike. -/
theorem goQuote_eq_jsonQuote {isPrint : Char → Bool} {s : String} (h : QuotedAlike isPrint s) :
    goQuote isPrint s = jsonQuote s := by
  have hbody : s.toList.flatMap (goQuoteChar isPrint) = s.toList.flatMap jsonQuoteChar :=
    List.flatMap_congr h
  rw [goQuote, jsonQuote, hbody]

end Lib
