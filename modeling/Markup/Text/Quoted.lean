import Markup.Text.Printable

/-!
# Quoted texts and byte strings

`quote` shows a text on one line between quotes.  The quotes are single unless the text has a
single quote and no double one.  Inside, the backslash and the chosen quote get a backslash,
tab, newline and carriage return their letters, and every other character that is not
printable a hexadecimal escape of two, four or eight digits.

`quoteBytes` does the same for bytes, where only printable ASCII shows as itself.
-/

namespace Markup.Text

/-- The hexadecimal digits of `n`, padded with zeros to `width`. -/
def hex (width n : Nat) : List Char :=
  let ds := Nat.toDigits 16 n
  List.replicate (width - ds.length) '0' ++ ds

/-- The escape of a character by its number, as short as its size allows. -/
def hexEscape (n : Nat) : List Char :=
  if n < 0x100 then '\\' :: 'x' :: hex 2 n
  else if n < 0x10000 then '\\' :: 'u' :: hex 4 n
  else '\\' :: 'U' :: hex 8 n

/-- The single quote. -/
def singleQuote : Char := '\x27'

/-- The double quote. -/
def doubleQuote : Char := '\x22'

/-- The quote to put around a text: single unless it has single quotes only. -/
def chooseQuote (cs : List Char) : Char :=
  if cs.contains singleQuote && !cs.contains doubleQuote then doubleQuote else singleQuote

/-- The escapes that do not depend on what is printable. -/
def shortEscape? (quote c : Char) : Option (List Char) :=
  if c = quote ∨ c = '\\' then some ['\\', c]
  else if c = '\t' then some ['\\', 't']
  else if c = '\n' then some ['\\', 'n']
  else if c = '\r' then some ['\\', 'r']
  else none

/-- A character inside quotes. -/
def quoteChar (quote c : Char) : List Char :=
  match shortEscape? quote c with
  | some e => e
  | none => if isPrintable c then [c] else hexEscape c.toNat

/-- A byte inside quotes. -/
def quoteByte (quote c : Char) : List Char :=
  match shortEscape? quote c with
  | some e => e
  | none => if ' ' ≤ c ∧ c ≤ '~' then [c] else hexEscape c.toNat

/-- A text between quotes, on one line. -/
def quote (s : String) : String :=
  let cs := s.toList
  let q := chooseQuote cs
  String.ofList (q :: cs.flatMap (quoteChar q) ++ [q])

/-- Bytes between quotes, where the character `marked` gets a backslash. -/
def quoteBytesWith (quote marked : Char) (cs : List Char) : String :=
  String.ofList ('b' :: quote :: cs.flatMap (quoteByte marked) ++ [quote])

/-- The characters with the numbers of some bytes. -/
def byteChars (bytes : List UInt8) : List Char := bytes.map fun b => Char.ofNat b.toNat

/-- Bytes between quotes, on one line. -/
def quoteBytes (bytes : List UInt8) : String :=
  let cs := byteChars bytes
  quoteBytesWith (chooseQuote cs) (chooseQuote cs) cs

/-- Bytes of a buffer between quotes; a single quote gets a backslash whatever the quotes are. -/
def quoteBuffer (bytes : List UInt8) : String :=
  let cs := byteChars bytes
  quoteBytesWith (chooseQuote cs) singleQuote cs

end Markup.Text
