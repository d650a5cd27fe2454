import TaggedUnion.Text.CombiningMark
import TaggedUnion.Text.Printable

/-!
# Quoted text

A text is written between double quotes so that it can be read back from one printed line. Quote,
backslash and the four common controls get a two-character escape. Any other character that is not
printable, or that would fuse with the character before it, is written by its code point.
-/

namespace TaggedUnion.Text

/-- The code point in lower-case hexadecimal, without leading zeros, between braces. -/
def codePointEscape (c : Char) : List Char :=
  ['\\', 'u', '\x7b'] ++ Nat.toDigits 16 c.toNat ++ ['\x7d']

/-- How one character is written inside quotes. A single quote needs no escape. -/
def escape (c : Char) : List Char :=
  match c with
  | '\"' => ['\\', '\"']
  | '\\' => ['\\', '\\']
  | '\n' => ['\\', 'n']
  | '\r' => ['\\', 'r']
  | '\t' => ['\\', 't']
  | '\x00' => ['\\', '0']
  | c => if isCombiningMark c || !isPrintable c then codePointEscape c else [c]

/-- A text in double quotes, every character escaped on its own. -/
def quote (s : String) : String :=
  String.ofList ('\"' :: s.toList.flatMap escape ++ ['\"'])

end TaggedUnion.Text
