import StackFlow.Text.CombiningMark
import StackFlow.Text.DefaultIgnorable
import StackFlow.Text.Unprintable

/-!
# Quoted text

Text between double quotes on one line. A character that a reader could miss or misplace is written
by its code point, so that a quoted text shows everything it holds.
-/

namespace StackFlow.Text

/-- The code point lies in one of the inclusive ranges. -/
def inRanges (ranges : List (Nat × Nat)) (code : Nat) : Bool :=
  ranges.any fun (first, last) => first ≤ code && code ≤ last

/-- The character shows as a glyph of its own. -/
def isVisible (char : Char) : Bool :=
  !inRanges combiningMarkRanges char.toNat && !inRanges defaultIgnorableRanges char.toNat
    && !inRanges unprintableRanges char.toNat

/-- The code point in hexadecimal, without padding, as in `\u{301}`. -/
def codePoint (char : Char) : String :=
  "\\u\x7b" ++ String.ofList (Nat.toDigits 16 char.toNat) ++ "\x7d"

/-- How one character is written between double quotes. -/
def escaped (char : Char) : String :=
  match char with
  | '\x00' => "\\0"
  | '\t' => "\\t"
  | '\r' => "\\r"
  | '\n' => "\\n"
  | '\\' => "\\\\"
  | '"' => "\\\""
  | _ => if isVisible char then char.toString else codePoint char

/-- The text between double quotes, with every character escaped where it needs to be. -/
def quoted (text : String) : String :=
  "\"" ++ String.join (text.toList.map escaped) ++ "\""

end StackFlow.Text
