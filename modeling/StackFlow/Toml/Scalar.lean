import StackFlow.Toml.Text
import StackFlow.Toml.Value

/-!
# Numbers, dates and times

Integers are 64 bits wide. Underscores may stand between digits.
-/

namespace StackFlow.Toml

namespace Reader

/-- Digits with single underscores between them, without the underscores. -/
def digits (isDigit : Char → Bool) : Reader (List Char) := do
  let first ← satisfy isDigit
  return first :: (← many ((do char '_'; satisfy isDigit) <|> satisfy isDigit))

/-- A sign; `true` for a minus. -/
def sign : Reader Bool :=
  (do char '-'; return true) <|> (do char '+'; return false) <|> pure false

/-- Decimal digits that do not start with a zero, unless they are a single zero. -/
def decimalDigits : Reader (List Char) :=
  (do ahead (satisfy (· ≠ '0')); digits Char.isDigit) <|> (do char '0'; return ['0'])

/-- An integer in decimal, or without a sign in base sixteen, eight or two. -/
def integer : Reader Int := do
  let based (mark : String) (base : Nat) (isDigit : Char → Bool) : Reader Int := do
    keyword mark
    return (numeral base (← digits isDigit) : Int)
  let decimal : Reader Int := do
    let negative ← sign
    let magnitude := numeral 10 (← decimalDigits)
    return if negative then -(magnitude : Int) else (magnitude : Int)
  let value ← based "0x" 16 isHexDigit
    <|> based "0o" 8 (fun char => '0' ≤ char && char ≤ '7')
    <|> based "0b" 2 (fun char => char = '0' || char = '1')
    <|> decimal
  if Int64.minValue.toInt ≤ value ∧ value ≤ Int64.maxValue.toInt then return value else failure

/-- The value of a fraction or an exponent is too great for a double: it would be rounded to
infinity. -/
def overflows (significand : Nat) (exponent : Int) : Bool :=
  let threshold : Nat := Nat.pow 2 1024 - Nat.pow 2 970
  let size : Int := significand.repr.length + exponent
  if significand = 0 || size < 300 then false
  else if size > 320 then true
  else if 0 ≤ exponent then threshold ≤ significand * Nat.pow 10 exponent.toNat
  else threshold * Nat.pow 10 exponent.natAbs ≤ significand

/-- A number with a fraction or an exponent. -/
def decimalFloat : Reader Unit := do
  let negative ← sign
  let whole ← decimalDigits
  let fraction ← maybe do char '.'; digits Char.isDigit
  let exponent ← maybe do
    let _ ← satisfy fun char => char = 'e' || char = 'E'
    let negative ← sign
    let magnitude := numeral 10 (← digits Char.isDigit)
    return if negative then -(magnitude : Int) else (magnitude : Int)
  if fraction.isNone && exponent.isNone then failure
  let places := (fraction.getD []).length
  let significand := numeral 10 (whole ++ fraction.getD [])
  if !negative && overflows significand (exponent.getD 0 - places) then failure

/-- Infinity, or no number. -/
def specialFloat : Reader Unit := do
  let _ ← sign
  keyword "inf" <|> keyword "nan"

/-- A number of two digits in a range. -/
def twoDigits (least greatest : Nat) : Reader Nat := do
  let value := numeral 10 (← takeExactly Char.isDigit 2)
  if least ≤ value && value ≤ greatest then return value else failure

/-- The number of days of a month. -/
def daysIn (year month : Nat) : Nat :=
  if month = 2 then if year % 4 = 0 && (year % 100 ≠ 0 || year % 400 = 0) then 29 else 28
  else if month = 4 || month = 6 || month = 9 || month = 11 then 30
  else 31

/-- A day of the calendar. -/
def date : Reader Unit := do
  let year := numeral 10 (← takeExactly Char.isDigit 4)
  char '-'
  let month ← twoDigits 1 12
  char '-'
  let _ ← twoDigits 1 (daysIn year month)

/-- A time of day. The second 60 is for leap seconds. -/
def time : Reader Unit := do
  let _ ← twoDigits 0 23
  char ':'
  let _ ← twoDigits 0 59
  char ':'
  let _ ← twoDigits 0 60
  let _ ← maybe do char '.'; takeSome Char.isDigit

/-- The distance of a time zone. -/
def offset : Reader Unit :=
  (do let _ ← satisfy fun char => char = 'Z' || char = 'z') <|> do
    let _ ← satisfy fun char => char = '+' || char = '-'
    let _ ← twoDigits 0 23
    char ':'
    let _ ← twoDigits 0 59

/-- A date, a time, or both with or without a time zone. -/
def dateTime : Reader Unit :=
  (do
    date
    let _ ← maybe do
      let _ ← satisfy fun char => char = 'T' || char = 't' || char = ' '
      time
      maybe offset) <|> time

/-- The characters that a reader takes. -/
def literal (reader : Reader Unit) : Reader String := do
  let before ← get
  reader
  let after ← get
  return String.ofList (before.take (before.length - after.length))

/-- A value without parts. -/
def scalar : Reader Value :=
  (.text <$> string)
    <|> (.dateTime <$> literal dateTime)
    <|> (.float <$> literal (decimalFloat <|> specialFloat))
    <|> (.integer <$> integer)
    <|> (do keyword "true"; return .boolean true)
    <|> (do keyword "false"; return .boolean false)

end Reader

end StackFlow.Toml
