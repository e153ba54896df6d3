/-
# Instants

A point in time in UTC, read from and written to the usual text form
`2024-02-29T12:30:45.5+02:00`.

**Reading** is lenient: blanks may surround the numbers, `T` may be lower case or a space, a sign
may stand before the year, the zone is `Z`, `UTC` or an offset whose colon may be missing; digits
past the ninth of a fraction are dropped.  An instant with an offset is converted to UTC.

**Writing** gives `Z` and no fraction when it is zero, else 3, 6 or 9 digits, the fewest that
hold it.  A leap second keeps its `:60`.
-/

import MappingCanvas.Text.Blank
import MappingCanvas.Text.Numeral

namespace MappingCanvas

/-- Seconds since the beginning of 1970, and nanoseconds; a leap second has a thousand million
nanoseconds or more and belongs to the second before it. -/
structure Instant where
  seconds : Int
  nanos : Nat
  deriving DecidableEq

namespace Instant

/-- Earlier, or at the same time. -/
def le (a b : Instant) : Bool :=
  a.seconds < b.seconds || (a.seconds == b.seconds && a.nanos ≤ b.nanos)

/-! ### The calendar -/

/-- Days from the first of March of year 0 to the first of March of year `y`. -/
def daysBeforeMarch (y : Int) : Int :=
  365 * y + Int.fdiv y 4 - Int.fdiv y 100 + Int.fdiv y 400

/-- Days from the first of March of year 0 to the beginning of 1970. -/
def epochDays : Int := 719468

/-- The day number of a date, counted from the beginning of 1970; the year is taken to begin in
March, so that the leap day is its last. -/
def dayNumber (year : Int) (month day : Nat) : Int :=
  let y := if month ≤ 2 then year - 1 else year
  let m := (month + 9) % 12
  daysBeforeMarch y + ((153 * m + 2) / 5 + day - 1 : Nat) - epochDays

/-- The date of a day number: year, month and day. -/
def dateOf (days : Int) : Int × Nat × Nat :=
  let z := days + epochDays
  let era := Int.fdiv z 146097
  let inEra := (z - era * 146097).toNat
  let yearOfEra := (inEra - inEra / 1460 + inEra / 36524 - inEra / 146096) / 365
  let inYear := inEra - (365 * yearOfEra + yearOfEra / 4 - yearOfEra / 100)
  let m := (5 * inYear + 2) / 153
  let day := inYear - (153 * m + 2) / 5 + 1
  let month := if m < 10 then m + 3 else m - 9
  let year := (yearOfEra : Int) + era * 400
  (if month ≤ 2 then year + 1 else year, month, day)

/-- Leap years have a 29th of February. -/
def isLeapYear (y : Int) : Bool := y % 4 == 0 && (y % 100 != 0 || y % 400 == 0)

/-- The number of days of a month. -/
def daysInMonth (year : Int) (month : Nat) : Nat :=
  if month = 2 then (if isLeapYear year then 29 else 28)
  else if month ∈ [4, 6, 9, 11] then 30 else 31

/-! ### Writing -/

/-- A number with leading zeros up to a width. -/
def padded (width n : Nat) : String :=
  let ds := Nat.toDigits 10 n
  String.ofList (List.replicate (width - ds.length) '0' ++ ds)

/-- A year: four digits, or a sign and at least four outside the years 0 to 9999. -/
def yearText (y : Int) : String :=
  if 0 ≤ y ∧ y ≤ 9999 then padded 4 y.toNat
  else (if y < 0 then "-" else "+") ++ padded 4 y.natAbs

/-- The fraction of a second with the fewest digits of 0, 3, 6 and 9. -/
def fractionText (nanos : Nat) : String :=
  if nanos = 0 then ""
  else if nanos % 1000000 = 0 then "." ++ padded 3 (nanos / 1000000)
  else if nanos % 1000 = 0 then "." ++ padded 6 (nanos / 1000)
  else "." ++ padded 9 nanos

/-- The nanoseconds of a second. -/
def perSecond : Nat := 1000000000

/-- The text of an instant. -/
def render (t : Instant) : String :=
  let days := Int.fdiv t.seconds 86400
  let inDay := (t.seconds - days * 86400).toNat
  let (year, month, day) := dateOf days
  let leap := perSecond ≤ t.nanos
  let second := inDay % 60 + if leap then 1 else 0
  let nanos := if leap then t.nanos - perSecond else t.nanos
  yearText year ++ "-" ++ padded 2 month ++ "-" ++ padded 2 day ++ "T" ++
    padded 2 (inDay / 3600) ++ ":" ++ padded 2 (inDay / 60 % 60) ++ ":" ++ padded 2 second ++
    fractionText nanos ++ "Z"

/-! ### Reading -/

/-- Why a text is no instant. -/
inductive ReadError
  | tooShort | invalid | outOfRange | tooLong | impossible
  deriving DecidableEq

/-- The wording of a reading error. -/
def ReadError.message : ReadError → String
  | tooShort => "premature end of input"
  | invalid => "input contains invalid characters"
  | outOfRange => "input is out of range"
  | tooLong => "trailing input"
  | impossible => "no possible date and time matching input"

/-- The text without the blanks in front. -/
def skipBlank (cs : List Char) : List Char := cs.dropWhile Text.isBlank

/-- A number of at least one and at most `width` digits. -/
def number (width : Nat) (cs : List Char) : Except ReadError (Nat × List Char) :=
  let ds := (cs.take width).takeWhile Text.isDigit
  if ds.isEmpty then .error (if cs.isEmpty then .tooShort else .invalid)
  else
    let n := ds.foldl (fun n c => n * 10 + Text.digitValue c) 0
    if n < Nat.pow 2 63 then .ok (n, cs.drop ds.length) else .error .outOfRange

/-- A number behind blanks, within bounds. -/
def bounded (width least greatest : Nat) (cs : List Char) : Except ReadError (Nat × List Char) := do
  let (n, rest) ← number width (skipBlank cs)
  if least ≤ n ∧ n ≤ greatest then return (n, rest) else throw .outOfRange

/-- A year of four digits at most, or of any length behind a sign. -/
def signedNumber (cs : List Char) : Except ReadError (Int × List Char) :=
  match skipBlank cs with
  | '-' :: rest => (number rest.length rest).map fun (n, rest) => (-(n : Int), rest)
  | '+' :: rest => (number rest.length rest).map fun (n, rest) => ((n : Int), rest)
  | rest => (number 4 rest).map fun (n, rest) => ((n : Int), rest)

/-- A year that fits 32 bits. -/
def year (cs : List Char) : Except ReadError (Int × List Char) := do
  let (y, rest) ← signedNumber cs
  if -(Nat.pow 2 31 : Int) ≤ y ∧ y < (Nat.pow 2 31 : Int) then return (y, rest)
  else throw .outOfRange

/-- A separator behind blanks. -/
def separator (c : Char) (cs : List Char) : Except ReadError (Unit × List Char) :=
  match skipBlank cs with
  | [] => .error .tooShort
  | d :: rest => if d = c then .ok ((), rest) else .error .invalid

/-- The nanoseconds of a fraction of a second, if there is one. -/
def fraction : List Char → Except ReadError (Nat × List Char)
  | '.' :: cs => do
    let ds := (cs.take 9).takeWhile Text.isDigit
    let (n, rest) ← number 9 cs
    return (n * Nat.pow 10 (9 - ds.length), rest.dropWhile Text.isDigit)
  | cs => .ok (0, cs)

/-- Two digits of which the first is at most `top`. -/
def twoDigits (top : Char) (cs : List Char) : Except ReadError (Nat × List Char) :=
  match cs with
  | a :: b :: rest =>
    if Text.isDigit a && Text.isDigit b then
      if a ≤ top then .ok (Text.digitValue a * 10 + Text.digitValue b, rest)
      else .error .outOfRange
    else .error .invalid
  | [a] => if a.utf8Size < 2 then .error .tooShort else .error .invalid
  | [] => .error .tooShort

/-- The hours and minutes of an offset, in seconds. -/
def offsetSize (cs : List Char) : Except ReadError (Nat × List Char) := do
  let (hours, cs) ← twoDigits '9' cs
  let (minutes, cs) ← twoDigits '5' (cs.dropWhile fun c => c == ':' || Text.isBlank c)
  return (hours * 3600 + minutes * 60, cs)

/-- The text in lower case, for the letters of the basic alphabet. -/
def lower (cs : List Char) : List Char := cs.map Char.toLower

/-- The offset of a zone in seconds. -/
def zone (cs : List Char) : Except ReadError (Int × List Char) :=
  if lower (cs.take 3) = ['u', 't', 'c'] then .ok (0, cs.drop 3)
  else match cs with
    | 'Z' :: rest | 'z' :: rest => .ok (0, rest)
    | '+' :: rest => (offsetSize rest).map fun (n, rest) => ((n : Int), rest)
    | '-' :: rest | '\u2212' :: rest => (offsetSize rest).map fun (n, rest) => (-(n : Int), rest)
    | [] => .error .tooShort
    | _ => .error .invalid

/-- The letter between date and time. -/
def dateTimeMark : List Char → Except ReadError (Unit × List Char)
  | [] => .error .tooShort
  | c :: rest => if c ∈ ['t', 'T', ' '] then .ok ((), rest) else .error .invalid

/-- The years that can be represented. -/
def leastYear : Int := -262143
def greatestYear : Int := 262142

/-- The instant of a text. -/
def read (text : String) : Except ReadError Instant := do
  let (year, cs) ← year text.toList
  let (_, cs) ← separator '-' cs
  let (month, cs) ← bounded 2 1 12 cs
  let (_, cs) ← separator '-' cs
  let (day, cs) ← bounded 2 1 31 cs
  let (_, cs) ← dateTimeMark cs
  let (hour, cs) ← bounded 2 0 23 cs
  let (_, cs) ← separator ':' cs
  let (minute, cs) ← bounded 2 0 59 cs
  let (_, cs) ← separator ':' cs
  let (second, cs) ← bounded 2 0 60 cs
  let (nanos, cs) ← fraction cs
  let (offset, cs) ← zone (skipBlank cs)
  if !(skipBlank cs).isEmpty then throw .tooLong
  if year < leastYear ∨ greatestYear < year then throw .outOfRange
  if daysInMonth year month < day then throw .outOfRange
  if offset.natAbs ≥ 86400 then throw .outOfRange
  let inDay := hour * 3600 + minute * 60 + min second 59
  let seconds := dayNumber year month day * 86400 + inDay - offset
  let (utcYear, _, _) := dateOf (Int.fdiv seconds 86400)
  if utcYear < leastYear ∨ greatestYear < utcYear then throw .impossible
  return ⟨seconds, nanos + if second = 60 then perSecond else 0⟩

end Instant
end MappingCanvas
