import TableEscrow.Text
/-!
# Instants

A point in time is a second since 1970 and the nanoseconds into it; a leap second is the second
before it with a thousand million nanoseconds more. Texts are RFC 3339 with some room: blanks
before numbers and marks, single digits, any year with a sign, any offset below a day.
-/

namespace TableEscrow

/-! ## The calendar -/

structure Date where
  year : Int
  month : Nat
  day : Nat
  deriving DecidableEq, Repr

namespace Date

def isLeapYear (year : Int) : Bool :=
  year % 4 == 0 && (year % 100 != 0 || year % 400 == 0)

def daysInMonth (year : Int) (month : Nat) : Nat :=
  if month = 2 then (if isLeapYear year then 29 else 28)
  else if month = 4 ∨ month = 6 ∨ month = 9 ∨ month = 11 then 30
  else 31

/-- Years the calendar covers. -/
def covered (year : Int) : Bool := -262143 ≤ year && year ≤ 262142

def isValid (d : Date) : Bool :=
  covered d.year && 1 ≤ d.month && d.month ≤ 12 && 1 ≤ d.day && d.day ≤ daysInMonth d.year d.month

/-- Days since 1970-01-01. Years are counted from March, so that a leap day ends its year. -/
def toDays (d : Date) : Int :=
  let year := if d.month ≤ 2 then d.year - 1 else d.year
  let era := Int.fdiv year 400
  let ofEra := year - era * 400
  let month : Int := if d.month ≤ 2 then (d.month : Int) + 9 else (d.month : Int) - 3
  let ofYear := (153 * month + 2) / 5 + d.day - 1
  era * 146097 + (ofEra * 365 + ofEra / 4 - ofEra / 100 + ofYear) - 719468

def ofDays (days : Int) : Date :=
  let shifted := days + 719468
  let era := Int.fdiv shifted 146097
  let ofEra := shifted - era * 146097
  let yearOfEra := (ofEra - ofEra / 1460 + ofEra / 36524 - ofEra / 146096) / 365
  let ofYear := ofEra - (365 * yearOfEra + yearOfEra / 4 - yearOfEra / 100)
  let month := (5 * ofYear + 2) / 153
  let day := ofYear - (153 * month + 2) / 5 + 1
  let month := if month < 10 then month + 3 else month - 9
  let year := yearOfEra + era * 400
  ⟨if month ≤ 2 then year + 1 else year, month.toNat, day.toNat⟩

end Date

/-! ## Points in time -/

structure Instant where
  /-- Since 1970-01-01T00:00:00Z. -/
  second : Int
  nano : Nat
  deriving DecidableEq, Repr

namespace Instant

/-- The date, the second of the day and the nanosecond shown at an instant. -/
def fields (t : Instant) : Date × Nat × Nat :=
  let days := Int.fdiv t.second 86400
  (Date.ofDays days, (t.second - days * 86400).toNat, t.nano)

/-- The digits after the second, as few of 0, 3, 6 and 9 as are exact. -/
def fractionText (nano : Nat) : String :=
  if nano = 0 then ""
  else if nano % 1000000 = 0 then "." ++ Text.padded 3 (nano / 1000000)
  else if nano % 1000 = 0 then "." ++ Text.padded 6 (nano / 1000)
  else "." ++ Text.padded 9 nano

def yearText (year : Int) : String :=
  if 0 ≤ year ∧ year ≤ 9999 then Text.padded 4 year.toNat
  else (if year < 0 then "-" else "+") ++ Text.padded 4 year.natAbs

/-- The text of an instant in UTC, `zone` being the way UTC is written. -/
def renderWith (zone : String) (t : Instant) : String :=
  let (date, second, nano) := t.fields
  let leap := nano / 1000000000
  yearText date.year ++ "-" ++ Text.padded 2 date.month ++ "-" ++ Text.padded 2 date.day ++ "T" ++
    Text.padded 2 (second / 3600) ++ ":" ++ Text.padded 2 (second / 60 % 60) ++ ":" ++
    Text.padded 2 (second % 60 + leap) ++ fractionText (nano % 1000000000) ++ zone

def render (t : Instant) : String := renderWith "Z" t

/-- The instant cut to microseconds, toward the year 2000. -/
def cutToMicros (t : Instant) : Instant :=
  let epoch : Int := 946684800
  let nanos : Int := (t.second - epoch) * 1000000000 + t.nano
  let micros := Int.tdiv nanos 1000
  let second := Int.fdiv micros 1000000
  ⟨epoch + second, ((micros - second * 1000000) * 1000).toNat⟩

/-! ## Reading -/

/-- A natural number of at most `width` digits. -/
def number? (width : Nat) (cs : List Char) : Option (Nat × List Char) :=
  let ds := (cs.take width).takeWhile Text.isDigit
  if ds.isEmpty then none else some (Text.natOfDecimal ds, cs.drop ds.length)

def field? (width : Nat) (cs : List Char) : Option (Nat × List Char) :=
  number? width (Text.trimStartList cs)

/-- A year: four digits at most, or any number of them after a sign. -/
def year? (cs : List Char) : Option (Int × List Char) :=
  match Text.trimStartList cs with
  | '-' :: cs => (number? cs.length cs).map fun (n, rest) => (-(n : Int), rest)
  | '+' :: cs => (number? cs.length cs).map fun (n, rest) => ((n : Int), rest)
  | cs => (number? 4 cs).map fun (n, rest) => ((n : Int), rest)

def mark? (mark : Char) (cs : List Char) : Option (List Char) :=
  match Text.trimStartList cs with
  | c :: rest => if c = mark then some rest else none
  | [] => none

/-- The nanoseconds a fraction writes; digits after the ninth do not count. -/
def fraction? : List Char → Option (Nat × List Char)
  | '.' :: cs =>
    match cs.takeWhile Text.isDigit with
    | [] => none
    | ds =>
      let kept := ds.take 9
      some (Text.natOfDecimal (kept ++ List.replicate (9 - kept.length) '0'), cs.drop ds.length)
  | cs => some (0, cs)

/-- The seconds a zone is ahead of UTC: `Z`, `UTC`, or hours and minutes with a sign. -/
def zone? (cs : List Char) : Option (Int × List Char) :=
  if (cs.take 3).map Char.toLower = ['u', 't', 'c'] then some (0, cs.drop 3)
  else
    match cs with
    | 'Z' :: rest | 'z' :: rest => some (0, rest)
    | '+' :: rest => offset? 1 rest
    | '-' :: rest | '\u2212' :: rest => offset? (-1) rest
    | _ => none
where
  two? : List Char → Option (Nat × List Char)
    | a :: b :: rest =>
      if Text.isDigit a && Text.isDigit b then some (Text.natOfDecimal [a, b], rest) else none
    | _ => none
  offset? (sign : Int) (cs : List Char) : Option (Int × List Char) := do
    let (hours, rest) ← two? cs
    let (minutes, rest) ← two? (rest.dropWhile fun c => c = ':' || Text.isBlank c)
    if minutes < 60 ∧ hours < 24 then some (sign * (hours * 3600 + minutes * 60 : Nat), rest)
    else none

def ofText? (s : String) : Option Instant := do
  let (year, cs) ← year? s.toList
  let cs ← mark? '-' cs
  let (month, cs) ← field? 2 cs
  let cs ← mark? '-' cs
  let (day, cs) ← field? 2 cs
  let cs ← match cs with
    | 'T' :: cs | 't' :: cs | ' ' :: cs => some cs
    | _ => none
  let (hour, cs) ← field? 2 cs
  let cs ← mark? ':' cs
  let (minute, cs) ← field? 2 cs
  let cs ← mark? ':' cs
  let (second, cs) ← field? 2 cs
  let (nano, cs) ← fraction? cs
  let (ahead, cs) ← zone? (Text.trimStartList cs)
  let date : Date := ⟨year, month, day⟩
  if !date.isValid || 24 ≤ hour || 60 ≤ minute || 61 ≤ second || !cs.all Text.isBlank then none
  else
    let leap := second / 60
    let ofDay : Nat := hour * 3600 + minute * 60 + (second - leap)
    let t : Instant := ⟨date.toDays * 86400 + ofDay - ahead, nano + leap * 1000000000⟩
    if Date.covered t.fields.1.year then some t else none

end Instant

end TableEscrow
