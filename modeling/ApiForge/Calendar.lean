/-!
Dates and times of day in universal time, and their text: a date as year, month
and day with hyphens, a time with a fraction of three, six or nine digits if it
has one. Reading accepts what is written, and a fraction of any length.
-/

namespace ApiForge.Calendar

-- =============================================================== digits

/-- The decimal digits of a number, with zeros in front up to a width. -/
def padded (width n : Nat) : List Char :=
  let digits := Nat.toDigits 10 n
  List.replicate (width - digits.length) '0' ++ digits

/-- The number that digits denote. -/
def ofDigits? (cs : List Char) : Option Nat :=
  if !cs.isEmpty && cs.all Char.isDigit then
    some (cs.foldl (fun n c => n * 10 + (c.toNat - '0'.toNat)) 0)
  else none

/-- Reads a number of exactly `width` digits; answers it and what follows. -/
def take? (width : Nat) (cs : List Char) : Option (Nat × List Char) :=
  if width ≤ cs.length then (ofDigits? (cs.take width)).map (·, cs.drop width) else none

/-- What follows a character that must stand first. -/
def skip? (c : Char) : List Char → Option (List Char)
  | d :: rest => if d = c then some rest else none
  | [] => none

-- ================================================================ dates

/-- Whether a year has a leap day. -/
def isLeap (year : Nat) : Bool :=
  year % 4 == 0 && (year % 100 != 0 || year % 400 == 0)

/-- The number of days of a month. -/
def daysIn (year month : Nat) : Nat :=
  if month == 2 then (if isLeap year then 29 else 28)
  else if [4, 6, 9, 11].contains month then 30
  else 31

/-- A day of a year from 0 to 9999. -/
structure Date where
  year : Nat
  month : Nat
  day : Nat
  year_le : year ≤ 9999 := by decide
  month_bounds : 1 ≤ month ∧ month ≤ 12 := by decide
  day_bounds : 1 ≤ day ∧ day ≤ daysIn year month := by decide
deriving DecidableEq

namespace Date

/-- The date of three numbers. -/
def ofNumbers? (year month day : Nat) : Option Date :=
  if hy : year ≤ 9999 then
    if hm : 1 ≤ month ∧ month ≤ 12 then
      if hd : 1 ≤ day ∧ day ≤ daysIn year month then
        some { year, month, day, year_le := hy, month_bounds := hm, day_bounds := hd }
      else none
    else none
  else none

/-- The characters of a date. -/
def chars (d : Date) : List Char :=
  padded 4 d.year ++ '-' :: (padded 2 d.month ++ '-' :: padded 2 d.day)

/-- The text of a date. -/
def text (d : Date) : String := String.ofList d.chars

/-- Reads a date; answers it and what follows. -/
def read? (cs : List Char) : Option (Date × List Char) := do
  let (year, cs) ← take? 4 cs
  let (month, cs) ← take? 2 (← skip? '-' cs)
  let (day, cs) ← take? 2 (← skip? '-' cs)
  return (← ofNumbers? year month day, cs)

/-- The date that a text is. -/
def ofText? (s : String) : Option Date :=
  match read? s.toList with
  | some (d, []) => some d
  | _ => none

end Date

-- ================================================================ times

/-- A moment in universal time. -/
structure Timestamp where
  date : Date
  hour : Nat
  minute : Nat
  second : Nat
  /-- Billionths of a second. -/
  nanos : Nat := 0
  hour_lt : hour < 24 := by decide
  minute_lt : minute < 60 := by decide
  second_lt : second < 60 := by decide
  nanos_lt : nanos < 1000000000 := by decide
deriving DecidableEq

namespace Timestamp

/-- The characters of a fraction of a second: as many groups of three digits as it
needs. -/
def fraction (nanos : Nat) : List Char :=
  if nanos == 0 then []
  else if nanos % 1000000 == 0 then '.' :: padded 3 (nanos / 1000000)
  else if nanos % 1000 == 0 then '.' :: padded 6 (nanos / 1000)
  else '.' :: padded 9 nanos

/-- The characters of a moment. -/
def chars (t : Timestamp) : List Char :=
  t.date.chars ++ 'T' :: (padded 2 t.hour ++ ':' :: (padded 2 t.minute ++ ':' ::
    (padded 2 t.second ++ (fraction t.nanos ++ ['Z']))))

/-- The text of a moment. -/
def text (t : Timestamp) : String := String.ofList t.chars

/-- Reads a fraction of a second; digits past the ninth are dropped. -/
def readFraction? (cs : List Char) : Option (Nat × List Char) :=
  match cs with
  | '.' :: rest =>
    let digits := rest.takeWhile Char.isDigit
    let kept := digits.take 9
    (ofDigits? (kept ++ List.replicate (9 - kept.length) '0')).bind fun n =>
      if digits.isEmpty then none else some (n, rest.dropWhile Char.isDigit)
  | cs => some (0, cs)

/-- The moment of a date and numbers. -/
def ofNumbers? (date : Date) (hour minute second nanos : Nat) : Option Timestamp :=
  if h : hour < 24 ∧ minute < 60 ∧ second < 60 ∧ nanos < 1000000000 then
    some { date, hour, minute, second, nanos, hour_lt := h.1, minute_lt := h.2.1,
           second_lt := h.2.2.1, nanos_lt := h.2.2.2 }
  else none

/-- The moment that a text is. -/
def ofText? (s : String) : Option Timestamp := do
  let (date, cs) ← Date.read? s.toList
  let (hour, cs) ← take? 2 (← skip? 'T' cs)
  let (minute, cs) ← take? 2 (← skip? ':' cs)
  let (second, cs) ← take? 2 (← skip? ':' cs)
  let (nanos, cs) ← readFraction? cs
  match ← skip? 'Z' cs with
  | [] => ofNumbers? date hour minute second nanos
  | _ => none

end Timestamp

end ApiForge.Calendar
