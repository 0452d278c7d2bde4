import WolfCert.Http.Fields

/-!
# Retry-After

The delay in seconds or the HTTP-date of RFC 9110, as seconds to wait.
-/

namespace WolfCert.Http

open WolfCert.CLib

def maxRetryAfter : Int := 86400

/-- 2026-01-01 00:00:00 UTC; an earlier clock is one not yet set. -/
def clockFloor : Int := 1767225600

def takeDigits (p : Bytes) (min max : Nat) : Option (Int × Bytes) :=
  let digits := (p.take max).takeWhile isDigit
  if digits.length < min then none
  else some (digitsValue digits, p.drop digits.length)

def takeChar (c : UInt8) (p : Bytes) : Option Bytes :=
  if charAt p = c then some p.tail else none

def months : List Bytes :=
  [ascii "Jan", ascii "Feb", ascii "Mar", ascii "Apr", ascii "May", ascii "Jun",
    ascii "Jul", ascii "Aug", ascii "Sep", ascii "Oct", ascii "Nov", ascii "Dec"]

def takeMonth (p : Bytes) : Option (Int × Bytes) :=
  let i := months.findIdx fun month => month.isPrefixOf p
  if i < 12 then some (i + 1, p.drop 3) else none

def takeTimeOfDay (p : Bytes) : Option (Int × Bytes) := do
  let (h, p) ← takeDigits p 2 2
  let p ← takeChar 58 p
  let (m, p) ← takeDigits p 2 2
  let p ← takeChar 58 p
  let (sec, p) ← takeDigits p 2 2
  if h > 23 ∨ m > 59 ∨ sec > 60 then none
  else some (h * 3600 + m * 60 + sec, p)

/-- Seconds since 1970-01-01 00:00:00 UTC; the divisions truncate as in C. -/
def dateToUnixTime (year mon day tod : Int) : Int :=
  let y := year - if mon ≤ 2 then 1 else 0
  let era := (if y ≥ 0 then y else y - 399).tdiv 400
  let yoe := y - era * 400
  let doy := (153 * (mon + if mon > 2 then -3 else 9) + 2).tdiv 5 + day - 1
  (era * 146097 + yoe * 365 + yoe.tdiv 4 - yoe.tdiv 100 + doy - 719468) * 86400 + tod

def monthDays : List Int := [31, 29, 31, 30, 31, 30, 31, 31, 30, 31, 30, 31]

structure HttpDate where
  day : Int
  mon : Int
  year : Int
  tod : Int
  twoDigit : Bool
deriving DecidableEq, Repr

/-- The `IMF-fixdate` and `rfc850-date` forms after the comma. -/
def takeCommaDate (p : Bytes) : Option HttpDate := do
  let (day, p) ← takeDigits p 2 2
  let (mon, year, twoDigit, p) ←
    if charAt p = 32 then do
      let (mon, p) ← takeMonth p.tail
      let p ← takeChar 32 p
      let (year, p) ← takeDigits p 4 4
      some (mon, year, false, p)
    else if charAt p = 45 then do
      let (mon, p) ← takeMonth p.tail
      let p ← takeChar 45 p
      let (year, p) ← takeDigits p 2 2
      some (mon, year, true, p)
    else none
  let p ← takeChar 32 p
  let (tod, p) ← takeTimeOfDay p
  if (ascii " GMT").isPrefixOf p && onlyOws (p.drop 4) then
    some { day, mon, year, tod, twoDigit }
  else none

/-- The `asctime-date` form after the day name. -/
def takeAsctimeDate (p : Bytes) : Option HttpDate := do
  let (mon, p) ← takeMonth p
  let p ← takeChar 32 p
  let p := if charAt p = 32 then p.tail else p
  let (day, p) ← takeDigits p 1 2
  let p ← takeChar 32 p
  let (tod, p) ← takeTimeOfDay p
  let p ← takeChar 32 p
  let (year, p) ← takeDigits p 4 4
  if onlyOws p then some { day, mon, year, tod, twoDigit := false } else none

/-- Every turn of the century loop moves the date past at least one more second of the clock. -/
def advanceCentury (mon day tod now : Int) : Nat → Int → Int
  | 0, year => year
  | fuel + 1, year =>
      if dateToUnixTime (year + 50) mon day tod ≤ now then
        advanceCentury mon day tod now fuel (year + 100)
      else year

def isAlpha (c : UInt8) : Bool :=
  (65 ≤ c && c ≤ 90) || (97 ≤ c && c ≤ 122)

def takeHttpDate (s : Bytes) : Option HttpDate :=
  let p := s.dropWhile isAlpha
  if charAt p = 44 ∧ charAt p.tail = 32 then takeCommaDate (p.drop 2)
  else if charAt p = 32 then takeAsctimeDate p.tail
  else none

def httpDateToUnixTime (s : Bytes) (now : Int) : Option Int := do
  let date ← takeHttpDate s
  let year :=
    if date.twoDigit then
      advanceCentury date.mon date.day date.tod now (now.toNat + 1) (date.year + 1900)
    else date.year
  let leap := decide (year.tmod 4 = 0 ∧ year.tmod 100 ≠ 0 ∨ year.tmod 400 = 0)
  if date.day < 1 ∨ date.day > monthDays.getD (date.mon.toNat - 1) 0 ∨
      (date.mon = 2 ∧ date.day = 29 ∧ leap = false) then none
  else some (dateToUnixTime year date.mon date.day date.tod)

def delaySeconds : Bytes → Int → Int × Bytes
  | c :: rest, delay =>
      if isDigit c then
        delaySeconds rest (if delay ≤ maxRetryAfter then delay * 10 + (c.toNat - 48 : Nat) else delay)
      else (delay, c :: rest)
  | [], delay => (delay, [])

def parseRetryAfter (v : Bytes) (now : Int) : Int :=
  let delay :=
    if isDigit (charAt v) then
      let (delay, rest) := delaySeconds v 0
      if onlyOws rest then delay else 0
    else
      match (if now ≥ clockFloor then httpDateToUnixTime v now else none) with
      | some time => if time ≥ 0 then time - now else 0
      | none => 0
  if delay ≤ 0 then 0
  else if delay > maxRetryAfter then maxRetryAfter
  else delay

example : parseRetryAfter (ascii "120 ") 0 = 120 := by decide
example : httpDateToUnixTime (ascii "Sun, 06 Nov 1994 08:49:37 GMT") 0 = some 784111777 := by decide
example : httpDateToUnixTime (ascii "Sunday, 06-Nov-94 08:49:37 GMT") 1767225600 =
    some 784111777 := by decide +kernel
example : httpDateToUnixTime (ascii "Sun Nov  6 08:49:37 1994") 0 = some 784111777 := by decide

end WolfCert.Http
