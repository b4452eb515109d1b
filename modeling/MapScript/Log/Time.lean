/-!
# Times of log lines

A time is written as date and time of day in UTC, down to the microsecond.
-/
namespace MapScript

structure CivilDate where
  year : Nat
  month : Nat
  day : Nat
deriving DecidableEq, Repr

/-- The date that lies some days after 1 January 1970. Years are counted from March here, so that a
leap day comes last, in cycles of 400 years. -/
def CivilDate.ofDays (days : Nat) : CivilDate :=
  let shifted := days + 719468
  let cycle := shifted / 146097
  let inCycle := shifted % 146097
  let year := (inCycle - inCycle / 1460 + inCycle / 36524 - inCycle / 146096) / 365
  let inYear := inCycle - (365 * year + year / 4 - year / 100)
  let month := (5 * inYear + 2) / 153
  { year := 400 * cycle + year + if month < 10 then 0 else 1
    month := if month < 10 then month + 3 else month - 9
    day := inYear - (153 * month + 2) / 5 + 1 }

/-- A number with zeros before it up to a width. -/
def zeroPadded (width n : Nat) : String :=
  let digits := toString n
  String.ofList (List.replicate (width - digits.length) '0') ++ digits

/-- The time that lies some microseconds after the start of 1970. -/
def utcText (micros : Nat) : String :=
  let seconds := micros / 1000000
  let date := CivilDate.ofDays (seconds / 86400)
  zeroPadded 4 date.year ++ "-" ++ zeroPadded 2 date.month ++ "-" ++ zeroPadded 2 date.day ++ "T" ++
    zeroPadded 2 (seconds / 3600 % 24) ++ ":" ++ zeroPadded 2 (seconds / 60 % 60) ++ ":" ++
    zeroPadded 2 (seconds % 60) ++ "." ++ zeroPadded 6 (micros % 1000000) ++ "Z"

end MapScript
