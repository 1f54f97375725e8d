import Vfs.Failure.Basic
import Vfs.Text.Quoted

/-!
# Points in time

A host gives times as seconds since the start of 1970 in universal time. An `Instant` counts whole
seconds and microseconds; it is written as date and time of the Gregorian calendar, for the years 1
to 9999 only.
-/

namespace Vfs

/-- Whole seconds since the start of 1970 and microseconds of the second begun. -/
structure Instant where
  seconds : Int
  micros : Nat
  deriving DecidableEq, Repr

namespace Instant

/-- The instant of a whole number of seconds. -/
def ofSeconds (n : Int) : Instant := ⟨n, 0⟩

/-- The nearest whole number, a half going to the even neighbour. -/
def nearest (x : Float) : Int :=
  let floor := x.floor
  let rest := x - floor
  let n := if floor < 0 then -Int.ofNat (-floor).toUInt64.toNat else Int.ofNat floor.toUInt64.toNat
  if rest < 0.5 then n else if rest > 0.5 then n + 1 else if n % 2 = 0 then n else n + 1

/-- The greatest number of seconds in 64 bits, one bit of which is the sign. -/
def greatestSeconds : Int := 0x7fffffffffffffff

/-- The instant nearest to a number of seconds with a fraction, a half going to the even
microsecond. The greatest number of seconds has no such form of its own, and is told by the number
after it. -/
def ofFraction (x : Float) : Instant :=
  let whole := if x < 0 then -(-x).floor else x.floor
  let micros := nearest ((x - whole) * 1000000)
  let seconds := if nearest whole = greatestSeconds + 1 then greatestSeconds else nearest whole
  if micros ≥ 1000000 then ⟨seconds + 1, (micros - 1000000).toNat⟩
  else if micros < 0 then ⟨seconds - 1, (micros + 1000000).toNat⟩
  else ⟨seconds, micros.toNat⟩

/-- Year, month and day of the day with the given number, day 0 being the first of 1970. Years are
counted from the first of March, so that a leap day ends its year. -/
def civil (day : Int) : Int × Nat × Nat :=
  let shifted := day + 719468
  let era := shifted.fdiv 146097
  let dayOfEra := (shifted - era * 146097).toNat
  let yearOfEra := (dayOfEra - dayOfEra / 1460 + dayOfEra / 36524 - dayOfEra / 146096) / 365
  let dayOfYear := dayOfEra - (365 * yearOfEra + yearOfEra / 4 - yearOfEra / 100)
  let marchMonth := (5 * dayOfYear + 2) / 153
  let dayOfMonth := dayOfYear - (153 * marchMonth + 2) / 5 + 1
  let month := if marchMonth < 10 then marchMonth + 3 else marchMonth - 9
  let year := Int.ofNat yearOfEra + era * 400 + if month ≤ 2 then 1 else 0
  (year, month, dayOfMonth)

/-- The year an instant lies in. -/
def year (t : Instant) : Int := (civil (t.seconds.fdiv 86400)).1

/-- The year in 32 bits, one bit of which is the sign: behind the greatest the years start again at
the least. -/
def wordYear (t : Instant) : Int := t.year.bmod 0x100000000

/-- The instant, if the calendar has a date for it. A host counts seconds in 64 bits and years since
1900 in 32 bits, and refuses what does not fit before the calendar is asked for the year, which has 32
bits as well. -/
def check (t : Instant) : Except Fault Instant :=
  if t.seconds < -greatestSeconds - 1 ∨ greatestSeconds < t.seconds then
    .error (.plain .overflow "timestamp out of range for platform time_t".text)
  else if t.year < 1900 - 0x80000000 ∨ 1900 + 0x80000000 ≤ t.year then
    .error (.host 75 "Value too large for defined data type".text)
  else if t.wordYear < 1 ∨ 9999 < t.wordYear then
    .error (.badValue ("year ".text ++ Text.ofInt t.wordYear ++ " is out of range".text))
  else .ok t

/-- Date, time and offset of an instant; the fraction of the second is written if there is one. -/
def render (t : Instant) : Text :=
  let day := t.seconds.fdiv 86400
  let second := (t.seconds - day * 86400).toNat
  let (year, month, dayOfMonth) := civil day
  let two := Text.padded 10 2
  Text.padded 10 4 year.toNat ++ .char '-' :: two month ++ .char '-' :: two dayOfMonth ++
    .char 'T' :: two (second / 3600) ++ .char ':' :: two (second / 60 % 60) ++ .char ':' :: two (second % 60) ++
    (if t.micros = 0 then [] else .char '.' :: Text.padded 10 6 t.micros) ++ "+00:00".text

end Instant

end Vfs
