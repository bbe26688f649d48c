import GeoRisk.Text.Normalise

/-!
# Dates and times

A `Date` is the number of days since 1970-01-01 in the proleptic Gregorian calendar, a `DateTime`
(always timezone-aware in the code) the number of microseconds since 1970-01-01T00:00Z.

* `Date.ofCivil`, `Date.civil`   year, month and day to and from the day number;
* `Date.isoformat`               `date.isoformat`;
* `Date.fromisoformat`           `date.fromisoformat`: `YYYY-MM-DD`, `YYYYMMDD` and the two week
                                 forms with or without a day;
* `DateTime.date`                the UTC date of an instant;
* `Timestamp`                    an instant with the offset its source stated, and its
                                 `isoformat`.
-/

namespace GeoRisk
open Kit

structure Date where
  ordinal : Int
  deriving DecidableEq, Repr

structure DateTime where
  micros : Int
  deriving DecidableEq, Repr

namespace DateTime

instance : LT DateTime := ⟨fun a b => a.micros < b.micros⟩
instance : LE DateTime := ⟨fun a b => a.micros ≤ b.micros⟩
instance (a b : DateTime) : Decidable (a < b) := inferInstanceAs (Decidable (a.micros < b.micros))
instance (a b : DateTime) : Decidable (a ≤ b) := inferInstanceAs (Decidable (a.micros ≤ b.micros))

def microsPerSecond : Int := 1000000
def microsPerDay : Int := 86400 * microsPerSecond

/-- `max` of two instants -/
def latest (a b : DateTime) : DateTime := if a < b then b else a

theorem latest_cases (a b : DateTime) : latest a b = a ∨ latest a b = b := by
  unfold latest
  split
  · exact Or.inr rfl
  · exact Or.inl rfl

theorem le_latest_left (a b : DateTime) : a ≤ latest a b := by
  unfold latest
  split
  · next h => exact Int.le_of_lt h
  · exact Int.le_refl _

theorem le_latest_right (a b : DateTime) : b ≤ latest a b := by
  unfold latest
  split
  · exact Int.le_refl _
  · next h => exact Int.not_lt.mp h

/-- `abs(a - b)` in microseconds -/
def distance (a b : DateTime) : Nat := (a.micros - b.micros).natAbs

def addSeconds (a : DateTime) (s : Nat) : DateTime := ⟨a.micros + s * microsPerSecond⟩

theorem addSeconds_mono {a b : DateTime} (h : a ≤ b) (s : Nat) : a.addSeconds s ≤ b.addSeconds s :=
  Int.add_le_add_right h _

theorem le_addSeconds (a : DateTime) (s : Nat) : a ≤ a.addSeconds s := by
  show a.micros ≤ a.micros + s * microsPerSecond
  unfold microsPerSecond
  omega

protected theorem le_trans {a b c : DateTime} (h : a ≤ b) (k : b ≤ c) : a ≤ c := Int.le_trans h k

/-- `datetime.date()` of an aware UTC instant -/
def date (a : DateTime) : Date := ⟨a.micros / microsPerDay⟩

/-- midnight UTC of the day of the instant -/
def startOfDay (a : DateTime) : DateTime := ⟨a.micros / microsPerDay * microsPerDay⟩

end DateTime

namespace Date

def isLeap (y : Int) : Bool := decide (y % 4 = 0) && (decide (y % 100 ≠ 0) || decide (y % 400 = 0))

def daysInMonth (y m : Int) : Int :=
  if m = 2 then (if isLeap y then 29 else 28)
  else if m = 4 ∨ m = 6 ∨ m = 9 ∨ m = 11 then 30 else 31

/-- day number of a year, month and day -/
def ofCivil (y m d : Int) : Date :=
  let y := if m ≤ 2 then y - 1 else y
  let era := y / 400
  let yoe := y - era * 400
  let doy := (153 * (if m > 2 then m - 3 else m + 9) + 2) / 5 + d - 1
  let doe := yoe * 365 + yoe / 4 - yoe / 100 + doy
  ⟨era * 146097 + doe - 719468⟩

/-- year, month and day of a day number -/
def civil (t : Date) : Int × Int × Int :=
  let z := t.ordinal + 719468
  let era := z / 146097
  let doe := z - era * 146097
  let yoe := (doe - doe / 1460 + doe / 36524 - doe / 146096) / 365
  let doy := doe - (365 * yoe + yoe / 4 - yoe / 100)
  let mp := (5 * doy + 2) / 153
  let d := doy - (153 * mp + 2) / 5 + 1
  let m := if mp < 10 then mp + 3 else mp - 9
  (if m ≤ 2 then yoe + era * 400 + 1 else yoe + era * 400, m, d)

def digitChar (n : Nat) : Char := Char.ofNat (48 + n % 10)

/-- the last `k` decimal digits -/
def digits : Nat → Nat → Text
  | 0, _ => []
  | k + 1, n => digits k (n / 10) ++ [digitChar n]

/-- `date.isoformat` -/
def isoformat (t : Date) : Text :=
  let (y, m, d) := t.civil
  digits 4 y.toNat ++ ['-'] ++ digits 2 m.toNat ++ ['-'] ++ digits 2 d.toNat

/-- `int` of ASCII digits -/
def number (s : Text) : Option Int :=
  s.foldl (fun n c => n.bind fun n =>
    if '0' ≤ c ∧ c ≤ '9' then some (n * 10 + (c.toNat - 48 : Nat)) else none) (some 0)

def isoWeek1Monday (y : Int) : Int :=
  let first := (ofCivil y 1 1).ordinal
  -- 1970-01-01 was a Thursday; weekdays count from Monday = 0
  let weekday := (first + 3) % 7
  if weekday > 3 then first - weekday + 7 else first - weekday

def ofIsoWeek (y w d : Int) : Option Date :=
  let thursdayFirst := decide (((ofCivil y 1 1).ordinal + 3) % 7 = 3)
  let wednesdayFirst := decide (((ofCivil y 1 1).ordinal + 3) % 7 = 2)
  let long := thursdayFirst || (wednesdayFirst && isLeap y)
  if 1 ≤ w ∧ (w ≤ 52 ∨ (w = 53 ∧ long)) ∧ 1 ≤ d ∧ d ≤ 7 then
    some ⟨isoWeek1Monday y + (w - 1) * 7 + (d - 1)⟩
  else none

def checked (y m d : Int) : Option Date :=
  if 1 ≤ y ∧ y ≤ 9999 ∧ 1 ≤ m ∧ m ≤ 12 ∧ 1 ≤ d ∧ d ≤ daysInMonth y m then some (ofCivil y m d)
  else none

/-- `date.fromisoformat` -/
def fromisoformat (s : Text) : Option Date :=
  if s.length ≠ 7 ∧ s.length ≠ 8 ∧ s.length ≠ 10 then none
  else do
    let y ← number (s.take 4)
    let sep := s[4]? = some '-'
    let pos := if sep then 5 else 4
    if s[pos]? = some 'W' then
      let w ← number (slice s (pos + 1) (pos + 3))
      let rest := s.drop (pos + 3)
      if rest = [] then if 1 ≤ y then ofIsoWeek y w 1 else none
      else if decide (rest.head? = some '-') = decide sep then
        let tail := if sep then rest.drop 1 else rest
        if tail.length = 1 ∧ 1 ≤ y then ofIsoWeek y w (← number tail) else none
      else none
    else if s.length = 7 then none
    else
      let m ← number (slice s pos (pos + 2))
      let rest := s.drop (pos + 2)
      if decide (rest.head? = some '-') = decide sep then
        let d ← number (if sep then rest.drop 1 else rest)
        checked y m d
      else none

example : (ofCivil 2026 9 1).isoformat = txt "2026-09-01" := by decide

example : fromisoformat (txt "2026-09-01") = some (ofCivil 2026 9 1) := by decide

end Date

/-- an aware `datetime` as a publisher wrote it: the instant and the offset from UTC in seconds -/
structure Timestamp where
  instant : DateTime
  offset : Int
  deriving DecidableEq, Repr

namespace Timestamp

/-- `HH:MM`, or `HH:MM:SS` when `withSeconds` -/
def clock (seconds : Nat) (withSeconds : Bool) : Text :=
  Date.digits 2 (seconds / 3600) ++ [':'] ++ Date.digits 2 (seconds / 60 % 60) ++
    if withSeconds then [':'] ++ Date.digits 2 (seconds % 60) else []

/-- `datetime.isoformat` -/
def isoformat (t : Timestamp) : Text :=
  let wall : DateTime := ⟨t.instant.micros + t.offset * DateTime.microsPerSecond⟩
  let inDay := (wall.micros % DateTime.microsPerDay).toNat
  let fraction := inDay % 1000000
  wall.date.isoformat ++ ['T'] ++ clock (inDay / 1000000) true ++
    (if fraction = 0 then [] else ['.'] ++ Date.digits 6 fraction) ++
    [if t.offset < 0 then '-' else '+'] ++
    clock t.offset.natAbs (decide (t.offset.natAbs % 60 ≠ 0))

example : isoformat ⟨⟨0⟩, -3600⟩ = txt "1969-12-31T23:00:00-01:00" := by decide

end Timestamp

end GeoRisk
