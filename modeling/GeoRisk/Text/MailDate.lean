import GeoRisk.Text.Number

/-!
# Dates of mail and HTTP headers

`email.utils.parsedate_to_datetime`: a lenient reading of the date forms of RFC 822, RFC 850 and
`asctime`, word by word.

* `parsedateTz`            `_parsedate_tz`: the numbers of the date and the offset of its zone;
* `parsedateToDatetime`    the `datetime` of these numbers.

Numbers that are no date raise `ValueError`; `parsedateToDatetime_overflow` says which of them raise
`OverflowError`.
-/

namespace GeoRisk
open Kit

/-- what the standard library raises -/
inductive LibraryError
  | valueError
  | overflowError
  deriving DecidableEq, Repr

/-- the names of the days; `asciiLower` is enough to compare with them -/
def dayNames : List Text :=
  [txt "mon", txt "tue", txt "wed", txt "thu", txt "fri", txt "sat", txt "sun"]

def monthNames : List Text :=
  [txt "jan", txt "feb", txt "mar", txt "apr", txt "may", txt "jun", txt "jul", txt "aug",
    txt "sep", txt "oct", txt "nov", txt "dec", txt "january", txt "february", txt "march",
    txt "april", txt "may", txt "june", txt "july", txt "august", txt "september", txt "october",
    txt "november", txt "december"]

/-- the named zones, with hours and minutes in one number, as in `-0500` -/
def timezones : List (Text × Int) :=
  [(txt "UT", 0), (txt "UTC", 0), (txt "GMT", 0), (txt "Z", 0), (txt "AST", -400),
    (txt "ADT", -300), (txt "EST", -500), (txt "EDT", -400), (txt "CST", -600), (txt "CDT", -500),
    (txt "MST", -700), (txt "MDT", -600), (txt "PST", -800), (txt "PDT", -700)]

/-- the upper case of a character where that is in ASCII, as the names of the zones are -/
def upperChar (c : Char) : Text :=
  if 'a' ≤ c ∧ c ≤ 'z' then [Char.ofNat (c.toNat - 32)]
  else match c.toNat with
    | 0xDF => txt "SS"
    | 0x131 => txt "I"
    | 0x17F => txt "S"
    | 0xFB00 => txt "FF"
    | 0xFB01 => txt "FI"
    | 0xFB02 => txt "FL"
    | 0xFB03 => txt "FFI"
    | 0xFB04 => txt "FFL"
    | 0xFB05 => txt "ST"
    | 0xFB06 => txt "ST"
    | _ => [c]

/-- the day, month, year, time and zone of a date, each a word -/
structure DateWords where
  dd : Text
  mm : Text
  yy : Text
  tm : Text
  tz : Text

/-- without the name of the day, with or without a space after its comma -/
def dropDayName : List Text → List Text
  | [] => []
  | d :: data =>
    if d.getLast? = some ',' ∨ d.map asciiLower ∈ dayNames then data
    else d.rtakeWhile (· ≠ ',') :: data

/-- the form of RFC 850: `06-Nov-94` -/
def splitDashes (data : List Text) : List Text :=
  match data with
  | [d, tm, tz] =>
    match d.splitOn '-' with
    | [dd, mm, yy] => [dd, mm, yy, tm, tz]
    | _ => data
  | _ => data

/-- a zone may stand right after the time, or be missing -/
def splitZone (data : List Text) : List Text :=
  match data with
  | [dd, mm, yy, s] =>
    match (s.idxOf? '+').or (s.idxOf? '-') with
    | some (i + 1) => [dd, mm, yy, s.take (i + 1), s.drop (i + 1)]
    | _ => [dd, mm, yy, s, []]
  | _ => data

def dateWords (data : Text) : Option DateWords :=
  match splitZone (splitDashes (dropDayName (pieces isSpace data))) with
  | dd :: mm :: yy :: tm :: tz :: _ =>
    if dd = [] ∨ mm = [] ∨ yy = [] then none else some ⟨dd, mm, yy, tm, tz⟩
  | _ => none

def monthIndex (mm : Text) : Option Nat := (monthNames.idxOf? mm).map (· % 12 + 1)

/-- day and month, which may come in either order -/
def dayMonth (dd mm : Text) : Option (Text × Nat) :=
  let lower := mm.map asciiLower
  match monthIndex lower with
  | some m => some (dd, m)
  | none => (monthIndex (dd.map asciiLower)).map fun m => (lower, m)

def dropComma (s : Text) : Text := if s.getLast? = some ',' then s.dropLast else s

/-- hours, minutes and seconds -/
def clockWords (tm : Text) : Option (Text × Text × Text) :=
  match tm.splitOn ':' with
  | [thh, tmm] => some (thh, tmm, ['0'])
  | [thh, tmm, tss] => some (thh, tmm, tss)
  | [tm] =>
    match tm.splitOn '.' with
    | [thh, tmm] => some (thh, tmm, ['0'])
    | [thh, tmm, tss] => some (thh, tmm, tss)
    | _ => none
  | _ => none

/-- the offset of a zone in seconds; `-0000` is no zone -/
def zoneOffset (tz : Text) : Option Int :=
  let tz := tz.flatMap upperChar
  let hundreds :=
    match timezones.lookup tz with
    | some n => some n
    | none => (parseInt tz).filter fun n => !(n = 0 && tz.head? = some '-')
  hundreds.map fun n => n.sign * (n.natAbs / 100 * 3600 + n.natAbs % 100 * 60 : Nat)

/-- the century of a year of two digits -/
def fullYear (yy : Int) : Int :=
  if yy < 100 then (if 68 < yy then yy + 1900 else yy + 2000) else yy

structure ParsedDate where
  year : Int
  month : Int
  day : Int
  hour : Int
  minute : Int
  second : Int
  tz : Option Int
  deriving DecidableEq, Repr

/-- `_parsedate_tz` -/
def parsedateTz (data : Text) : Option ParsedDate := do
  let w ← dateWords data
  let (dd, month) ← dayMonth w.dd w.mm
  -- a time may stand before the year, and a zone too
  let swapped := ((w.yy.idxOf? ':').filter (0 < ·)).isSome
  let (yy, tm) := if swapped then (w.tm, w.yy) else (w.yy, w.tm)
  let yy := dropComma yy
  let (yy, tz) := if isDigit (← yy.head?) then (yy, w.tz) else (w.tz, yy)
  let (thh, tmm, tss) ← clockWords (dropComma tm)
  let year ← parseInt yy
  let day ← parseInt (dropComma dd)
  let hour ← parseInt thh
  let minute ← parseInt tmm
  let second ← parseInt tss
  some ⟨fullYear year, month, day, hour, minute, second, zoneOffset tz⟩

/-- a `datetime` of whole seconds: what the clock on the wall shows, in seconds since the epoch, and
the offset of its zone if it has one -/
structure WallTime where
  seconds : Int
  tzinfo : Option Int
  deriving DecidableEq, Repr

/-- `timezone(timedelta(seconds=tz))` -/
def timezone (tz : Int) : Except LibraryError Int :=
  if 999999999 < (tz / 86400).natAbs then .error .overflowError
  else if tz.natAbs < 86400 then .ok tz
  else .error .valueError

/-- the number fits a machine integer -/
def fitsInt (n : Int) : Bool := decide (-2 ^ 31 ≤ n) && decide (n < 2 ^ 31)

def ParsedDate.fits (d : ParsedDate) : Bool :=
  [d.year, d.month, d.day, d.hour, d.minute, d.second].all fitsInt

/-- `datetime(year, month, day, hour, minute, second, tzinfo=tzinfo)` -/
def datetime (d : ParsedDate) (tzinfo : Option Int) : Except LibraryError WallTime :=
  if !d.fits then .error .overflowError
  else
    match Date.checked d.year d.month d.day with
    | none => .error .valueError
    | some date =>
      if 0 ≤ d.hour ∧ d.hour < 24 ∧ 0 ≤ d.minute ∧ d.minute < 60 ∧ 0 ≤ d.second ∧ d.second < 60 then
        .ok ⟨date.ordinal * 86400 + d.hour * 3600 + d.minute * 60 + d.second, tzinfo⟩
      else .error .valueError

def parsedateToDatetime (data : Text) : Except LibraryError WallTime :=
  match parsedateTz data with
  | none => .error .valueError
  | some d => do
    match d.tz with
    | none => datetime d none
    | some tz =>
      let tzinfo ← timezone tz
      datetime d (some tzinfo)

/-- the numbers are too large: the offset for a `timedelta`, or, where the offset is that of a zone,
another number for a machine integer -/
def ParsedDate.TooLarge (d : ParsedDate) : Prop :=
  (∃ tz, d.tz = some tz ∧ 999999999 < (tz / 86400).natAbs) ∨
    (d.fits = false ∧ ∀ tz, d.tz = some tz → tz.natAbs < 86400)

theorem datetime_overflow {d : ParsedDate} {tzinfo : Option Int} :
    datetime d tzinfo = .error .overflowError ↔ d.fits = false := by
  unfold datetime
  cases d.fits with
  | false => simp
  | true =>
    simp only [Bool.not_true, Bool.false_eq_true, if_false, reduceCtorEq, iff_false]
    split
    · simp
    · split <;> simp

/-- **The date overflows exactly where its numbers are too large.** -/
theorem parsedateToDatetime_overflow {data : Text} :
    parsedateToDatetime data = .error .overflowError ↔
      ∃ d, parsedateTz data = some d ∧ d.TooLarge := by
  unfold parsedateToDatetime
  cases parsedateTz data with
  | none => simp
  | some d =>
    simp only [Option.some.injEq, exists_eq_left', ParsedDate.TooLarge]
    cases htz : d.tz with
    | none => simp [datetime_overflow]
    | some tz =>
      simp only [Option.some.injEq, exists_eq_left', forall_eq', timezone]
      split
      · next h => simp [h, bind, Except.bind]
      · next h =>
        split
        · next hz => simp [h, hz, bind, Except.bind, datetime_overflow]
        · next hz => simp [h, hz, bind, Except.bind]

end GeoRisk
