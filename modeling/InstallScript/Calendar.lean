/-!
Days and moments of the calendar, checked when they are made from numbers. They can be written in two
ways, bare and as messages show values, and compared; a moment that says how far its clock is ahead of
universal time is compared by universal time.
-/

namespace InstallScript

/-- A day. -/
structure Date where
  year : Nat
  month : Nat
  day : Nat
  deriving DecidableEq, Repr

/-- A moment on some clock. -/
structure Moment where
  date : Date
  hour : Nat
  minute : Nat
  second : Nat
  microsecond : Nat
  /-- By how many minutes the clock is ahead of universal time, if that is known. -/
  offset : Option Int
  deriving DecidableEq, Repr

/-- Numbers that are no day or moment. -/
inductive CalendarFault
  | year (number : Nat)
  | month
  | day
  | hour
  | minute
  | second
  /-- A clock is ahead of universal time, or behind it, by a day or more. -/
  | offset (minutes : Int)
  deriving DecidableEq, Repr

/-! ## Making days and moments -/

/-- The number of days of a month. -/
def daysIn (year month : Nat) : Nat :=
  if month = 2 then
    if year % 4 = 0 ∧ (year % 100 ≠ 0 ∨ year % 400 = 0) then 29 else 28
  else if month = 4 ∨ month = 6 ∨ month = 9 ∨ month = 11 then 30 else 31

/-- Every month has days. -/
theorem daysIn_pos (year month : Nat) : 0 < daysIn year month := by
  unfold daysIn
  split
  · split <;> decide
  · split <;> decide

/-- The day of a year, a month and the day in it, all counted from 1. -/
def Date.ofParts (year month day : Nat) : Except CalendarFault Date :=
  if year = 0 ∨ 9999 < year then .error (.year year)
  else if month = 0 ∨ 12 < month then .error .month
  else if day = 0 ∨ daysIn year month < day then .error .day
  else .ok ⟨year, month, day⟩

/-- A day that is made from numbers has just these. -/
theorem Date.eq_of_ofParts {year month day : Nat} {d : Date}
    (h : Date.ofParts year month day = .ok d) : d = ⟨year, month, day⟩ := by
  unfold Date.ofParts at h
  split at h
  · cases h
  · split at h
    · cases h
    · split at h
      · cases h
      · exact (Except.ok.inj h).symm

/-- The moment of a day and a time. The clock is looked at before the day, and the day before the
time. -/
def Moment.ofParts (year month day hour minute second microsecond : Nat) (offset : Option Int) :
    Except CalendarFault Moment := do
  if let some minutes := offset then
    if minutes ≤ -1440 ∨ 1440 ≤ minutes then throw (.offset minutes)
  let date ← Date.ofParts year month day
  if 23 < hour then throw .hour
  if 59 < minute then throw .minute
  if 59 < second then throw .second
  return ⟨date, hour, minute, second, microsecond, offset⟩

/-! ## Texts -/

/-- A number with zeros in front, up to the given width. -/
def padded (width n : Nat) : String :=
  let digits := toString n
  String.ofList (List.replicate (width - digits.length) '0') ++ digits

/-- A day as bare text. -/
def Date.plain (d : Date) : String :=
  s!"{padded 4 d.year}-{padded 2 d.month}-{padded 2 d.day}"

/-- A day as messages show it. -/
def Date.shown (d : Date) : String := s!"datetime.date({d.year}, {d.month}, {d.day})"

/-- A length of time in minutes as messages show it: in whole days, rounded down, and seconds. -/
def shownLength (minutes : Int) : String :=
  let days := minutes.fdiv 1440
  let seconds := minutes.fmod 1440 * 60
  let parts := (if days = 0 then [] else [s!"days={days}"]) ++
    (if seconds = 0 then [] else [s!"seconds={seconds}"])
  let list := if parts.isEmpty then "0" else ", ".intercalate parts
  s!"datetime.timedelta({list})"

/-- The offset of a clock as bare text. -/
def plainOffset (minutes : Int) : String :=
  let sign := if minutes < 0 then "-" else "+"
  s!"{sign}{padded 2 (minutes.natAbs / 60)}:{padded 2 (minutes.natAbs % 60)}"

/-- The offset of a clock as messages show it. -/
def shownOffset (minutes : Int) : String :=
  if minutes = 0 then "datetime.timezone.utc" else s!"datetime.timezone({shownLength minutes})"

/-- A moment as bare text. -/
def Moment.plain (m : Moment) : String :=
  let time := s!"{padded 2 m.hour}:{padded 2 m.minute}:{padded 2 m.second}"
  let fraction := if m.microsecond = 0 then "" else "." ++ padded 6 m.microsecond
  let offset := match m.offset with
    | some minutes => plainOffset minutes
    | none => ""
  s!"{m.date.plain} {time}{fraction}{offset}"

/-- A moment as messages show it. Seconds are left out when nothing follows the minute. -/
def Moment.shown (m : Moment) : String :=
  let fields := [m.date.year, m.date.month, m.date.day, m.hour, m.minute] ++
    (if m.microsecond = 0 then if m.second = 0 then [] else [m.second]
      else [m.second, m.microsecond])
  let offset := match m.offset with
    | some minutes => [s!"tzinfo={shownOffset minutes}"]
    | none => []
  let list := ", ".intercalate (fields.map toString ++ offset)
  s!"datetime.datetime({list})"

/-- The wording of a fault. -/
def CalendarFault.message : CalendarFault → String
  | .year n => s!"year {n} is out of range"
  | .month => "month must be in 1..12"
  | .day => "day is out of range for month"
  | .hour => "hour must be in 0..23"
  | .minute => "minute must be in 0..59"
  | .second => "second must be in 0..59"
  | .offset minutes =>
    "offset must be a timedelta strictly between -timedelta(hours=24) and timedelta(hours=24), " ++
      s!"not {shownLength minutes}."

/-! ## Order -/

/-- The number of days from the beginning of the calendar to a day. -/
def Date.dayNumber (d : Date) : Nat :=
  let years := d.year - 1
  let months := (List.range (d.month - 1)).map fun m => daysIn d.year (m + 1)
  years * 365 + years / 4 - years / 100 + years / 400 + months.foldl (· + ·) 0 + d.day

/-- The number of microseconds from the beginning of the calendar to a moment, in universal time if
that can be told. -/
def Moment.instant (m : Moment) : Int :=
  let minutes : Int := (m.date.dayNumber * 24 + m.hour) * 60 + m.minute
  ((minutes - m.offset.getD 0) * 60 + m.second) * 1000000 + m.microsecond

/-- Whether two moments can be compared: both tell universal time, or neither does. -/
def Moment.comparable (a b : Moment) : Bool := a.offset.isSome == b.offset.isSome

end InstallScript
