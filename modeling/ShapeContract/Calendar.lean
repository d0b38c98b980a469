import ShapeContract.Decimal
import ShapeContract.Double.Basic

/-!
# Dates and times

Calendar dates and times of day in the proleptic Gregorian calendar, with an optional offset from
universal time, and their ISO 8601 texts. `DateTime.epochMillis` counts milliseconds from 1970, a
time without offset being universal time.
-/

set_option autoImplicit false

namespace ShapeContract

namespace Calendar

def isLeap (y : Nat) : Bool := y % 4 = 0 && (y % 100 ≠ 0 || y % 400 = 0)

def daysInMonth (y m : Nat) : Nat :=
  if m = 2 then (if isLeap y then 29 else 28)
  else if m = 4 ∨ m = 6 ∨ m = 9 ∨ m = 11 then 30 else 31

/-- Days before the first of January of a year. -/
def daysBeforeYear (y : Nat) : Nat := (y - 1) * 365 + (y - 1) / 4 - (y - 1) / 100 + (y - 1) / 400

/-- Days of a year before the first of a month. -/
def daysBeforeMonth (y m : Nat) : Nat :=
  ((List.range 12).filter fun k => k + 1 < m).foldl (fun acc k => acc + daysInMonth y (k + 1)) 0

/-- The number of a day, the first of January of the year one being day one. -/
def ordinal (y m d : Nat) : Nat := daysBeforeYear y + daysBeforeMonth y m + d

/-- The number of the first of January 1970. -/
def epochOrdinal : Nat := 719163

def validDay (y m d : Nat) : Bool :=
  1 ≤ y && y ≤ 9999 && 1 ≤ m && m ≤ 12 && 1 ≤ d && d ≤ daysInMonth y m

/-- The month and day of the `n`th day of a year, counted from one. -/
def monthAndDay (y : Nat) : Nat → Nat → Nat → Nat × Nat
  | 0, m, n => (m, n)
  | fuel + 1, m, n =>
    if n ≤ daysInMonth y m then (m, n) else monthAndDay y fuel (m + 1) (n - daysInMonth y m)

/-- The date of a day number near the start of a given year. -/
def dateNear (y : Nat) (n : Nat) : Nat × Nat × Nat :=
  if n ≤ daysBeforeYear y then
    let r := monthAndDay (y - 1) 12 1 (n - daysBeforeYear (y - 1))
    (y - 1, r.1, r.2)
  else if n > daysBeforeYear (y + 1) then
    let r := monthAndDay (y + 1) 12 1 (n - daysBeforeYear (y + 1))
    (y + 1, r.1, r.2)
  else
    let r := monthAndDay y 12 1 (n - daysBeforeYear y)
    (y, r.1, r.2)

/-- The weekday of a day number, Monday being zero. -/
def weekday (n : Nat) : Nat := (n + 6) % 7

/-- The date of a day of an ISO week. -/
def ofWeek? (y week day : Nat) : Option (Nat × Nat × Nat) :=
  if y < 1 ∨ y > 9999 then none
  else
    let firstDay := ordinal y 1 1
    let first := weekday firstDay
    let long := first = 3 || (first = 2 && isLeap y)
    if week < 1 ∨ week > (if long then 53 else 52) then none
    else if day < 1 ∨ day > 7 then none
    else
      let monday : Int := (firstDay : Int) - first + (if first > 3 then 7 else 0)
      let n := monday + (week - 1) * 7 + (day - 1)
      if n < 1 then none else some (dateNear y n.toNat)

def pad (width n : Nat) : List Char :=
  let ds := Decimal.digits n
  List.replicate (width - ds.length) '0' ++ ds

end Calendar

open Calendar

structure Date where
  year : Nat
  month : Nat
  day : Nat
deriving DecidableEq, Repr

structure DateTime where
  date : Date
  hour : Nat
  minute : Nat
  second : Nat
  microsecond : Nat
  /-- Microseconds ahead of universal time, if the offset is known. -/
  offset : Option Int
deriving DecidableEq, Repr

namespace Date

def isoChars (d : Date) : List Char :=
  pad 4 d.year ++ '-' :: pad 2 d.month ++ '-' :: pad 2 d.day

def iso (d : Date) : String := String.ofList d.isoChars

def ordinal (d : Date) : Nat := Calendar.ordinal d.year d.month d.day

def midnight (d : Date) : DateTime := ⟨d, 0, 0, 0, 0, none⟩

end Date

namespace DateTime

def offsetChars (o : Int) : List Char :=
  let u := o.natAbs
  let seconds := u / 1000000
  let micros := u % 1000000
  let base := (if o < 0 then '-' else '+') :: pad 2 (seconds / 3600) ++
    ':' :: pad 2 (seconds / 60 % 60)
  if micros ≠ 0 then base ++ ':' :: pad 2 (seconds % 60) ++ '.' :: pad 6 micros
  else if seconds % 60 ≠ 0 then base ++ ':' :: pad 2 (seconds % 60)
  else base

/-- The ISO text with a given character between date and time. -/
def iso (sep : Char) (t : DateTime) : String :=
  let clock := pad 2 t.hour ++ ':' :: pad 2 t.minute ++ ':' :: pad 2 t.second
  let fraction := if t.microsecond = 0 then [] else '.' :: pad 6 t.microsecond
  let zone := match t.offset with
    | some o => offsetChars o
    | none => []
  String.ofList (t.date.isoChars ++ sep :: clock ++ fraction ++ zone)

/-- Microseconds of the clock since the epoch, whatever the offset. -/
def localMicros (t : DateTime) : Int :=
  ((((t.date.ordinal : Int) - epochOrdinal) * 24 + t.hour) * 60 + t.minute) * 60000000 +
    t.second * 1000000 + t.microsecond

/-- Microseconds since the epoch in universal time. -/
def micros (t : DateTime) : Int := t.localMicros - t.offset.getD 0

/-- Milliseconds since the epoch: seconds as a double, times a thousand as a double, cut to a whole. -/
def epochMillis (t : DateTime) : Int :=
  let m := t.micros
  (((Double.ofRatio (m < 0) m.natAbs 1000000).scale 1000).truncated?).getD 0

end DateTime

namespace Calendar

/-- A fixed number of ASCII digits and what follows them. -/
def takeDigits : Nat → List Char → Option (Nat × List Char)
  | count, cs =>
    let ds := cs.take count
    if ds.length = count && ds.all Decimal.isDigit then some (Decimal.value ds, cs.drop count) else none

/-- Reads the date part, which has the given length. -/
def readDate? (cs : List Char) (length : Nat) : Option Date := do
  let (y, rest) ← takeDigits 4 cs
  let (separated, rest) := match rest with
    | '-' :: r => (true, r)
    | r => (false, r)
  match rest with
  | 'W' :: r =>
    let (week, r) ← takeDigits 2 r
    let consumed := cs.length - r.length
    let day ←
      if consumed < length then
        if separated then
          match r with
          | '-' :: r2 => (takeDigits 1 r2).map (·.1)
          | _ => none
        else (takeDigits 1 r).map (·.1)
      else some 1
    let (yy, mm, dd) ← ofWeek? y week day
    if validDay yy mm dd then some ⟨yy, mm, dd⟩ else none
  | r =>
    let (m, r) ← takeDigits 2 r
    let r ←
      if separated then
        match r with
        | '-' :: r2 => some r2
        | _ => none
      else some r
    let (d, _) ← takeDigits 2 r
    if validDay y m d then some ⟨y, m, d⟩ else none

/-- Where the date part ends: the formats differ at the fifth and sixth characters. -/
def dateLength (cs : List Char) : Nat :=
  let digitAt (i : Nat) : Bool := (cs[i]?).any Decimal.isDigit
  if cs.length = 7 then 7
  else if cs[4]? = some '-' then
    if cs[5]? = some 'W' then
      if cs.length > 8 && cs[8]? = some '-' then
        (if cs.length > 10 && digitAt 10 then 8 else 10)
      else 8
    else 10
  else if cs[4]? = some 'W' then
    let pos := 7 + ((cs.drop 7).takeWhile Decimal.isDigit).length
    if pos < 9 then pos else if pos % 2 = 0 then 7 else 8
  else 8

structure Clock where
  hour : Nat
  minute : Nat
  second : Nat
  microsecond : Nat

/-- Whether the text ends here; a null character ends it too. -/
def ended : List Char → Bool
  | [] => true
  | c :: _ => c.toNat = 0

/-- A clock with one character after it: any of ASCII may stand there, left over unless it ends the
text. -/
def withLast? (clock : Clock) (c : Char) : Option (Clock × Bool) :=
  if c.toNat < 128 then some (clock, ended [c]) else none

/-- Reads the fraction of a second: at most six digits count and further ones are skipped. -/
def readFraction? (cs : List Char) : Option (Nat × List Char) := do
  let count := min 6 cs.length
  if count = 0 then none
  let (v, rest) ← takeDigits count cs
  some (v * Decimal.powerOfTen (6 - count), rest.dropWhile Decimal.isDigit)

/-- Reads the fraction of a clock; whether the text ends there. -/
def withFraction? (h m s : Nat) (cs : List Char) : Option (Clock × Bool) := do
  let (f, rest) ← readFraction? cs
  some (⟨h, m, s, f⟩, ended rest)

/-- Reads hours, minutes, seconds and fraction, separated by colons throughout or not at all. The
flag tells whether the whole text was used: one last character of ASCII, and anything after a fraction,
may be left over. -/
def readClock? (cs : List Char) : Option (Clock × Bool) := do
  let (h, rest) ← takeDigits 2 cs
  match rest with
  | [] => some (⟨h, 0, 0, 0⟩, true)
  | [c] => withLast? ⟨h, 0, 0, 0⟩ c
  | c :: more =>
    let separated := c = ':'
    if c = '.' ∨ c = ',' then withFraction? h 0 0 more
    else
      let (m, rest) ← takeDigits 2 (if separated then more else rest)
      match rest with
      | [] => some (⟨h, m, 0, 0⟩, true)
      | [c] => withLast? ⟨h, m, 0, 0⟩ c
      | c :: more =>
        if c = '.' ∨ c = ',' then withFraction? h m 0 more
        else if separated && c ≠ ':' then none
        else
          let (s, rest) ← takeDigits 2 (if separated then more else rest)
          match rest with
          | [] => some (⟨h, m, s, 0⟩, true)
          | [c] => withLast? ⟨h, m, s, 0⟩ c
          | c :: more =>
            if c = '.' ∨ c = ',' ∨ (separated && c = ':') then withFraction? h m s more
            else if separated then none
            else withFraction? h m s rest

def dayMicros : Int := 86400000000

/-- Reads an offset after its sign; it is less than a day. -/
def readOffset? (negative : Bool) (cs : List Char) : Option Int := do
  let (c, complete) ← readClock? cs
  if !complete then none
  let seconds : Int := c.hour * 3600 + c.minute * 60 + c.second
  if seconds = 0 then some 0
  else
    let o := seconds * 1000000 + c.microsecond
    if o < dayMicros then some (if negative then -o else o) else none

/-- Splits a time text at the sign or letter that begins its offset. -/
def splitZone : List Char → List Char × List Char
  | [] => ([], [])
  | c :: rest =>
    if c = '+' ∨ c = '-' ∨ c = 'Z' then ([], c :: rest)
    else
      let (a, b) := splitZone rest
      (c :: a, b)

def readTime? (date : Date) (cs : List Char) : Option DateTime := do
  let (clock, zone) := splitZone cs
  let (c, complete) ← readClock? clock
  if !complete && zone.isEmpty then none
  if c.hour > 23 ∨ c.minute > 59 ∨ c.second > 59 then none
  let moment (offset : Option Int) : DateTime :=
    ⟨date, c.hour, c.minute, c.second, c.microsecond, offset⟩
  match zone with
  | [] => some (moment none)
  | sign :: rest =>
    if sign = 'Z' then
      if ended rest then some (moment (some 0)) else none
    else
      let o ← readOffset? (sign = '-') rest
      some (moment (some o))

/-- Reads a date, alone or with one separating character and a time after it. -/
def readDateTime? (s : String) : Option DateTime := do
  let cs := s.toList
  if cs.length < 7 then none
  let n := dateLength cs
  let date ← readDate? cs n
  match cs.drop n with
  | [] => some date.midnight
  | _ :: time => readTime? date time

def readDay? (s : String) : Option Date := do
  let t ← readDateTime? s
  some t.date

end Calendar

end ShapeContract
