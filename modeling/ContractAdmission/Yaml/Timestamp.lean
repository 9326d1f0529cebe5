/-!
# Timestamps

A date, alone or with a time of day and an offset from universal time, as it is
written in a document.  Reading says only whether the parts have the right form;
`Timestamp.isMoment` says whether there is such a moment.

Moments are counted from the beginning of the calendar: `Timestamp.dayNumber` in days
and `Timestamp.microseconds` in millionths of a second.
-/

namespace ContractAdmission
namespace Yaml

/-- The time of day of a timestamp. -/
structure TimeOfDay where
  hour : Nat
  minute : Nat
  second : Nat
  microsecond : Nat
  /-- The minutes by which it is ahead of universal time, if it says so. -/
  offset : Option Int
  deriving DecidableEq, Repr

/-- A timestamp as it is written. -/
structure Timestamp where
  year : Nat
  month : Nat
  day : Nat
  /-- Whether month and day have two digits each. -/
  padded : Bool
  time : Option TimeOfDay
  deriving DecidableEq, Repr

namespace Timestamp

/-- The number that decimal digits stand for. -/
def number (digits : List Char) : Nat :=
  digits.foldl (fun n c => 10 * n + (c.toNat - 0x30)) 0

/-- Digits, at least `least` and at most `most`, and what follows them. -/
def digits (least most : Nat) (text : List Char) : Option (List Char × List Char) :=
  let found := (text.take most).takeWhile Char.isDigit
  if least ≤ found.length then some (found, text.drop found.length) else none

/-- What follows a character. -/
def after (c : Char) : List Char → Option (List Char)
  | [] => none
  | first :: rest => if first = c then some rest else none

/-- What follows the separator of date and time: a letter, or blanks. -/
def afterSeparator : List Char → Option (List Char)
  | [] => none
  | c :: rest =>
      if c = 'T' ∨ c = 't' then some rest
      else if c = ' ' ∨ c = '\t' then
        some (rest.dropWhile fun c => c == ' ' || c == '\t')
      else none

/-- The millionths that the digits of a fraction stand for, if there is one, and what
follows it.  Digits after the sixth do not count. -/
def fraction : List Char → Nat × List Char
  | '.' :: rest =>
      let found := rest.takeWhile Char.isDigit
      (number ((found ++ List.replicate 6 '0').take 6), rest.drop found.length)
  | text => (0, text)

/-- An offset at the end of a text, in minutes: nothing, a letter, or a sign with hours
and perhaps minutes. -/
def offset? (text : List Char) : Option (Option Int) :=
  if text = [] then some none
  else
    match text.dropWhile fun c => c == ' ' || c == '\t' with
    | ['Z'] => some (some 0)
    | sign :: rest =>
        let signed (minutes : Nat) : Int := if sign = '-' then -minutes else minutes
        if sign = '+' ∨ sign = '-' then do
          let (hours, rest) ← digits 1 2 rest
          if rest = [] then return some (signed (60 * number hours))
          let rest ← after ':' rest
          let (minutes, rest) ← digits 2 2 rest
          if rest = [] then return some (signed (60 * number hours + number minutes)) else none
        else none
    | [] => none

/-- A time of day and the offset after it. -/
def timeOfDay? (text : List Char) : Option TimeOfDay := do
  let (hour, text) ← digits 1 2 text
  let text ← after ':' text
  let (minute, text) ← digits 2 2 text
  let text ← after ':' text
  let (second, text) ← digits 2 2 text
  let (microsecond, text) := fraction text
  let offset ← offset? text
  return ⟨number hour, number minute, number second, microsecond, offset⟩

/-- A timestamp. -/
def ofText? (text : List Char) : Option Timestamp := do
  let (year, text) ← digits 4 4 text
  let text ← after '-' text
  let (month, text) ← digits 1 2 text
  let text ← after '-' text
  let (day, text) ← digits 1 2 text
  let padded := month.length = 2 && day.length = 2
  if text = [] then
    return ⟨number year, number month, number day, padded, none⟩
  else
    let time ← timeOfDay? (← afterSeparator text)
    return ⟨number year, number month, number day, padded, some time⟩

/-- Whether a year has a twenty-ninth of February. -/
def isLeap (year : Nat) : Bool :=
  year % 4 = 0 && (year % 100 ≠ 0 || year % 400 = 0)

/-- The number of days in a month. -/
def daysIn (year month : Nat) : Nat :=
  if month = 2 then if isLeap year then 29 else 28
  else if month = 4 ∨ month = 6 ∨ month = 9 ∨ month = 11 then 30
  else 31

/-- Whether there is such a time of day.  Offsets stay below one day. -/
def timeExists (time : TimeOfDay) : Bool :=
  time.hour < 24 && time.minute < 60 && time.second < 60 &&
    match time.offset with
    | none => true
    | some minutes => minutes.natAbs < 24 * 60

/-- Whether there is such a moment. -/
def isMoment (stamp : Timestamp) : Bool :=
  1 ≤ stamp.year && 1 ≤ stamp.month && stamp.month ≤ 12 && 1 ≤ stamp.day &&
    stamp.day ≤ daysIn stamp.year stamp.month &&
    match stamp.time with
    | none => true
    | some time => timeExists time

/-- The number of days of a year before a month. -/
def daysBefore (year month : Nat) : Nat :=
  (List.range (month - 1)).foldl (fun days passed => days + daysIn year (passed + 1)) 0

/-- The number of a day, the first of the calendar being the first. -/
def dayNumber (stamp : Timestamp) : Nat :=
  let years := stamp.year - 1
  365 * years + years / 4 - years / 100 + years / 400 + daysBefore stamp.year stamp.month +
    stamp.day

/-- The millionths of a second up to a time of a day, in universal time if the offset is
known. -/
def microseconds (day : Nat) (time : TimeOfDay) : Int :=
  let minutes : Int := 60 * (24 * day + time.hour) + time.minute - time.offset.getD 0
  1000000 * (60 * minutes + time.second) + time.microsecond

end Timestamp
end Yaml
end ContractAdmission
