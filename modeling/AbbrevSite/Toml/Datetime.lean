/-! Dates and times of day, with or without an offset, and the text each is written as. -/
namespace AbbrevSite.Toml

structure Date where
  year : Nat
  month : Nat
  day : Nat
deriving DecidableEq, Repr

structure Time where
  hour : Nat
  minute : Nat
  second : Nat
  nanosecond : Nat
deriving DecidableEq, Repr

inductive Offset where
  | utc
  /-- Minutes ahead of UTC. -/
  | minutes (n : Int)
deriving DecidableEq, Repr

structure Datetime where
  date : Option Date
  time : Option Time
  offset : Option Offset
deriving DecidableEq, Repr

def isLeapYear (year : Nat) : Bool := year % 4 == 0 && (year % 100 != 0 || year % 400 == 0)

def daysInMonth (year month : Nat) : Nat :=
  if month = 2 then (if isLeapYear year then 29 else 28)
  else if month = 4 ∨ month = 6 ∨ month = 9 ∨ month = 11 then 30
  else 31

/-- A number with zeros in front, at least `width` digits in all. -/
def padded (width n : Nat) : String :=
  let digits := Nat.toDigits 10 n
  String.ofList (List.replicate (width - digits.length) '0' ++ digits)

def Date.render (d : Date) : String :=
  padded 4 d.year ++ "-" ++ padded 2 d.month ++ "-" ++ padded 2 d.day

/-- The fraction is written without the zeros at its end. -/
def Time.render (t : Time) : String :=
  let whole := padded 2 t.hour ++ ":" ++ padded 2 t.minute ++ ":" ++ padded 2 t.second
  if t.nanosecond = 0 then whole
  else
    let digits := (padded 9 t.nanosecond).toList.reverse.dropWhile (· == '0')
    whole ++ "." ++ String.ofList digits.reverse

def Offset.render : Offset → String
  | utc => "Z"
  | minutes n =>
    (if n < 0 then "-" else "+") ++ padded 2 (n.natAbs / 60) ++ ":" ++ padded 2 (n.natAbs % 60)

def Datetime.render (d : Datetime) : String :=
  (d.date.map Date.render).getD ""
    ++ (if d.date.isSome && d.time.isSome then "T" else "")
    ++ (d.time.map Time.render).getD ""
    ++ (d.offset.map Offset.render).getD ""

end AbbrevSite.Toml
