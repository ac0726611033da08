import StaticPreview.Text.Digits
import StaticPreview.Text.Reader
import StaticPreview.Toml.Value

/-! # Dates and times of a configuration file

A date has to be in the calendar. A second may be a leap second; hours and minutes stop at 23 and
59.
-/
namespace StaticPreview.Toml
open Text Reader

def between (digits least greatest : Nat) : Reader Nat := do
  let n := digitsValue (← exactly digits Char.isDigit)
  guard (decide (least ≤ n) && decide (n ≤ greatest))
  return n

def isLeap (year : Nat) : Bool :=
  year % 4 == 0 && (year % 100 != 0 || year % 400 == 0)

def daysOf (year month : Nat) : Nat :=
  if month = 2 then (if isLeap year then 29 else 28)
  else if month = 4 ∨ month = 6 ∨ month = 9 ∨ month = 11 then 30
  else 31

def date : Reader Unit := do
  let year ← between 4 0 9999
  char '-'
  let month ← between 2 1 12
  char '-'
  let _ ← between 2 1 (daysOf year month)

def hourAndMinute : Reader Unit := do
  let _ ← between 2 0 23
  char ':'
  let _ ← between 2 0 59

def time : Reader Unit := do
  hourAndMinute
  char ':'
  let _ ← between 2 0 60
  let _ ← optional? (do char '.'; takeWhile1 Char.isDigit)

def offset : Reader Unit :=
  (do let _ ← satisfy fun c => c == 'Z' || c == 'z') <|>
  (do
    let _ ← satisfy fun c => c == '+' || c == '-'
    hourAndMinute)

def dateAndTime : Reader Unit := do
  date
  let _ ← optional? do
    let _ ← satisfy fun c => c == 'T' || c == 't' || c == ' '
    time
    optional? offset

def moment : Reader Value := do
  dateAndTime <|> time
  return .moment

end StaticPreview.Toml
