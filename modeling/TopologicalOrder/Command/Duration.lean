/-!
# Durations as text

A duration is written in the largest of nanoseconds, microseconds, milliseconds
and seconds of which it has one, with as many places as it needs. From a minute
on, minutes and hours are split off.
-/

namespace TopologicalOrder.Command

/-- The digits after the point: `places` of them without the zeros at the end. -/
def trimmedDigits (n places : Nat) : List Char :=
  let ds := Nat.toDigits 10 n
  let padded := List.replicate (places - ds.length) '0' ++ ds
  (padded.reverse.dropWhile (· = '0')).reverse

/-- A number of units of which each consists of `10 ^ places` smaller ones. -/
def showUnits (n places : Nat) : String :=
  match trimmedDigits (n % Nat.pow 10 places) places with
  | [] => toString (n / Nat.pow 10 places)
  | ds => toString (n / Nat.pow 10 places) ++ String.ofList ('.' :: ds)

/-- **A number of nanoseconds as text.** -/
def showDuration (ns : Nat) : String :=
  if ns = 0 then "0s"
  else if ns < 1000 then showUnits ns 0 ++ "ns"
  else if ns < 1000000 then showUnits ns 3 ++ "µs"
  else if ns < 1000000000 then showUnits ns 6 ++ "ms"
  else
    let minute := 60 * 1000000000
    let seconds := showUnits (ns % minute) 9 ++ "s"
    let minutes := ns / minute
    if minutes = 0 then seconds
    else
      let rest := toString (minutes % 60) ++ "m" ++ seconds
      if minutes < 60 then rest else toString (minutes / 60) ++ "h" ++ rest

end TopologicalOrder.Command
