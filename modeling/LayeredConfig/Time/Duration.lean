import LayeredConfig.Number.Integer

/-!
# Lengths of time

How messages show a length of time, given in microseconds: whole days, rounded down, and what is
left in seconds and microseconds. Parts that are zero are left out.
-/

namespace LayeredConfig.Duration

def part (name : String) (n : Int) : List String :=
  if n = 0 then [] else [name ++ "=" ++ Integer.text n]

def shown (micros : Int) : String :=
  let rest := micros.fmod 86400000000
  let parts := part "days" (micros.fdiv 86400000000) ++ part "seconds" (rest / 1000000) ++
    part "microseconds" (rest % 1000000)
  "datetime.timedelta(" ++ (if parts.isEmpty then "0" else ", ".intercalate parts) ++ ")"

end LayeredConfig.Duration
