/-! Points in time, to the nanosecond, told by the whole second that each lies in. Seconds are
counted downwards too: an instant just before 1970 lies in second -1. A leap second has no number
of its own: it is told by going on counting nanoseconds in the last second of its minute. -/

namespace BallotServer

structure Instant where
  /-- Seconds since 1970. -/
  second : Int
  /-- Nanoseconds since that second began. -/
  nanos : Nat
  told : nanos < 1000000000 ∨ nanos < 2000000000 ∧ second % 60 = 59
  deriving DecidableEq, Repr

namespace Instant

def ofUnix? (second : Int) (nanos : Nat) : Option Instant :=
  if told : nanos < 1000000000 ∨ nanos < 2000000000 ∧ second % 60 = 59 then
    some ⟨second, nanos, told⟩
  else none

instance : LE Instant where
  le t u := t.second < u.second ∨ t.second = u.second ∧ t.nanos ≤ u.nanos

/-- Out of a leap second, time runs forwards from the second before it and backwards from the
second after it. -/
def addMinutes (t : Instant) (minutes : Int) : Instant :=
  if h : t.nanos < 1000000000 then
    ⟨t.second + 60 * minutes, t.nanos, .inl h⟩
  else if minutes = 0 then t
  else
    ⟨t.second + 60 * minutes + (if minutes < 0 then 1 else 0), t.nanos - 1000000000, by
      have := t.told
      omega⟩

theorem second_le_second {t u : Instant} (h : t ≤ u) : t.second ≤ u.second := by
  rcases h with h | h <;> omega

end Instant

end BallotServer
