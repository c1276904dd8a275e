/-!
# Time

Instants and durations are whole microseconds; the clock is a value that
operations take, so that it stands still within each of them.
-/

namespace ChainSync

/-- Microseconds since some fixed moment. -/
abbrev Instant := Nat

/-- A length of time in microseconds. -/
abbrev Duration := Nat

namespace Duration

def ofMillis (n : Nat) : Duration := 1000 * n

def ofSecs (n : Nat) : Duration := 1000000 * n

end Duration

/-- The largest height, and the largest count, that 32 bits hold. -/
def maxWord : Nat := 0xFFFFFFFF

end ChainSync
