import Mathlib.Data.Nat.Notation

abbrev Instant := ℕ

namespace Instant

def second : ℕ := 1000000000

/-- The time from `earlier` to `later`; nothing if `earlier` is not earlier. -/
def durationSince (later earlier : Instant) : ℕ :=
  later - earlier

/-- A duration in whole seconds, rounded down. -/
def asSecs (duration : ℕ) : ℕ :=
  duration / second

end Instant
