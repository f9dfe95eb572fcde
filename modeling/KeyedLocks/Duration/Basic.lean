/-!
# Durations

A `Duration` is a number of whole nanoseconds that stays below 2^64 seconds. `ofMillis` takes a
number of milliseconds that fits 64 bits; `seconds` and `subsecNanos` are the two parts a duration
is written from.
-/

namespace KeyedLocks

def nanosPerSecond : Nat := 1000000000

/-- A span of time below 2^64 seconds, in nanoseconds. -/
structure Duration where
  nanos : Nat
  nanos_lt : nanos < UInt64.size * nanosPerSecond
deriving Repr, DecidableEq

namespace Duration

def zero : Duration := ⟨0, by decide⟩

/-- The longest duration. -/
def longest : Duration := ⟨UInt64.size * nanosPerSecond - 1, by decide⟩

instance : Inhabited Duration := ⟨zero⟩

def ofMillis (ms : UInt64) : Duration :=
  ⟨ms.toNat * 1000000, by
    have := ms.toNat_lt
    unfold nanosPerSecond UInt64.size
    omega⟩

/-- Whole seconds. -/
def seconds (d : Duration) : Nat := d.nanos / nanosPerSecond

/-- Nanoseconds beyond the whole seconds. -/
def subsecNanos (d : Duration) : Nat := d.nanos % nanosPerSecond

theorem subsecNanos_lt (d : Duration) : d.subsecNanos < nanosPerSecond :=
  Nat.mod_lt _ (by decide)

theorem nanos_eq (d : Duration) : d.nanos = d.seconds * nanosPerSecond + d.subsecNanos := by
  rw [seconds, subsecNanos, Nat.mul_comm]
  exact (Nat.div_add_mod d.nanos nanosPerSecond).symm

@[ext] theorem ext_nanos {a b : Duration} (h : a.nanos = b.nanos) : a = b := by
  cases a; cases b; cases h; rfl

end Duration

end KeyedLocks
