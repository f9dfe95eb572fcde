import KeyedLocks.Duration.Basic

/-!
# Backoff policies

A policy bounds an acquisition: how often it may try, how many threads may wait for one lock, and
how long each attempt after the first may wait. The first attempt never waits. A count is absent
when it has no limit; `-1` says so where policies are written as numbers.
-/

namespace KeyedLocks

/-- Limits of an acquisition, all of them valid. -/
structure Policy where
  /-- Attempts to obtain a lock, the first included. -/
  attempts : Option Nat
  /-- Threads that may wait for one lock. -/
  queueLimit : Option Nat
  /-- The time one attempt may wait. -/
  spinTime : Duration
  attempts_valid : ∀ n ∈ attempts, 0 < n ∧ n < UInt32.size
  queueLimit_valid : ∀ n ∈ queueLimit, 0 < n ∧ n < Int64.size / 2
deriving DecidableEq

/-- Numbers that are no limits. -/
inductive LimitError where
  | acquireAttempts (n : Int64)
  | maximumQueued (n : Int64)
  | spinTime (n : Int64)
deriving Repr, DecidableEq

def LimitError.message : LimitError → String
  | .acquireAttempts n =>
    s!"acquire_attempts needs to be a positive integer or -1, but was '{n.toInt}'"
  | .maximumQueued n =>
    s!"maximum_queued needs to be a positive integer or -1, but was '{n.toInt}'"
  | .spinTime n => s!"spin_time needs to be a non negative integer, but was '{n.toInt}'"

namespace Policy

/-- No limits, and 100 ms for each wait. -/
def unbounded : Policy where
  attempts := none
  queueLimit := none
  spinTime := .ofMillis 100
  attempts_valid := by simp
  queueLimit_valid := by simp

instance : Inhabited Policy := ⟨unbounded⟩

/-- A count below `bound` that is positive, or none at all for `-1`. -/
def limit? (n : Int64) (bound : Nat) : Option { o : Option Nat // ∀ m ∈ o, 0 < m ∧ m < bound } :=
  if n.toInt = -1 then some ⟨none, by simp⟩
  else if h : 0 < n.toInt.toNat ∧ n.toInt.toNat < bound then
    some ⟨some n.toInt.toNat, by simpa using h⟩
  else none

/-- A policy from its two counts, attempts judged first. -/
def ofLimits (attempts queued : Int64) (spinTime : Duration) : Except LimitError Policy :=
  match limit? attempts UInt32.size with
  | none => .error (.acquireAttempts attempts)
  | some a =>
    match limit? queued (Int64.size / 2) with
    | none => .error (.maximumQueued queued)
    | some q => .ok ⟨a, q, spinTime, a.property, q.property⟩

/-- A policy from three numbers, the time in milliseconds; the time is judged first. -/
def ofNumbers (attempts queued spinMillis : Int64) : Except LimitError Policy :=
  if spinMillis < 0 then .error (.spinTime spinMillis)
  else ofLimits attempts queued (.ofMillis spinMillis.toUInt64)

def hasAttemptLimit (p : Policy) : Bool := p.attempts.isSome

def hasQueueLimit (p : Policy) : Bool := p.queueLimit.isSome

/-- Whether a lock with so many waiters may not accept another one. -/
def queueLimitReached (p : Policy) (queued : Nat) : Bool := p.queueLimit.any (· ≤ queued)

end Policy

end KeyedLocks
