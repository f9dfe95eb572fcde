import KeyedLocks.Policy.Basic
import KeyedLocks.Duration.Printer
import KeyedLocks.Json

/-!
# Policies in writing

The lines a person reads, the JSON object and the TOML document of a policy. In JSON and TOML a
count without a limit is `-1`.
-/

namespace KeyedLocks.Policy

/-- The number a count is written as. -/
def limitNumber (limit : Option Nat) : Int := limit.elim (-1) Int.ofNat

/-- The number a limit of the queue is written as: one that does not fit 64 bits is none. -/
def queueNumber (limit : Option Nat) : Int := limitNumber (limit.filter (· < Int64.size / 2))

def limitWord (limit : Option Nat) : String := limit.elim "unbounded" toString

def display (p : Policy) : String :=
  s!"acquire_attempts: {limitWord p.attempts}\nmaximum_queued: {limitWord p.queueLimit}\n" ++
    s!"spin_time: {p.spinTime.render}"

def toJson (p : Policy) : Json.Record :=
  [("acquire_attempts", .number (limitNumber p.attempts)),
    ("maximum_queued", .number (queueNumber p.queueLimit)),
    ("spin_time", .text p.spinTime.render)]

def toToml (p : Policy) : String :=
  s!"acquire_attempts = {limitNumber p.attempts}\nmaximum_queued = {queueNumber p.queueLimit}\n" ++
    s!"spin_time = \"{p.spinTime.render}\"\n"

end KeyedLocks.Policy
