import KeyedLocks.Proofs.Refusal

/-!
# Where events come from

`Phase.Logs me m p e` says of each event from which phase of `me` it is logged, and what the thread
has found in the memory there. `Phase.next_logs` says that no event is logged elsewhere.
-/

namespace KeyedLocks

/-- Where an action of `me` may log an event. -/
inductive Phase.Logs (me : ThreadId) (m : Memory) : Phase → Event → Prop where
  | created {t : TableId} {i : String} : (m.table t).find? i = none →
      Logs me m (.insert t i) (.entryCreated i)
  | queueFull {a : Attempt} :
      a.policy.queueLimitReached (m.lock a.lock).mutex.queueLength →
      Logs me m (.readQueue a) (.tooManyQueued (a.identifier m) (m.lock a.lock).mutex.queueLength)
  | spent {a : Attempt} :
      Logs me m (.spend a (some 0)) (.attemptsExceeded (a.identifier m) a.policy.attempts)
  | waiting {a : Attempt} {left : Option Nat} : left ≠ some 0 →
      Logs me m (.spend a left) (.waiting (a.identifier m) (left.map (· - 1)))
  | interrupted {a : Attempt} {left d : Option Nat} {i : String} : m.isInterrupted me →
      Logs me m (.waiting (.attempt a left) d .checkFlag) (.waitInterrupted i)
  | deadlock {e : Errand} {i : String} {owner : Option ThreadId} :
      Logs me m (.checking e .report) (.deadlock i owner)
  | backOutFails {a : Attempt} : (m.lock a.lock).mutex.release? me = none →
      Logs me m (.backOut a) (.closedNotHeld (a.identifier m))
  | unreleased {g : Handle} {i : String} : (m.lock g.lock).mutex.release? me = none →
      Logs me m (.releasing g .guard .unlock) (.guardNotReleased i (.notHeld i))
  | disposed {g : Handle} {who : Releaser} {i : String} : (m.table g.table).holds i g.lock →
      Logs me m (.releasing g who .remove) (.entryDisposed i)
  | unprobeFails {g : Handle} {who : Releaser} {i : String} :
      (m.lock g.lock).mutex.release? me = none →
      Logs me m (.releasing g who .unprobe) (.probeNotHeld i)
  | requested {target : ThreadId} :
      Logs me m (.interrupting target (.listLocks [])) (.interruptRequested target)
  | unbounded {policy : Policy} : Logs me m (.acting (.makeTable policy true)) .unboundedTable

section
variable {me : ThreadId} {now : Nat} {m m' : Memory} {p : Phase} {st : Step} {e : Event}
  {a : Attempt}

theorem Step.not_event_of_finish {o : Outcome} : .event e ∉ (Step.finish m' o).notes :=
  fun h => nomatch List.mem_singleton.mp h

theorem Step.event_of_emit {e' : Event} (h : .event e ∈ (st.emit e').notes) :
    e = e' ∨ .event e ∈ st.notes := by
  rcases List.mem_cons.mp h with h | h
  · cases h
    exact .inl rfl
  · exact .inr h

theorem Step.event_eq_of_moveTo {e' : Event} {p' : Phase}
    (h : .event e ∈ ((Step.moveTo m' p').emit e').notes) : e = e' :=
  (event_of_emit h).resolve_right List.not_mem_nil

theorem Step.event_eq_of_finish {e' : Event} {o : Outcome}
    (h : .event e ∈ ((Step.finish m' o).emit e').notes) : e = e' :=
  (event_of_emit h).resolve_right not_event_of_finish

theorem Errand.not_event_of_conclude {r : Errand} {w : WaitResult} (hw : w ≠ .interrupted) :
    .event e ∉ (r.conclude m' w).notes := by
  cases r with
  | plain => exact Step.not_event_of_finish
  | attempt a left =>
    cases w with
    | acquired | timedOut => exact List.not_mem_nil
    | interrupted => exact absurd rfl hw

/-- **No event is logged elsewhere.** -/
theorem Phase.next_logs (h : p.next me now m = some st) (he : .event e ∈ st.notes) :
    p.Logs me m e := by
  cases next_acts h with
  | create hf => obtain rfl := Step.event_eq_of_moveTo he; exact .created hf
  | queueFull _ hq => obtain rfl := Step.event_eq_of_finish he; exact .queueFull hq
  | spent => obtain rfl := Step.event_eq_of_finish he; exact .spent
  | spend hl => obtain rfl := Step.event_eq_of_moveTo he; exact .waiting hl
  | cycle => obtain rfl := Step.event_eq_of_finish he; exact .deadlock
  | @heed r _ hi =>
    cases r with
    | attempt => obtain rfl := Step.event_eq_of_finish he; exact .interrupted hi
    | plain => exact absurd he Step.not_event_of_finish
  | backOutFails _ hx => obtain rfl := Step.event_eq_of_moveTo he; exact .backOutFails hx
  | refuseGuard _ hx => obtain rfl := Step.event_eq_of_finish he; exact .unreleased hx
  | remove hheld => obtain rfl := Step.event_eq_of_moveTo he; exact .disposed hheld
  | unprobeFails _ hx => obtain rfl := Step.event_eq_of_finish he; exact .unprobeFails hx
  | requested => obtain rfl := Step.event_eq_of_finish he; exact .requested
  | makeUnlimited => obtain rfl := Step.event_eq_of_finish he; exact .unbounded
  -- All other actions log nothing, whether they end a call or not.
  | acquire | timeOut | grab => exact absurd he (Errand.not_event_of_conclude (by decide))
  | grant | live | closed | clear | refuse | yield | unprobe | disposed | give | notHeld | notOwner
  | given | tried | triedInVain | cleared | woken | closeRaw | makeTable | makeLock | retain
  | forgo => exact absurd he Step.not_event_of_finish
  | _ => cases he

end

end KeyedLocks
