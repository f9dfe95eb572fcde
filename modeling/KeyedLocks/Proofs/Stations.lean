import KeyedLocks.Contention
import KeyedLocks.Proofs.Answers
import KeyedLocks.Proofs.Excuse

/-!
# What workers have in hand

`Station.Fits` says where a worker of a contention stands with its call and its holds: it has none,
or one hold on the lock of its key (`Bears`), so that two workers are never inside one key
(`Bears.unique`). It lasts while others move (`Station.Fits.move`), and the worker's own calls and
actions lead from one station to the next: it is refused by the policy only, and its lock is always
given back.
-/

namespace KeyedLocks

theorem Phase.inFlight_of_midCheck {p : Phase} (h : p.midCheck) (l : LockId) :
    p.stake.inFlight l = 0 := by
  cases p with
  | checking e => cases e <;> rfl
  | _ => cases h

namespace Session

variable {x y : Session} {t : ThreadId} {m : Move} {st : Step}

theorem exists_move_call (hi : x.phase t = .idle) (c : Call) :
    ∃ y, x.move (.call t c) = some y ∧ y.deals = x.deals ∧
      y.names = c.spends.elim x.names x.names.erase ∧
      y.system = x.system.after t (.moveTo (c.begin x.system.now x.memory).1
        (c.begin x.system.now x.memory).2) :=
  ⟨_, Option.map_eq_some_iff.mpr ⟨_, System.call_eq_some_iff.mpr ⟨hi, rfl⟩, rfl⟩, rfl, rfl, rfl⟩

/-- The action `st` of the thread leads from `x` to `y`. -/
structure Acted (x : Session) (t : ThreadId) (st : Step) (y : Session) : Prop where
  next : (x.phase t).next t x.system.now x.memory = some st
  move : x.move (.act t) = some y
  system : y.system = x.system.after t st
  names : y.names = (x.phase t).gains st.notes ++ x.names
  deals : y.deals = (x.phase t).deals t x.memory st.phase st.notes ++ x.deals

theorem exists_acted (hst : (x.phase t).next t x.system.now x.memory = some st) :
    ∃ y, x.Acted t st y := by
  have hact : x.system.act t = some (x.system.after t st, st.notes) :=
    System.act_eq_some_iff.mpr ⟨st, hst, rfl, rfl⟩
  refine ⟨_, hst, Option.map_eq_some_iff.mpr ⟨_, hact, rfl⟩, rfl, rfl, ?_⟩
  show (x.phase t).deals t x.memory ((x.system.after t st).phase t) st.notes ++ x.deals = _
  rw [System.phase_after]

theorem Acted.phase (h : x.Acted t st y) : y.phase t = st.phase := by
  show y.system.phase t = _
  rw [h.system, System.phase_after]

theorem Acted.names_eq (h : x.Acted t st y) (hp : ∀ j, x.phase t ≠ .acting (.retain j)) :
    y.names = st.answers.filterMap Outcome.gain? ++ x.names := by
  rw [h.names, Phase.gains_eq hp]

theorem Acted.deals_eq (h : x.Acted t st y) (hp : ∀ g who, x.phase t ≠ .releasing g who .unlock) :
    y.deals = st.answers.filterMap (Outcome.grant? t x.memory) ++ x.deals := by
  rw [h.deals, Phase.deals_eq hp]

theorem of_call {c : Call} (hy : x.move (.call t c) = some y) :
    y.phase t = (c.begin x.system.now x.memory).2 ∧ y.deals = x.deals := by
  obtain ⟨-, rfl⟩ := of_move_call hy
  exact ⟨Arena.get_set_self .., rfl⟩

theorem interrupted_of_move (hy : x.move m = some y) (hx : x.memory.interrupted = [])
    (hm : ∀ t, m = .act t → ∀ u, x.phase t ≠ .interrupting u .raise) :
    y.memory.interrupted = [] := by
  apply List.eq_nil_iff_forall_not_mem.mpr
  intro u hu
  have hnot : u ∉ x.memory.interrupted := hx ▸ List.not_mem_nil
  cases m with
  | call t c =>
    obtain ⟨-, rfl⟩ := of_move_call hy
    exact hnot (c.begin_interrupted x.system.now x.memory ▸ hu)
  | act t =>
    obtain ⟨st, hst, rfl⟩ := of_move_act hy
    rcases (Phase.next_flags hst).raised (Memory.isInterrupted_iff.mpr hu) with h | h
    · exact hnot (Memory.isInterrupted_iff.mp h)
    · exact hm t rfl u h
  | rouse t =>
    obtain ⟨l, -, rfl⟩ := of_move_rouse hy
    exact hnot hu
  | tick d => cases hy; exact hnot hu

end Session

namespace Contention

/-- The thread has one hold on a lock of the key, by this handle, and no other hold. -/
structure Bears (x : Session) (table : TableId) (t : ThreadId) (key : Nat) (h : Handle) : Prop where
  table : h.table = table
  issued : x.issued h
  named : (x.memory.lock h.lock).identifier = keyName key
  sole : ∀ l, outstanding x.deals t l = if l = h.lock then 1 else 0

/-- What a worker has in hand at its station. -/
def Station.Fits (x : Session) (table : TableId) (p : Policy) (t : ThreadId) (key : Nat) :
    Station → Prop
  | .start | .over => x.phase t = .idle ∧ x.EmptyHanded t
  | .obtaining => (Call.obtain table (keyName key)).Pursues (x.phase t) ∧
      (x.phase t).aim? x.memory = some (table, keyName key) ∧ (x.phase t).Vain t ∧ x.EmptyHanded t
  | .refused e => x.phase t = .idle ∧ x.EmptyHanded t ∧ e.ByPolicy p
  | .entering h | .holding h _ | .leaving h | .counting h | .returning h =>
    x.phase t = .idle ∧ Bears x table t key h
  | .releasing h => h.table = table ∧ ∃ s, x.phase t = .releasing h .handle s ∧
      if s = .unlock then Bears x table t key h else x.EmptyHanded t
  | .failed .. => False
  | .dropping h => h.table = table ∧ x.phase t = .idle ∧ x.EmptyHanded t
  | .dropped => x.phase t = .acting (.forgo table) ∧ x.EmptyHanded t

section
variable {x y : Session} {t u : ThreadId} {m : Move} {table : TableId} {p : Policy} {key : Nat}
  {h g : Handle} {s : Station} {st : Step}

/-! ## Holds on keys -/

theorem Bears.known (hb : Bears x table t key h) (hx : x.Reachable) :
    h.lock < x.memory.locks.fresh := (hx.orderly.homed hb.issued).known

theorem Bears.outstanding_pos (hb : Bears x table t key h) : 0 < outstanding x.deals t h.lock := by
  rw [hb.sole, if_pos rfl]
  exact Int.one_pos

theorem Bears.entry (hb : Bears x table t key h) (hx : x.Reachable) :
    (keyName key, h.lock) ∈ x.memory.holdings.entries table := by
  have hentry := (hx.orderly.homed hb.issued).kept (hx.orderly.2.live hb.outstanding_pos)
  rw [hb.table] at hentry
  rw [← hb.named]
  exact hentry

/-- **Two workers never have the same key.** -/
theorem Bears.unique (ht : Bears x table t key h) (hu : Bears x table u key g) (hx : x.Reachable) :
    t = u := by
  have hord := hx.orderly
  have hlock : h.lock = g.lock := hord.2.tidy.eq_of_mem (ht.entry hx) (hu.entry hx)
  have hpos := hu.outstanding_pos
  rw [← hlock] at hpos
  exact hord.2.exclusive (hord.held_of_outstanding ht.outstanding_pos)
    (hord.held_of_outstanding hpos)

theorem Bears.owner (hb : Bears x table t key h) (hx : x.Reachable) :
    (x.memory.lock h.lock).mutex.owner = some t :=
  Mutex.owner_of_holdsOf (hx.orderly.held_of_outstanding hb.outstanding_pos)

theorem issued_append {ds : List Deal} (hi : x.issued h) (hd : y.deals = ds ++ x.deals) :
    y.issued h := by
  rw [Session.issued, hd, List.any_append, Bool.or_eq_true]
  exact .inr hi

theorem Bears.move (hb : Bears x table t key h) (hx : x.Reachable) (hy : x.move m = some y)
    {ds : List Deal} (hd : y.deals = ds ++ x.deals)
    (hout : ∀ l, outstanding y.deals t l = outstanding x.deals t l) : Bears y table t key h where
  table := hb.table
  issued := issued_append hb.issued hd
  named := by
    rw [hx.identifier_of_move hy (hb.known hx)]
    exact hb.named
  sole l := (hout l).trans (hb.sole l)

/-! ## While others move -/

theorem Station.Fits.move (hf : s.Fits x table p t key) (hx : x.Reachable)
    (hy : x.move m = some y) (hact : m ≠ .act t) (hphase : y.phase t = x.phase t) :
    s.Fits y table p t key := by
  obtain ⟨ds, hd, -⟩ := Session.deals_of_move (t := t) hy fun h => absurd h hact
  have hout : ∀ l, outstanding y.deals t l = outstanding x.deals t l :=
    Session.outstanding_of_move hy fun h => absurd h hact
  have hempty : x.EmptyHanded t → y.EmptyHanded t := fun he l => (hout l).trans (he l)
  unfold Station.Fits at hf ⊢
  rw [hphase]
  cases s with
  | start | «over» => exact hf.imp_right hempty
  | obtaining =>
    obtain ⟨hp, ha, hv, he⟩ := hf
    have hp' : (y.phase t).pursues := hphase ▸ hp.pursues
    have haim := hx.aim?_of_move hy hp.pursues hp'
    rw [hphase] at haim
    exact ⟨hp, haim.trans ha, hv, hempty he⟩
  | refused e => exact ⟨hf.1, hempty hf.2.1, hf.2.2⟩
  | entering | holding | leaving | counting | returning =>
    exact hf.imp_right (·.move hx hy hd hout)
  | releasing =>
    obtain ⟨ht, stage, hp, hs⟩ := hf
    refine ⟨ht, stage, hp, ?_⟩
    split at hs
    · next hu => rw [if_pos hu]; exact hs.move hx hy hd hout
    · next hu => rw [if_neg hu]; exact hempty hs
  | failed => exact hf
  | dropping => exact ⟨hf.1, hf.2.1, hempty hf.2.2⟩
  | dropped => exact hf.imp_right hempty

theorem Station.Fits.quiet (hf : s.Fits x table p t key) :
    (∀ j, x.phase t ≠ .acting (.retain j)) ∧ ∀ v, x.phase t ≠ .interrupting v .raise := by
  suffices h : x.phase t = .idle ∨ (x.phase t).pursues ∨
      (∃ g s, x.phase t = .releasing g .handle s) ∨ x.phase t = .acting (.forgo table) by
    rcases h with h | h | ⟨g, s, h⟩ | h
    · rw [h]
      exact ⟨nofun, nofun⟩
    · constructor <;>
        · intro j hj
          rw [hj] at h
          cases h
    · rw [h]
      exact ⟨nofun, nofun⟩
    · rw [h]
      exact ⟨nofun, nofun⟩
  cases s with
  | start | «over» | refused | entering | holding | leaving | counting | returning =>
    exact .inl hf.1
  | obtaining => exact .inr (.inl hf.1.pursues)
  | releasing =>
    obtain ⟨-, stage, hp, -⟩ := hf
    exact .inr (.inr (.inl ⟨_, stage, hp⟩))
  | failed => exact hf.elim
  | dropping => exact .inl hf.2.1
  | dropped => exact .inr (.inr (.inr hf.1))

/-! ## Calls of the worker -/

theorem Station.fits_obtaining (he : x.EmptyHanded t)
    (hy : x.move (.call t (.obtain table (keyName key))) = some y) :
    Station.obtaining.Fits y table p t key := by
  obtain ⟨hphase, hdeals⟩ := Session.of_call hy
  refine ⟨hphase ▸ .inl ⟨_, .inl rfl⟩, Session.aim?_of_call hy, hphase ▸ trivial, ?_⟩
  exact fun l => hdeals ▸ he l

theorem Station.fits_releasing (hb : Bears x table t key h) (hx : x.Reachable)
    (hy : x.move (.call t (.release h)) = some y) :
    (Station.releasing h).Fits y table p t key := by
  obtain ⟨hphase, hdeals⟩ := Session.of_call hy
  refine ⟨hb.table, .unlock, hphase, ?_⟩
  rw [if_pos rfl]
  exact hb.move hx hy (hdeals.trans (List.nil_append _).symm) fun l => by rw [hdeals]

theorem Station.fits_dropped (he : x.EmptyHanded t)
    (hy : x.move (.call t (.act (.forgo table))) = some y) :
    Station.dropped.Fits y table p t key := by
  obtain ⟨hphase, hdeals⟩ := Session.of_call hy
  exact ⟨hphase, fun l => hdeals ▸ he l⟩

/-! ## Actions of the worker -/

theorem bears_of_grant {a : Attempt} (he : x.EmptyHanded t) (hx : x.Reachable)
    (hy : x.Acted t st y) (hp : x.phase t = .readClosed a)
    (hname : a.identifier x.memory = keyName key)
    (hans : st.answers = [.obtained ⟨table, a.lock⟩]) : Bears y table t key ⟨table, a.lock⟩ := by
  have hdeals := hy.deals_eq fun g who hj => by rw [hp] at hj; cases hj
  rw [hans] at hdeals
  obtain ⟨_, -, hhome⟩ := hx.homed (t := t) (a := a) (by rw [hp]; rfl)
  refine ⟨rfl, ?_, ?_, fun l => ?_⟩
  · rw [Session.issued, hdeals]
    simp [Outcome.grant?]
  · rw [hx.identifier_of_move hy.move hhome.known]
    exact hname
  · rw [hdeals]
    show outstanding (_ :: x.deals) t l = _
    rw [outstanding_cons, he l, Int.zero_add]
    simp only [true_and, eq_comm (a := l)]
    rfl

/-- An acquisition goes on, or it gets the lock of its key, or the policy is against it. -/
theorem Station.Fits.act_obtaining (hf : Station.obtaining.Fits x table p t key)
    (hx : x.Reachable) (hp : (x.memory.table table).policy = p)
    (hi : x.memory.interrupted = []) (hy : x.Acted t st y) :
    st.answers = [] ∧ Station.obtaining.Fits y table p t key ∧ y.names = x.names ∨
      (∃ h, st.answers = [.obtained h] ∧ (Station.entering h).Fits y table p t key ∧
        y.names = table :: x.names) ∨
      ∃ e, st.answers = [.refused e] ∧ (Station.refused e).Fits y table p t key ∧
        y.names = x.names := by
  obtain ⟨hpur, haim, hvain, hempty⟩ := hf
  have htells := Phase.next_tells hy.next
  have hnames := hy.names_eq fun j hj => by rw [hj] at hpur; cases hpur.pursues
  have hdeals := hy.deals_eq fun g who hj => by rw [hj] at hpur; cases hpur.pursues
  rcases hpur.next hy.next with ⟨hpur', -⟩ | ⟨hidle, hends⟩
  · have hans : st.answers = [] := htells.answers_eq_nil hpur'.ne_idle
    rw [hans] at hdeals hnames
    have hpursues : (y.phase t).pursues := hy.phase ▸ hpur'.pursues
    refine .inl ⟨hans, ⟨hy.phase ▸ hpur', ?_, ?_, ?_⟩, hnames⟩
    · rw [hx.aim?_of_move hy.move hpur.pursues hpursues]
      exact haim
    · rw [hy.phase]
      refine hvain.next (fun hmid => hempty.not_owner hx.orderly fun l => ?_) hy.next
      exact Phase.inFlight_of_midCheck hmid l
    · exact fun l => hdeals ▸ hempty l
  · obtain ⟨o, hans⟩ := htells.answers_of_idle hidle
    have hmem : .returned o ∈ st.notes := Step.mem_answers.mp (hans ▸ List.mem_singleton_self o)
    have hphase : y.phase t = .idle := hy.phase.trans hidle
    rw [hans] at hdeals hnames
    rcases hpur.ends (hends o hmem) with ⟨e, rfl⟩ | ⟨g, rfl⟩ | ⟨⟨l, policy, hc⟩, -⟩
    · refine .inr (.inr ⟨e, hans, ⟨hphase, fun l => hdeals ▸ hempty l, ?_⟩, hnames⟩)
      rw [← hp]
      refine hx.byPolicy_of_refused hpur hvain ?_ hy.next hmem
      rw [Memory.isInterrupted_iff, hi]
      exact List.not_mem_nil
    · have hgrant := hends _ hmem
      generalize hph : x.phase t = ph at hgrant
      cases hgrant with
      | @grant a j ha =>
        rw [hph, Phase.aim?_of_table rfl ha] at haim
        obtain ⟨rfl, hname⟩ := Prod.mk.inj (Option.some.inj haim)
        exact .inr (.inl ⟨_, hans, ⟨hphase, bears_of_grant hempty hx hy hph hname hans⟩, hnames⟩)
    · cases hc

theorem Bears.emptyHanded (hb : Bears x table t key h) (hy : x.Acted t st y) {stage : ReleaseStage}
    (hp : x.phase t = .releasing h .handle .unlock) (hs : st.phase = .releasing h .handle stage) :
    y.EmptyHanded t := by
  intro l
  rw [hy.deals, hp, hs]
  show outstanding (_ :: x.deals) t l = 0
  rw [outstanding_cons, hb.sole]
  by_cases hl : l = h.lock
  · rw [if_pos hl, if_pos ⟨rfl, hl.symm⟩]
    rfl
  · rw [if_neg hl, if_neg fun he => hl he.2.symm]
    rfl

theorem Station.Fits.act_releasing (hf : (Station.releasing h).Fits x table p t key)
    (hx : x.Reachable) (hy : x.Acted t st y) : y.names = x.names ∧
      (st.answers = [] ∧ (Station.releasing h).Fits y table p t key ∨
        st.answers = [.released] ∧ (Station.dropping h).Fits y table p t key) := by
  obtain ⟨ht, stage, hp, hs⟩ := hf
  have hst := hy.next
  rw [hp] at hst
  have hst : Releaser.handle.release t x.memory h stage = some st := hst
  have htells := Phase.next_tells hy.next
  have hnames := hy.names_eq fun j hj => by rw [hp] at hj; cases hj
  cases Releaser.release_course hst with
  | @on _ stage' _ hphase hleft hown hnot =>
    have hans : st.answers = [] := htells.answers_eq_nil (by rw [hphase]; exact nofun)
    rw [hans] at hnames
    have hnext : stage' ≠ .unlock := by
      rintro rfl
      exact absurd hleft (Nat.not_lt.mpr stage.left_le)
    refine ⟨hnames, .inl ⟨hans, ht, stage', hy.phase.trans hphase, ?_⟩⟩
    rw [if_neg hnext]
    split at hs
    · next hu =>
      subst hu
      exact hs.emptyHanded hy hp hphase
    · next hu =>
      have hdeals := hy.deals_eq fun g who hj => by rw [hp] at hj; cases hj; exact hu rfl
      rw [hans] at hdeals
      exact fun l => hdeals ▸ hs l
  | refuse hown =>
    rw [if_pos rfl] at hs
    exact absurd (hs.owner hx) hown
  | finish hstage hidle hreleased =>
    obtain ⟨o, hans⟩ := htells.answers_of_idle hidle
    obtain rfl := hreleased o (Step.mem_answers.mp (hans ▸ List.mem_singleton_self o))
    rw [if_neg hstage] at hs
    have hdeals := hy.deals_eq fun g who hj => by rw [hp] at hj; cases hj; exact hstage rfl
    rw [hans] at hdeals hnames
    exact ⟨hnames, .inr ⟨hans, ht, hy.phase.trans hidle, fun l => hdeals ▸ hs l⟩⟩

theorem Station.Fits.act_dropped (hf : Station.dropped.Fits x table p t key)
    (hy : x.Acted t st y) : st.answers = [.done] ∧ Station.start.Fits y table p t key ∧
      y.names = x.names := by
  obtain ⟨hp, he⟩ := hf
  have hst := hy.next
  rw [hp] at hst
  cases hst
  have hnames := hy.names_eq fun j hj => by rw [hp] at hj; cases hj
  have hdeals := hy.deals_eq fun g who hj => by rw [hp] at hj; cases hj
  exact ⟨rfl, ⟨hy.phase, fun l => hdeals ▸ he l⟩, hnames⟩

end

end Contention

end KeyedLocks
