import HotReload.Proofs.DebounceHistory

namespace HotReload.Watch

namespace Debouncer

variable {d : Debouncer} {now rest t : Nat}

def IsRest (d : Debouncer) (now rest : Nat) : Prop :=
  (∃ c, d.lastCycle = some c ∧ rest = c + d.cooldown - now) ∨ d.lastCycle = none ∧ rest = 0

theorem exists_isRest (d : Debouncer) (now : Nat) : ∃ rest, d.IsRest now rest := by
  cases cycle : d.lastCycle with
  | none => exact ⟨0, .inr ⟨cycle, rfl⟩⟩
  | some c => exact ⟨c + d.cooldown - now, .inl ⟨c, cycle, rfl⟩⟩

theorem sleepTicks_of_event (event : d.lastEvent = some t) (seen : t ≤ now)
    (taken : ∀ c, d.lastCycle = some c → c ≤ now) (left : d.IsRest now rest) (ticks : Nat) :
    d.sleepTicks ticks now = max (max (t + d.debounce - now) rest) ticks := by
  have quiet : d.debounce - (now - t) = t + d.debounce - now := by omega
  rcases left with ⟨c, cycle, span⟩ | ⟨none, span⟩
  · have before := taken c cycle
    have cooled : d.cooldown - (now - c) = rest := by omega
    simp only [sleepTicks, event, cycle, quiet, cooled]
  · simp only [sleepTicks, event, none, quiet, span]

theorem isReady_after_iff (pending : d.pending = d.lastEvent.isSome)
    (event : d.lastEvent = some t) (seen : t ≤ now)
    (taken : ∀ c, d.lastCycle = some c → c ≤ now) (left : d.IsRest now rest) (wait : Nat) :
    d.isReady (now + wait) = true ↔ max (t + d.debounce - now) rest ≤ wait := by
  have seen_later : ∀ s, d.lastEvent = some s → s ≤ now + wait := by
    intro s last
    rw [event] at last
    cases last
    omega
  have taken_later : ∀ c, d.lastCycle = some c → c ≤ now + wait := fun c cycle =>
    Nat.le_trans (taken c cycle) (Nat.le_add_right now wait)
  rw [Handled.isReady_iff pending seen_later taken_later]
  rcases left with ⟨c, cycle, span⟩ | ⟨none, span⟩
  · simp only [event, cycle, Option.some.injEq, exists_eq_left', forall_eq']
    omega
  · simp only [event, none, Option.some.injEq, exists_eq_left', reduceCtorEq, false_imp_iff,
      implies_true, and_true]
    omega

theorem isReady_of_no_event (quiet : d.lastEvent = none) (now : Nat) : d.isReady now = false := by
  simp only [isReady, quiet]

end Debouncer

namespace Handled

variable {target : Path} {debounce cooldown : Nat} {h : Handled}

theorem move_add_of_silent (named : h.debouncer.fileName = target.fileName.getD []) {e : Event}
    (silent : ¬ e.Announces target) : (h.move (.add e)).debouncer = h.debouncer := by
  have irrelevant : ¬ h.debouncer.isRelevant e = true := by
    rwa [isRelevant_iff named e]
  simp only [move, Debouncer.addEvent, if_neg irrelevant]

theorem move_take_of_refused (refused : h.answer = false) :
    (h.move .take).debouncer = h.debouncer := by
  have early : ¬ h.debouncer.isReady h.now = true := by
    simp [← answer_eq_isReady, refused]
  simp only [move, Debouncer.take, if_neg early]

theorem debouncer_of_idles {later : List Move}
    (named : h.debouncer.fileName = target.fileName.getD []) (idles : h.Idles target later) :
    (h.run later).debouncer = h.debouncer := by
  induction later generalizing h with
  | nil => rfl
  | cons m later ih =>
    have step : (h.move m).debouncer = h.debouncer ∧ (h.move m).Idles target later := by
      cases m with
      | add e => exact ⟨move_add_of_silent named idles.1, idles.2⟩
      | pass time => exact ⟨rfl, idles⟩
      | take => exact ⟨move_take_of_refused idles.1, idles.2⟩
    obtain ⟨same, idles⟩ := step
    exact (ih (same ▸ named) idles).trans same

theorem idles_of_no_event {later : List Move}
    (named : h.debouncer.fileName = target.fileName.getD []) (none : h.debouncer.lastEvent = none)
    (silent : ∀ e, .add e ∈ later → ¬ e.Announces target) : h.Idles target later := by
  induction later generalizing h with
  | nil => trivial
  | cons m later ih =>
    have silent_later : ∀ e, .add e ∈ later → ¬ e.Announces target := fun e member =>
      silent e (List.mem_cons_of_mem m member)
    cases m with
    | add e =>
      have unheard := silent e List.mem_cons_self
      have same := move_add_of_silent named unheard
      exact ⟨unheard, ih (same ▸ named) (same ▸ none) silent_later⟩
    | pass time => exact ih named none silent_later
    | take =>
      have refused : h.answer = false := by
        rw [answer_eq_isReady, Debouncer.isReady_of_no_event none]
      have same := move_take_of_refused refused
      exact ⟨refused, ih (same ▸ named) (same ▸ none) silent_later⟩

/-- The record tells what is left of the cooldown. -/
theorem Reflects.left_of_isRest (inv : Reflects target debounce cooldown h) {rest : Nat}
    (left : h.debouncer.IsRest h.now rest) :
    Left Entry.IsTaking Entry.IsTaking cooldown h.past h.now rest := by
  rcases left with ⟨c, cycle, span⟩ | ⟨none, span⟩
  · obtain ⟨y, latest, rfl⟩ := (inv.taking c).mp cycle
    rw [inv.rest] at span
    exact .inl ⟨y, latest, span⟩
  · refine .inr ⟨fun y latest => ?_, span⟩
    have taken := (inv.taking y.time).mpr ⟨y, latest, rfl⟩
    rw [none] at taken
    contradiction

end Handled

/-- Whatever was done with a new debouncer: a pending change is ready exactly after the longer one
of what is left of the debounce time and of the cooldown. So it is let through after the sleep,
and not before unless the sleep is the shortest one. Without a pending change nothing is ready
before the next event that announces the file, and the sleep is a day all the time. -/
theorem sleep_of_history (target : Path) (debounce cooldown start ticks : Nat)
    (moves : List Move) :
    let h := (Handled.fresh target debounce cooldown start).run moves
    let sleep := h.debouncer.sleepTicks ticks h.now
    (h.debouncer.pending = true → ∃ quiet rest,
      (∃ x, Latest (·.Announces target) Entry.IsTaking h.past x ∧
        quiet = x.time + debounce - h.now) ∧
      Left Entry.IsTaking Entry.IsTaking cooldown h.past h.now rest ∧
      ∀ later wait, h.Idles target later → (h.run later).now = h.now + wait →
        ((h.run later).debouncer.isReady (h.run later).now = true ↔ max quiet rest ≤ wait) ∧
        (sleep ≤ wait → (h.run later).answer = true) ∧
        (ticks < sleep → wait < sleep → (h.run later).answer = false)) ∧
    (h.debouncer.pending = false → ∀ later, (∀ e, .add e ∈ later → ¬ e.Announces target) →
      (h.run later).debouncer.isReady (h.run later).now = false ∧
      (h.run later).debouncer.sleepTicks ticks (h.run later).now = 86400 * 1000 * ticks) := by
  intro h sleep
  have inv : Handled.Reflects target debounce cooldown h :=
    Handled.reflects_run moves (Handled.reflects_fresh target debounce cooldown start)
  have same_pending := inv.pending
  constructor
  · intro pending
    rw [pending] at same_pending
    obtain ⟨t, event⟩ := Option.isSome_iff_exists.mp same_pending.symm
    obtain ⟨x, latest, at_time⟩ := (inv.event t).mp event
    obtain ⟨rest, left⟩ := h.debouncer.exists_isRest h.now
    have seen := inv.event_done t event
    refine ⟨t + debounce - h.now, rest, ⟨x, latest, by rw [at_time]⟩, inv.left_of_isRest left, ?_⟩
    intro later wait idles passed
    have ready : (h.run later).debouncer.isReady (h.run later).now = true ↔
        max (t + debounce - h.now) rest ≤ wait := by
      rw [Handled.debouncer_of_idles inv.named idles, passed, ← inv.quiet]
      exact Debouncer.isReady_after_iff inv.pending event seen inv.taking_done left wait
    have long : sleep = max (max (t + debounce - h.now) rest) ticks := by
      rw [← inv.quiet]
      exact Debouncer.sleepTicks_of_event event seen inv.taking_done left ticks
    rw [Handled.answer_eq_isReady, ready, ← Bool.not_eq_true, ready]
    omega
  · intro idle later silent
    rw [idle] at same_pending
    have none : h.debouncer.lastEvent = none := by simpa using same_pending.symm
    rw [Handled.debouncer_of_idles inv.named (Handled.idles_of_no_event inv.named none silent)]
    refine ⟨Debouncer.isReady_of_no_event none _, ?_⟩
    simp only [Debouncer.sleepTicks, none, Debouncer.idleSleep]

end HotReload.Watch
