import HotReload.Watch.History

/-! A debouncer lets a change through exactly if one is due by the record of what was done with
it. Its three fields stand for the record: the last event that announced the file since the last
taking, the last taking, and whether there is such an event. -/
namespace HotReload.Watch

variable {target : Path} {debounce cooldown : Nat}

theorem fileName_ne_nil (p : Path) : p.fileName ≠ some [] := by
  intro empty
  unfold Path.fileName at empty
  split at empty
  · rename_i n last
    cases empty
    have member := List.mem_of_getLast? last
    rcases List.mem_append.mp member with lead | behind
    · cases lead_kind : p.split.1 <;> simp [lead_kind, Path.Lead.components] at lead
    · obtain ⟨s, -, names⟩ := List.mem_filterMap.mp behind
      unfold Path.segmentComponent? at names
      split at names
      · cases names
      · rename_i nonempty
        split at names
        · cases names
        · split at names
          · cases names
          · cases names
            exact nonempty rfl
  · cases empty

theorem bringsContent_iff (k : EventKind) :
    k.bringsContent = true ↔
      k.isCreation = true ∨ k.isModification = true ∧ k ≠ .metadata := by
  cases k <;> decide

theorem isRelevant_iff {d : Debouncer} (named : d.fileName = target.fileName.getD [])
    (e : Event) : d.isRelevant e = true ↔ e.Announces target := by
  unfold Debouncer.isRelevant Event.Announces
  rw [Bool.and_eq_true, List.any_eq_true, named]
  apply and_congr Iff.rfl
  constructor
  · rintro ⟨p, member, same⟩
    have same := beq_iff_eq.mp same
    cases own : target.fileName with
    | none =>
      rw [own] at same
      exact absurd same (fileName_ne_nil p)
    | some name =>
      rw [own] at same
      exact ⟨p, member, name, same, rfl⟩
  · rintro ⟨p, member, name, same, own⟩
    refine ⟨p, member, beq_iff_eq.mpr ?_⟩
    rw [same, own, Option.getD_some]

theorem not_latest_nil {p stop : Entry → Prop} {x : Entry} : ¬ Latest p stop [] x := by
  rintro ⟨newer, older, cut, -⟩
  cases newer <;> cases cut

theorem latest_cons {p stop : Entry → Prop} {a x : Entry} {past : List Entry} :
    Latest p stop (a :: past) x ↔
      p a ∧ x = a ∨ (¬ p a ∧ ¬ stop a) ∧ Latest p stop past x := by
  constructor
  · rintro ⟨newer, older, cut, holds, none_later⟩
    cases newer with
    | nil =>
      cases cut
      exact .inl ⟨holds, rfl⟩
    | cons y newer =>
      cases cut
      obtain ⟨not_first, not_later⟩ := List.forall_mem_cons.mp none_later
      exact .inr ⟨not_first, newer, older, rfl, holds, not_later⟩
  · rintro (⟨holds, rfl⟩ | ⟨not_first, newer, older, rfl, holds, not_later⟩)
    · exact ⟨[], past, rfl, holds, fun y member => by cases member⟩
    · exact ⟨a :: newer, older, rfl, holds, List.forall_mem_cons.mpr ⟨not_first, not_later⟩⟩

theorem Latest.mem {p stop : Entry → Prop} {x : Entry} {past : List Entry}
    (latest : Latest p stop past x) : x ∈ past := by
  obtain ⟨newer, older, rfl, -⟩ := latest
  exact List.mem_append_right _ List.mem_cons_self

theorem latest_of_mem {p stop : Entry → Prop} {x : Entry} {newer : List Entry}
    (older : List Entry) (holds : p x) (clear : ∀ y ∈ newer, ¬ stop y) :
    ∃ z, Latest p stop (newer ++ x :: older) z := by
  induction newer with
  | nil => exact ⟨x, latest_cons.mpr (.inl ⟨holds, rfl⟩)⟩
  | cons y newer ih =>
    obtain ⟨go_on, rest⟩ := List.forall_mem_cons.mp clear
    obtain ⟨z, latest⟩ := ih rest
    by_cases newest : p y
    · exact ⟨y, latest_cons.mpr (.inl ⟨newest, rfl⟩)⟩
    · exact ⟨z, latest_cons.mpr (.inr ⟨⟨newest, go_on⟩, latest⟩)⟩

/-- A `stop` with no `p` behind it hides every earlier `p`. -/
theorem not_latest_of_stop {p stop : Entry → Prop} {x y : Entry} {newer older : List Entry}
    (stops : stop y) (apart : ¬ p y) (clear : ∀ z ∈ newer, ¬ p z) :
    ¬ Latest p stop (newer ++ y :: older) x := by
  induction newer with
  | nil =>
    intro latest
    rcases latest_cons.mp latest with ⟨holds, -⟩ | ⟨⟨-, goes_on⟩, -⟩
    · exact apart holds
    · exact goes_on stops
  | cons z newer ih =>
    obtain ⟨not_first, rest⟩ := List.forall_mem_cons.mp clear
    intro latest
    rcases latest_cons.mp latest with ⟨holds, -⟩ | ⟨-, earlier⟩
    · exact not_first holds
    · exact ih rest earlier

theorem Entry.not_announces_of_isTaking {y : Entry} (taking : y.IsTaking) :
    ¬ y.Announces target := by
  rintro ⟨e, added, -⟩
  rw [Entry.IsTaking, added] at taking
  cases taking

namespace Handled

variable {h : Handled}

/-- The fields of the debouncer say what the record says. -/
structure Reflects (target : Path) (debounce cooldown : Nat) (h : Handled) : Prop where
  named : h.debouncer.fileName = target.fileName.getD []
  quiet : h.debouncer.debounce = debounce
  rest : h.debouncer.cooldown = cooldown
  pending : h.debouncer.pending = h.debouncer.lastEvent.isSome
  event : ∀ t, h.debouncer.lastEvent = some t ↔
    ∃ x, Latest (·.Announces target) Entry.IsTaking h.past x ∧ x.time = t
  taking : ∀ t, h.debouncer.lastCycle = some t ↔
    ∃ y, Latest Entry.IsTaking Entry.IsTaking h.past y ∧ y.time = t
  done : ∀ x ∈ h.past, x.time ≤ h.now

theorem reflects_fresh (target : Path) (debounce cooldown start : Nat) :
    Reflects target debounce cooldown (fresh target debounce cooldown start) where
  named := rfl
  quiet := rfl
  rest := rfl
  pending := rfl
  event := by
    intro t
    constructor
    · intro impossible
      cases impossible
    · rintro ⟨x, latest, -⟩
      exact absurd latest not_latest_nil
  taking := by
    intro t
    constructor
    · intro impossible
      cases impossible
    · rintro ⟨y, latest, -⟩
      exact absurd latest not_latest_nil
  done := by
    intro x member
    cases member

theorem latest_cons_of_neither {p stop : Entry → Prop} {a : Entry} {past : List Entry} {t : Nat}
    (not_p : ¬ p a) (not_stop : ¬ stop a) :
    (∃ x, Latest p stop (a :: past) x ∧ x.time = t) ↔ ∃ x, Latest p stop past x ∧ x.time = t := by
  apply exists_congr
  intro x
  rw [latest_cons]
  simp only [not_p, not_stop, false_and, not_false_eq_true, and_self, true_and, false_or]

theorem latest_cons_of_pos {p stop : Entry → Prop} {a : Entry} {past : List Entry} {t : Nat}
    (holds : p a) :
    (∃ x, Latest p stop (a :: past) x ∧ x.time = t) ↔ a.time = t := by
  simp only [latest_cons, holds, true_and, not_true, false_and, or_false, exists_eq_left]

theorem done_cons {past : List Entry} {now : Nat} (d : Deed)
    (done : ∀ x ∈ past, x.time ≤ now) : ∀ x ∈ (⟨now, d⟩ : Entry) :: past, x.time ≤ now := by
  intro x member
  rcases List.mem_cons.mp member with rfl | earlier
  · exact Nat.le_refl _
  · exact done x earlier

theorem reflects_add (inv : Reflects target debounce cooldown h) (e : Event) :
    Reflects target debounce cooldown (h.move (.add e)) := by
  have not_taking : ¬ Entry.IsTaking ⟨h.now, .added e⟩ := by
    intro taking
    cases taking
  have done := done_cons (.added e) inv.done
  by_cases announces : e.Announces target
  · have relevant : h.debouncer.isRelevant e = true := (isRelevant_iff inv.named e).mpr announces
    have holds : Entry.Announces ⟨h.now, .added e⟩ target := ⟨e, rfl, announces⟩
    simp only [move, Debouncer.addEvent, relevant, if_true]
    refine ⟨inv.named, inv.quiet, inv.rest, rfl, ?_, ?_, done⟩
    · intro t
      rw [latest_cons_of_pos holds]
      exact Option.some_inj
    · intro t
      rw [latest_cons_of_neither not_taking not_taking]
      exact inv.taking t
  · have irrelevant : ¬ h.debouncer.isRelevant e = true := by
      rwa [isRelevant_iff inv.named e]
    have silent : ¬ Entry.Announces ⟨h.now, .added e⟩ target := by
      rintro ⟨f, added, about⟩
      cases added
      exact announces about
    simp only [move, Debouncer.addEvent, irrelevant]
    refine ⟨inv.named, inv.quiet, inv.rest, inv.pending, ?_, ?_, done⟩
    · intro t
      rw [latest_cons_of_neither silent not_taking]
      exact inv.event t
    · intro t
      rw [latest_cons_of_neither not_taking not_taking]
      exact inv.taking t

theorem reflects_pass (inv : Reflects target debounce cooldown h) (time : Nat) :
    Reflects target debounce cooldown (h.move (.pass time)) where
  named := inv.named
  quiet := inv.quiet
  rest := inv.rest
  pending := inv.pending
  event := inv.event
  taking := inv.taking
  done := fun x member => Nat.le_add_right_of_le (inv.done x member)

theorem reflects_take (inv : Reflects target debounce cooldown h) :
    Reflects target debounce cooldown (h.move .take) := by
  have not_event (taken : Bool) : ¬ Entry.Announces ⟨h.now, .asked taken⟩ target := by
    rintro ⟨e, added, -⟩
    cases added
  cases ready : h.debouncer.isReady h.now with
  | true =>
    have taking : Entry.IsTaking ⟨h.now, .asked true⟩ := rfl
    simp only [move, Debouncer.take, ready, if_true]
    refine ⟨inv.named, inv.quiet, inv.rest, rfl, ?_, ?_, done_cons _ inv.done⟩
    · -- the taking itself stops the search before any event is met
      intro t
      constructor
      · intro impossible
        cases impossible
      · rintro ⟨x, latest, -⟩
        rcases latest_cons.mp latest with ⟨about, -⟩ | ⟨⟨-, goes_on⟩, -⟩
        · exact absurd about (not_event true)
        · exact absurd taking goes_on
    · intro t
      rw [latest_cons_of_pos taking]
      exact Option.some_inj
  | false =>
    have refused : ¬ Entry.IsTaking ⟨h.now, .asked false⟩ := by
      intro taking
      cases taking
    simp only [move, Debouncer.take, ready]
    refine ⟨inv.named, inv.quiet, inv.rest, inv.pending, ?_, ?_, done_cons _ inv.done⟩
    · intro t
      exact (inv.event t).trans (latest_cons_of_neither (not_event false) refused).symm
    · intro t
      exact (inv.taking t).trans (latest_cons_of_neither refused refused).symm

theorem reflects_run (moves : List Move) (inv : Reflects target debounce cooldown h) :
    Reflects target debounce cooldown (h.run moves) := by
  induction moves generalizing h with
  | nil => exact inv
  | cons m moves ih =>
    apply ih
    cases m with
    | add e => exact reflects_add inv e
    | pass time => exact reflects_pass inv time
    | take => exact reflects_take inv

theorem answer_eq_isReady (h : Handled) : h.answer = h.debouncer.isReady h.now := by
  unfold answer Debouncer.take
  split
  · rename_i ready
    exact ready.symm
  · rename_i early
    exact (Bool.eq_false_iff.mpr early).symm

/-- The clock has not gone back since the last event and the last taking. -/
theorem isReady_iff {d : Debouncer} {now : Nat} (pending : d.pending = d.lastEvent.isSome)
    (seen : ∀ t, d.lastEvent = some t → t ≤ now) (taken : ∀ c, d.lastCycle = some c → c ≤ now) :
    d.isReady now = true ↔ (∃ t, d.lastEvent = some t ∧ t + d.debounce ≤ now) ∧
      ∀ c, d.lastCycle = some c → c + d.cooldown ≤ now := by
  unfold Debouncer.isReady
  rw [pending]
  cases event : d.lastEvent with
  | none => simp
  | some t =>
    have before := seen t event
    have quiet : now - t < d.debounce ↔ ¬ t + d.debounce ≤ now := by omega
    cases cycle : d.lastCycle with
    | none => simp [quiet]
    | some c =>
      have earlier := taken c cycle
      have rest : now - c < d.cooldown ↔ ¬ c + d.cooldown ≤ now := by omega
      simp [quiet, rest]

theorem Reflects.event_done (inv : Reflects target debounce cooldown h) :
    ∀ t, h.debouncer.lastEvent = some t → t ≤ h.now := by
  intro t event
  obtain ⟨x, latest, rfl⟩ := (inv.event t).mp event
  exact inv.done x latest.mem

theorem Reflects.taking_done (inv : Reflects target debounce cooldown h) :
    ∀ c, h.debouncer.lastCycle = some c → c ≤ h.now := by
  intro c cycle
  obtain ⟨y, latest, rfl⟩ := (inv.taking c).mp cycle
  exact inv.done y latest.mem

theorem answer_iff_due (inv : Reflects target debounce cooldown h) :
    h.answer = true ↔ Due target debounce cooldown h.past h.now := by
  rw [answer_eq_isReady, isReady_iff inv.pending inv.event_done inv.taking_done, inv.quiet,
    inv.rest, Due]
  apply and_congr
  · constructor
    · rintro ⟨t, event, settled⟩
      obtain ⟨x, latest, rfl⟩ := (inv.event t).mp event
      exact ⟨x, latest, settled⟩
    · rintro ⟨x, latest, settled⟩
      exact ⟨x.time, (inv.event x.time).mpr ⟨x, latest, rfl⟩, settled⟩
  · constructor
    · intro rested y latest
      exact rested y.time ((inv.taking y.time).mpr ⟨y, latest, rfl⟩)
    · intro rested c cycle
      obtain ⟨y, latest, rfl⟩ := (inv.taking c).mp cycle
      exact rested y latest

theorem answers_run_congr {g : Handled} (same : g.debouncer = h.debouncer) (clock : g.now = h.now)
    (answers : g.answers = h.answers) (moves : List Move) :
    (g.run moves).answers = (h.run moves).answers := by
  induction moves generalizing g h with
  | nil => exact answers
  | cons m moves ih =>
    cases m with
    | add e =>
      apply ih
      · simp only [move, same, clock]
      · exact clock
      · exact answers
    | pass time =>
      apply ih
      · exact same
      · exact congrArg (· + time) clock
      · exact answers
    | take =>
      apply ih
      · simp only [move, same, clock]
      · exact clock
      · simp only [Handled.answers, move, List.filterMap_cons, same, clock]
        exact congrArg _ answers

theorem answers_of_irrelevant (inv : Reflects target debounce cooldown h) {e : Event}
    (irrelevant : ¬ e.Announces target) (moves : List Move) :
    ((h.move (.add e)).run moves).answers = (h.run moves).answers := by
  have ignored : ¬ h.debouncer.isRelevant e = true := by
    rwa [isRelevant_iff inv.named e]
  apply answers_run_congr
  · simp only [move, Debouncer.addEvent, ignored]
    rfl
  · rfl
  · rfl

theorem not_due_of_taken {past newer older : List Entry} {y : Entry} {now : Nat}
    (cut : past = newer ++ y :: older) (taking : y.IsTaking)
    (silent : ∀ x ∈ newer, ¬ x.Announces target) : ¬ Due target debounce cooldown past now := by
  rintro ⟨⟨x, latest, -⟩, -⟩
  rw [cut] at latest
  exact not_latest_of_stop taking (Entry.not_announces_of_isTaking taking) silent latest

theorem due_of_announced {past newer older : List Entry} {x : Entry} {now : Nat}
    (done : ∀ z ∈ past, z.time ≤ now) (cut : past = newer ++ x :: older)
    (announces : x.Announces target) (kept : ∀ y ∈ newer, ¬ y.IsTaking) {wait : Nat}
    (long : debounce + cooldown ≤ wait) : Due target debounce cooldown past (now + wait) := by
  constructor
  · obtain ⟨z, latest⟩ := latest_of_mem (p := (·.Announces target)) older announces kept
    rw [← cut] at latest
    have before := done z latest.mem
    exact ⟨z, latest, by omega⟩
  · intro y latest
    have before := done y latest.mem
    omega

end Handled

/-- Whatever is done with a new debouncer, it lets a change through exactly if one is due by the
record. So an event that does not announce the file changes no later answer, events before a
taking are taken with it, and what was announced can be taken until it is. -/
theorem answer_of_history (target : Path) (debounce cooldown start : Nat) (moves : List Move) :
    let h := (Handled.fresh target debounce cooldown start).run moves
    (h.answer = true ↔ Due target debounce cooldown h.past h.now) ∧
      (∀ e : Event, e.Announces target ↔
        (e.kind.isCreation = true ∨ e.kind.isModification = true ∧ e.kind ≠ .metadata) ∧
          ∃ p ∈ e.paths, p.fileName = target.fileName ∧ target.fileName ≠ none) ∧
      (∀ (e : Event) later, ¬ e.Announces target →
        ((h.move (.add e)).run later).answers = (h.run later).answers) ∧
      (∀ newer y older, h.past = newer ++ y :: older → y.IsTaking →
        (∀ x ∈ newer, ¬ x.Announces target) → ∀ wait, (h.move (.pass wait)).answer = false) ∧
      ∀ newer x older, h.past = newer ++ x :: older → x.Announces target →
        (∀ y ∈ newer, ¬ y.IsTaking) →
          ∃ least, ∀ wait, least ≤ wait → (h.move (.pass wait)).answer = true := by
  intro h
  have inv : Handled.Reflects target debounce cooldown h :=
    Handled.reflects_run moves (Handled.reflects_fresh target debounce cooldown start)
  have waited : ∀ wait, (h.move (.pass wait)).answer = true ↔
      Due target debounce cooldown h.past (h.now + wait) := fun wait =>
    Handled.answer_iff_due (Handled.reflects_pass inv wait)
  refine ⟨Handled.answer_iff_due inv, ?_, ?_, ?_, ?_⟩
  · intro e
    unfold Event.Announces
    rw [bringsContent_iff]
    apply and_congr Iff.rfl
    constructor
    · rintro ⟨p, member, name, same, own⟩
      exact ⟨p, member, same.trans own.symm, by rw [own]; exact Option.some_ne_none name⟩
    · rintro ⟨p, member, same, named⟩
      obtain ⟨name, own⟩ := Option.ne_none_iff_exists'.mp named
      exact ⟨p, member, name, same.trans own, own⟩
  · intro e later irrelevant
    exact Handled.answers_of_irrelevant inv irrelevant later
  · intro newer y older cut taking silent wait
    rw [Bool.eq_false_iff, ne_eq, waited]
    exact Handled.not_due_of_taken cut taking silent
  · intro newer x older cut announces kept
    refine ⟨debounce + cooldown, ?_⟩
    intro wait long
    rw [waited]
    exact Handled.due_of_announced inv.done cut announces kept long

end HotReload.Watch
