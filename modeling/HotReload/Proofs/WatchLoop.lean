import HotReload.Proofs.CycleOutcomes
import HotReload.Watch.World
import Mathlib.Logic.Relation

/-! No update is lost. As long as the last cycle has not read the current content of the
snapshot, something is left that will bring about another cycle: a write without its event, a
relevant event in the channel, a pending change, or a cycle that has begun. -/
namespace HotReload.Watch

variable {s : Session} {now : Nat} {m : Message}

theorem receive_keeps (s : Session) (now : Nat) (m : Message) :
    (s.receive now m).1.config = s.config ∧ (s.receive now m).1.file = s.file ∧
      (s.receive now m).1.last = s.last ∧
      (s.receive now m).1.debouncer.fileName = s.debouncer.fileName := by
  cases m with
  | timeout => exact ⟨rfl, rfl, rfl, rfl⟩
  | trouble text => exact ⟨rfl, rfl, rfl, rfl⟩
  | event e =>
    refine ⟨rfl, rfl, rfl, ?_⟩
    simp only [Session.receive, Debouncer.addEvent]
    split <;> rfl

theorem receive_pending (pending : s.debouncer.pending = true) :
    (s.receive now m).1.debouncer.pending = true := by
  cases m with
  | timeout => exact pending
  | trouble text => exact pending
  | event e =>
    simp only [Session.receive, Debouncer.addEvent]
    split
    · rfl
    · exact pending

theorem take_fileName (d : Debouncer) (now : Nat) : (d.take now).2.fileName = d.fileName := by
  unfold Debouncer.take
  split <;> rfl

theorem take_pending {d : Debouncer} (pending : d.pending = true)
    (not_taken : (d.take now).1 = false) : (d.take now).2.pending = true := by
  cases ready : d.isReady now with
  | true =>
    simp only [Debouncer.take, ready, if_true] at not_taken
    cases not_taken
  | false =>
    simp only [Debouncer.take, ready]
    exact pending

def Session.WatchesFile (s : Session) : Prop :=
  s.debouncer.fileName = s.file.fileName.getD []

theorem isRelevant_of_announces {e : Event} (watches : s.WatchesFile)
    (about : e.Announces s.file) : s.debouncer.isRelevant e = true := by
  obtain ⟨content, p, member, name, named, target⟩ := about
  rw [Session.WatchesFile, target, Option.getD_some] at watches
  simp only [Debouncer.isRelevant, content, Bool.true_and, List.any_eq_true, beq_iff_eq]
  exact ⟨p, member, named.trans (congrArg some watches.symm)⟩

theorem pending_of_announces {e : Event} (watches : s.WatchesFile)
    (about : e.Announces s.file) : (s.receive now (.event e)).1.debouncer.pending = true := by
  simp only [Session.receive, Debouncer.addEvent, isRelevant_of_announces watches about, if_true]

namespace World

def UpToDate (w : World) : Prop := ∃ c, w.session.last = some c ∧ c.read = w.view.content w.file

/-- Something is left that will bring about another cycle. -/
def Stirring (w : World) : Prop :=
  0 < w.owed ∨ (∃ e, .event e ∈ w.channel ∧ e.Announces w.file) ∨
    w.session.debouncer.pending = true ∨ w.phase = .starting ∨ w.phase = .cycling

structure Invariant (w : World) : Prop where
  watches : w.session.WatchesFile
  recorded : ∀ c, w.session.last = some c →
    ∃ k, c = Cycle.ofContent w.session.config w.file k c.read
  noticed : w.view.isPresent w.file = true → w.UpToDate ∨ w.Stirring

variable {w v : World}

theorem invariant_opening (config : ProjectConfig) (file : Path) (outOpen : Bool)
    (view : FileView) (channel : List Message) (owed : Nat) (time : Time) :
    (opening config file outOpen view channel owed time).Invariant where
  watches := rfl
  recorded := fun c impossible => by cases impossible
  noticed := fun _ => .inr (.inr (.inr (.inr (.inl rfl))))

/-- The environment may do anything to the channel and the debts that leaves something stirring. -/
theorem Invariant.of_environment (inv : w.Invariant) {channel : List Message} {owed : Nat}
    (time : Time) (left : w.Stirring → { w with channel, owed, time }.Stirring) :
    { w with channel, owed, time }.Invariant :=
  ⟨inv.watches, inv.recorded, fun present => (inv.noticed present).imp_right left⟩

theorem invariant_receive (inv : w.Invariant) {m : Message} {rest : List Message}
    (waiting : w.phase = .waiting)
    (kept : ∀ e, .event e ∈ w.channel → .event e = m ∨ .event e ∈ rest) :
    { w with
      session := (w.session.receive w.time.now m).1
      channel := rest
      phase := .received }.Invariant := by
  obtain ⟨same_config, same_file, same_last, same_name⟩ := receive_keeps w.session w.time.now m
  constructor
  · simp only [Session.WatchesFile, same_name, same_file]
    exact inv.watches
  · simp only [file, same_config, same_file, same_last]
    exact inv.recorded
  · simp only [UpToDate, Stirring, file, same_file, same_last]
    intro present
    rcases inv.noticed present with current | owed | ⟨e, queued, about⟩ | pending | other | other
    · exact .inl current
    · exact .inr (.inl owed)
    · rcases kept e queued with rfl | queued
      · exact .inr (.inr (.inr (.inl (pending_of_announces inv.watches about))))
      · exact .inr (.inr (.inl ⟨e, queued, about⟩))
    · exact .inr (.inr (.inr (.inl (receive_pending pending))))
    · rw [waiting] at other
      cases other
    · rw [waiting] at other
      cases other

theorem invariant_step (inv : w.Invariant) (step : Step w v) : v.Invariant := by
  cases step with
  | write bytes =>
    exact ⟨inv.watches, inv.recorded, fun _ => .inr (.inl (Nat.succ_pos _))⟩
  | announce e about settled =>
    refine inv.of_environment w.time fun _ => .inr (.inl ⟨e, ?_, about⟩)
    exact List.mem_append_right _ (List.mem_singleton_self _)
  | arrive m =>
    refine inv.of_environment w.time fun stirring => ?_
    exact stirring.imp_right
      (Or.imp_left fun ⟨e, queued, about⟩ => ⟨e, List.mem_append_left _ queued, about⟩)
  | pass time later => exact inv.of_environment time id
  | find starting present =>
    exact ⟨inv.watches, inv.recorded, fun _ => .inr (.inr (.inr (.inr (.inr rfl))))⟩
  | miss starting absent =>
    refine ⟨inv.watches, inv.recorded, fun present => ?_⟩
    rw [show w.view.isPresent w.file = true from present] at absent
    cases absent
  | receive m rest waiting queued =>
    refine invariant_receive inv waiting fun e member => ?_
    rw [queued] at member
    exact List.mem_cons.mp member
  | wake waiting =>
    exact invariant_receive inv waiting fun e member => .inr member
  | take received ready =>
    exact ⟨(take_fileName _ _).trans inv.watches, inv.recorded,
      fun _ => .inr (.inr (.inr (.inr (.inr rfl))))⟩
  | skip received early =>
    refine ⟨(take_fileName _ _).trans inv.watches, inv.recorded, fun present => ?_⟩
    rcases inv.noticed present with current | owed | queued | pending | other | other
    · exact .inl current
    · exact .inr (.inl owed)
    · exact .inr (.inr (.inl queued))
    · exact .inr (.inr (.inr (.inl (take_pending pending early))))
    · rw [received] at other
      cases other
    · rw [received] at other
      cases other
  | cycle cycling =>
    have read : (Cycle.run w.session.config w.view w.file w.session.completed).read =
      w.view.content w.file := Cycle.read_run
    refine ⟨inv.watches, fun c same => ?_, fun _ => .inl ⟨_, rfl, read⟩⟩
    cases same
    exact ⟨w.session.completed, congrArg (Cycle.ofContent _ _ _) read.symm⟩

theorem invariant_steps (inv : w.Invariant) (run : Relation.ReflTransGen Step w v) :
    v.Invariant := by
  induction run with
  | refl => exact inv
  | tail _ step ih => exact invariant_step ih step

/-- A turn of the loop is a sequence of steps in which nobody else comes between. -/
theorem turn_steps {m : Message} {rest : List Message} (waiting : w.phase = .waiting)
    (taken_in : w.channel = m :: rest ∨ m = .timeout ∧ w.channel = rest) :
    ∃ v, Relation.ReflTransGen Step w v ∧ v.phase = .waiting ∧ v.channel = rest ∧
      v.session = (w.session.turn w.view w.time m).1 := by
  have received : Step w { w with
      session := (w.session.receive w.time.now m).1, channel := rest, phase := .received } := by
    rcases taken_in with queued | ⟨rfl, rfl⟩
    · exact .receive w m rest waiting queued
    · exact .wake w waiting
  have come := Relation.ReflTransGen.single received
  simp only [Session.turn]
  cases ready : ((w.session.receive w.time.now m).1.debouncer.take w.time.now).1 with
  | true => exact ⟨_, (come.tail (.take _ rfl ready)).tail (.cycle _ rfl), rfl, rfl, rfl⟩
  | false => exact ⟨_, come.tail (.skip _ rfl ready), rfl, rfl, rfl⟩

theorem start_steps {config : ProjectConfig} {view : FileView} {snapshot : Path}
    {outOpen : Bool} {time : Time} {s : Session} {outputs : List Output}
    (started : Session.start config view snapshot outOpen time = .ok (s, outputs))
    (channel : List Message) (owed : Nat) :
    ∃ v, Relation.ReflTransGen Step
        (opening config (view.normalize snapshot) outOpen view channel owed time) v ∧
      v.phase = .waiting ∧ v.channel = channel ∧ v.session = s := by
  simp only [Session.start] at started
  split at started
  · cases started
  · split at started <;> rename_i present <;> cases started
    · have found := Relation.ReflTransGen.single (Step.find
        (opening config (view.normalize snapshot) outOpen view channel owed time) rfl present)
      exact ⟨_, found.tail (.cycle _ rfl), rfl, rfl, rfl⟩
    · have missed := Relation.ReflTransGen.single (Step.miss
        (opening config (view.normalize snapshot) outOpen view channel owed time) rfl
        (Bool.eq_false_iff.mpr present))
      exact ⟨_, missed, rfl, rfl, rfl⟩

theorem isReady_of_late {d : Debouncer} {now event : Nat} (pending : d.pending = true)
    (last : d.lastEvent = some event) (quiet : event + d.debounce ≤ now)
    (rested : ∀ c, d.lastCycle = some c → c + d.cooldown ≤ now) : d.isReady now = true := by
  have settled : ¬ now - event < d.debounce := by omega
  simp only [Debouncer.isReady, last, settled, if_false]
  cases cycle : d.lastCycle with
  | none => exact pending
  | some c =>
    have cooled : ¬ now - c < d.cooldown := by
      have := rested c cycle
      omega
    simp only [cooled, if_false]
    exact pending

/-- A write to a snapshot that nobody else touches is read in the end. -/
theorem write_is_read {name : List UInt8} (waiting : w.phase = .waiting)
    (named : w.file.fileName = some name) (watches : w.session.WatchesFile)
    (settled : w.owed = 0) (quiet : w.channel = []) (bytes : List UInt8) :
    ∃ v, Relation.ReflTransGen Step w v ∧ v.phase = .waiting ∧ v.owed = 0 ∧ v.channel = [] ∧
      v.session.debouncer.pending = false ∧ v.view.isPresent v.file = true ∧
      v.view.content v.file = .ok bytes := by
  have about : Event.Announces ⟨.createFile, [w.file]⟩ w.file :=
    ⟨rfl, w.file, List.mem_singleton_self _, name, named, named⟩
  let later := w.time.now + w.session.debouncer.debounce + w.session.debouncer.cooldown +
    w.session.debouncer.lastCycle.getD 0
  have written := Relation.ReflTransGen.single (Step.write w bytes)
  have announced := written.tail (.announce _ ⟨.createFile, [w.file]⟩ (by exact about) 1)
  have received := announced.tail (.receive _ (.event ⟨.createFile, [w.file]⟩) [] waiting
    (congrArg (· ++ [.event ⟨.createFile, [w.file]⟩]) quiet))
  have waited := received.tail (.pass _ ⟨later, w.time.seconds⟩ (by dsimp only; omega))
  have ready : (w.session.debouncer.addEvent w.time.now ⟨.createFile, [w.file]⟩).isReady
      later = true := by
    rw [Debouncer.addEvent, if_pos (isRelevant_of_announces watches about)]
    refine isReady_of_late rfl rfl ?_ fun c cycle => ?_
    · dsimp only [later]
      omega
    · dsimp only [later] at cycle ⊢
      rw [cycle, Option.getD_some]
      omega
  have let_through : ((w.session.debouncer.addEvent w.time.now
      ⟨.createFile, [w.file]⟩).take later) = (true, _) := if_pos ready
  have read := (waited.tail (.take _ rfl (congrArg Prod.fst let_through))).tail (.cycle _ rfl)
  refine ⟨_, read, rfl, ?_, rfl, ?_, ?_, ?_⟩
  · change w.owed + 1 - 1 = 0
    omega
  · exact congrArg (fun t => t.2.pending) let_through
  · change (w.view.write w.file bytes).isPresent w.file = true
    simp only [FileView.write, decide_true, Bool.true_or]
  · change (w.view.write w.file bytes).content w.file = .ok bytes
    simp only [FileView.write, if_true]

/-- Once every write has had its event, no relevant event is queued and no change is pending, what
the last cycle read is what the snapshot holds now, and it says what that means. -/
theorem last_cycle_is_current {config : ProjectConfig} {file : Path} {outOpen : Bool}
    {view : FileView} {channel : List Message} {owed : Nat} {time : Time}
    (run : Relation.ReflTransGen Step (opening config file outOpen view channel owed time) w)
    (started : w.phase ≠ .starting) (between : w.phase ≠ .cycling) (settled : w.owed = 0)
    (quiet : ∀ e, .event e ∈ w.channel → ¬ e.Announces w.file)
    (taken : w.session.debouncer.pending = false) (present : w.view.isPresent w.file = true) :
    ∃ c k, w.session.last = some c ∧
      c.IsOver w.session.config w.file k (w.view.content w.file) := by
  have inv := invariant_steps (invariant_opening config file outOpen view channel owed time) run
  rcases inv.noticed present with
    ⟨c, last, read⟩ | owed | ⟨e, queued, about⟩ | pending | other | other
  · obtain ⟨k, kept⟩ := inv.recorded c last
    rw [read] at kept
    subst kept
    exact ⟨_, k, last, Cycle.isOver_run _ _ _ k⟩
  · exact absurd settled (Nat.ne_of_gt owed)
  · exact absurd about (quiet e queued)
  · rw [taken] at pending
    cases pending
  · exact absurd other started
  · exact absurd other between

def alone : World :=
  opening .default ⟨[0x2F, 0x73]⟩ true
    ⟨⟨[]⟩, fun _ => false, fun _ => none, fun _ => .error .notFound⟩ [] 0 ⟨0, 0⟩

theorem last_cycle_is_current_after_write : ∃ w, Relation.ReflTransGen Step alone w ∧
    w.phase ≠ .starting ∧ w.phase ≠ .cycling ∧ w.owed = 0 ∧
    (∀ e, .event e ∈ w.channel → ¬ e.Announces w.file) ∧
    w.session.debouncer.pending = false ∧ w.view.isPresent w.file = true ∧
    w.view.content w.file = .ok [0x7B, 0x7D] ∧
    ∃ c k, w.session.last = some c ∧
      c.IsOver w.session.config w.file k (w.view.content w.file) := by
  have named : alone.file.fileName = some [0x73] := by decide
  have missed := Relation.ReflTransGen.single (Step.miss alone rfl rfl)
  obtain ⟨w, run, waiting, settled, empty, taken, present, content⟩ :=
    write_is_read (w := { alone with phase := .waiting }) rfl named rfl rfl rfl [0x7B, 0x7D]
  have started : w.phase ≠ .starting := by rw [waiting]; decide
  have between : w.phase ≠ .cycling := by rw [waiting]; decide
  have quiet : ∀ e, .event e ∈ w.channel → ¬ e.Announces w.file := by
    intro e member
    rw [empty] at member
    cases member
  have whole := missed.trans run
  exact ⟨w, whole, started, between, settled, quiet, taken, present, content,
    last_cycle_is_current whole started between settled quiet taken present⟩

end World
end HotReload.Watch
