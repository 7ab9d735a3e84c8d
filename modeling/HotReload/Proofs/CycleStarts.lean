import HotReload.Proofs.DebounceHistory
import HotReload.Proofs.WatchLoop
import HotReload.Watch.Starts

/-! How far apart the cycles of a session begin. The debouncer keeps the cycles that it lets
through a cooldown apart. It is not told of the cycle at startup, so the one after that waits only
until its event lies back far enough. -/
namespace HotReload.Watch

variable {starts : List Start} {now : Nat}

/-- When the debouncer let the last cycle through, if it was asked for it. -/
def lastTaken : List Start → Option Nat
  | [] => none
  | s :: _ => if s.atStartup then none else some s.time

def Start.wait (s : Start) : Nat :=
  if s.atStartup then Debouncer.defaultDebounce else Debouncer.defaultCooldown

def Follows (later earlier : Start) : Prop :=
  later.atStartup = false ∧ earlier.time + earlier.wait ≤ later.time

/-- What the debouncer of a session holds after cycles began. -/
structure Debouncer.Records (d : Debouncer) (now : Nat) (starts : List Start) : Prop where
  quiet : d.debounce = defaultDebounce
  rest : d.cooldown = defaultCooldown
  pending : d.pending = d.lastEvent.isSome
  taken : d.lastCycle = lastTaken starts
  event : ∀ t, d.lastEvent = some t → t ≤ now ∧ ∀ s ∈ starts, s.time ≤ t
  done : ∀ s ∈ starts, s.time ≤ now

namespace Debouncer.Records

variable {d : Debouncer} (known : d.Records now starts)
include known

theorem later {after : Nat} (passed : now ≤ after) : d.Records after starts :=
  ⟨known.quiet, known.rest, known.pending, known.taken,
    fun t last => ⟨Nat.le_trans (known.event t last).1 passed, (known.event t last).2⟩,
    fun s member => Nat.le_trans (known.done s member) passed⟩

theorem addEvent (e : Event) : (d.addEvent now e).Records now starts := by
  unfold Debouncer.addEvent
  split
  · refine ⟨known.quiet, known.rest, rfl, known.taken, fun t last => ?_, known.done⟩
    cases last
    exact ⟨Nat.le_refl now, known.done⟩
  · exact known

theorem of_not_taken (early : (d.take now).1 = false) : (d.take now).2.Records now starts := by
  unfold Debouncer.take at early ⊢
  split
  · rename_i ready
    rw [if_pos ready] at early
    cases early
  · exact known

theorem of_taken (ready : (d.take now).1 = true) :
    (d.take now).2.Records now (⟨now, false⟩ :: starts) := by
  unfold Debouncer.take at ready ⊢
  split
  · exact ⟨known.quiet, known.rest, rfl, rfl, fun t last => (nomatch last),
      List.forall_mem_cons.mpr ⟨Nat.le_refl now, known.done⟩⟩
  · rename_i early
    rw [if_neg early] at ready
    cases ready

theorem follows_of_taken (ready : (d.take now).1 = true) :
    ∀ s ∈ starts.head?, Follows ⟨now, false⟩ s := by
  have ready : d.isReady now = true := by
    rw [← ready, Debouncer.take]
    split <;> simp_all
  cases starts with
  | nil => simp
  | cons s starts =>
    have cycle_past : ∀ c, d.lastCycle = some c → c ≤ now := by
      intro c last
      rw [known.taken, lastTaken] at last
      split at last
      · cases last
      · cases last
        exact known.done s List.mem_cons_self
    obtain ⟨⟨t, last, settled⟩, rested⟩ := (Handled.isReady_iff known.pending
      (fun t last => (known.event t last).1) cycle_past).mp ready
    simp only [List.head?_cons, Option.mem_some_iff, forall_eq']
    refine ⟨rfl, ?_⟩
    unfold Start.wait
    split
    · -- after the startup cycle only the event counts
      have received := (known.event t last).2 s List.mem_cons_self
      rw [known.quiet] at settled
      exact Nat.le_trans (Nat.add_le_add_right received _) settled
    · rename_i let_through
      rw [← known.rest]
      exact rested s.time (by rw [known.taken, lastTaken, if_neg let_through])

end Debouncer.Records

theorem Session.records_receive {s : Session} (known : s.debouncer.Records now starts)
    (m : Message) : (s.receive now m).1.debouncer.Records now starts := by
  cases m with
  | timeout => exact known
  | trouble text => exact known
  | event e => exact known.addEvent e

namespace World

variable {first w v : World}

structure Timely (w : World) (starts : List Start) : Prop where
  known : w.session.debouncer.Records w.time.now starts
  opening : w.phase = .starting → starts = [] ∧ w.session.debouncer.lastEvent = none
  spaced : starts.IsChain Follows

theorem timely_opening (config : ProjectConfig) (file : Path) (outOpen : Bool) (view : FileView)
    (channel : List Message) (owed : Nat) (time : Time) :
    (opening config file outOpen view channel owed time).Timely [] where
  known := ⟨rfl, rfl, rfl, rfl, fun _ last => (nomatch last), fun _ member => (nomatch member)⟩
  opening := fun _ => ⟨rfl, rfl⟩
  spaced := .nil

theorem begun?_of_phase_eq (same : v.phase = w.phase) : begun? w v = none := by
  unfold begun?
  rw [same]
  exact if_pos (em (w.phase = .cycling))

theorem begun?_of_not_cycling (idle : v.phase ≠ .cycling) : begun? w v = none := if_pos (.inr idle)

theorem Timely.of_idle (timely : w.Timely starts)
    (known : v.session.debouncer.Records v.time.now starts) (idle : begun? w v = none)
    (opening : v.phase = .starting → starts = [] ∧ v.session.debouncer.lastEvent = none) :
    v.Timely ((begun? w v).toList ++ starts) := by
  rw [idle]
  exact ⟨known, opening, timely.spaced⟩

theorem timely_step (timely : w.Timely starts) (step : Step w v) :
    v.Timely ((begun? w v).toList ++ starts) := by
  have known := timely.known
  cases step with
  | write bytes => exact timely.of_idle known (begun?_of_phase_eq rfl) timely.opening
  | announce e about settled => exact timely.of_idle known (begun?_of_phase_eq rfl) timely.opening
  | arrive m => exact timely.of_idle known (begun?_of_phase_eq rfl) timely.opening
  | pass time later =>
    exact timely.of_idle (known.later later) (begun?_of_phase_eq rfl) timely.opening
  | find starting present =>
    obtain ⟨rfl, no_event⟩ := timely.opening starting
    have begun : begun? w { w with phase := .cycling } = some ⟨w.time.now, true⟩ := by
      simp [begun?, starting]
    rw [begun]
    refine ⟨⟨known.quiet, known.rest, known.pending, known.taken, fun t last => ?_,
      List.forall_mem_singleton.mpr (Nat.le_refl _)⟩, fun impossible => (nomatch impossible),
      .singleton _⟩
    rw [no_event] at last
    cases last
  | miss starting absent =>
    exact timely.of_idle known (begun?_of_not_cycling (by simp)) fun impossible =>
      (nomatch impossible)
  | receive m rest waiting queued =>
    exact timely.of_idle (Session.records_receive known m) (begun?_of_not_cycling (by simp))
      fun impossible => (nomatch impossible)
  | wake waiting =>
    exact timely.of_idle (Session.records_receive known .timeout)
      (begun?_of_not_cycling (by simp)) fun impossible => (nomatch impossible)
  | take received ready =>
    have begun (s : Session) :
        begun? w { w with session := s, phase := .cycling } = some ⟨w.time.now, false⟩ := by
      simp [begun?, received]
    rw [begun]
    exact ⟨known.of_taken ready, fun impossible => (nomatch impossible),
      List.isChain_cons.mpr ⟨known.follows_of_taken ready, timely.spaced⟩⟩
  | skip received early =>
    exact timely.of_idle (known.of_not_taken early) (begun?_of_not_cycling (by simp))
      fun impossible => (nomatch impossible)
  | cycle cycling =>
    exact timely.of_idle known (begun?_of_not_cycling (by simp)) fun impossible =>
      (nomatch impossible)

theorem timely_run (timely : first.Timely []) (run : Run first w starts) : w.Timely starts := by
  induction run with
  | refl => exact timely
  | tail _ step ih => exact timely_step ih step

theorem spaced_debounce (chain : starts.IsChain Follows) :
    Spaced Debouncer.defaultDebounce starts := by
  refine chain.imp fun later earlier follows => Nat.le_trans (Nat.add_le_add_left ?_ _) follows.2
  unfold Start.wait
  split <;> decide

/-- Only the two cycles that began first can be too close. -/
theorem spaced_cooldown_iff (chain : starts.IsChain Follows) :
    Spaced Debouncer.defaultCooldown starts ↔
      ∀ later second startup, starts = later ++ [second, startup] → startup.atStartup = true →
        startup.time + Debouncer.defaultCooldown ≤ second.time := by
  constructor
  · rintro spaced later second startup rfl -
    exact (List.isChain_append_cons_cons.mp spaced).2.1
  · intro rested
    refine List.isChain_iff_forall_rel_of_append_cons_cons.mpr ?_
    rintro second earlier later older rfl
    obtain ⟨-, follows, others⟩ := List.isChain_append_cons_cons.mp chain
    cases kind : earlier.atStartup with
    | false =>
      have wait : earlier.wait = Debouncer.defaultCooldown := by simp [Start.wait, kind]
      exact wait ▸ follows.2
    | true =>
      -- the debouncer did not let this one through, so no cycle can stand before it
      cases older with
      | nil => exact rested later second earlier rfl kind
      | cons s older =>
        have let_through := (List.isChain_cons_cons.mp others).1.1
        rw [kind] at let_through
        cases let_through

/-- In every run, cycles begin a cooldown apart exactly if the one that follows the startup cycle
does; that one begins at least the quiet time of an event later. -/
theorem cooldown_kept_iff {config : ProjectConfig} {file : Path} {outOpen : Bool}
    {view : FileView} {channel : List Message} {owed : Nat} {time : Time}
    (run : Run (opening config file outOpen view channel owed time) w starts) :
    Spaced Debouncer.defaultDebounce starts ∧
      (Spaced Debouncer.defaultCooldown starts ↔
        ∀ later second startup, starts = later ++ [second, startup] → startup.atStartup = true →
          startup.time + Debouncer.defaultCooldown ≤ second.time) := by
  have timely := timely_run (timely_opening config file outOpen view channel owed time) run
  exact ⟨spaced_debounce timely.spaced, spaced_cooldown_iff timely.spaced⟩

def announced : World :=
  opening .default ⟨[0x2F, 0x73]⟩ true
    ⟨⟨[]⟩, fun _ => true, some, fun _ => .ok [0x7B, 0x7D]⟩
    [.event ⟨.createFile, [⟨[0x2F, 0x73]⟩]⟩] 0 ⟨0, 0⟩

/-- The startup cycle at 0 ms, and the next one 150 ms later. -/
theorem run_announced : ∃ w, Run announced w [⟨150, false⟩, ⟨0, true⟩] := by
  have found := Run.refl.tail (.find announced rfl rfl)
  have cycled := found.tail (.cycle _ rfl)
  have received := cycled.tail (.receive _ (.event ⟨.createFile, [⟨[0x2F, 0x73]⟩]⟩) [] rfl rfl)
  have waited := received.tail (.pass _ ⟨150, 0⟩ (Nat.zero_le 150))
  exact ⟨_, waited.tail (.take _ rfl (by decide +kernel))⟩

theorem cooldown_kept_iff_announced : ∃ w, Run announced w [⟨150, false⟩, ⟨0, true⟩] ∧
    Spaced Debouncer.defaultDebounce [⟨150, false⟩, ⟨0, true⟩] ∧
    ¬ Spaced Debouncer.defaultCooldown [⟨150, false⟩, ⟨0, true⟩] := by
  obtain ⟨w, run⟩ := run_announced
  obtain ⟨spaced, kept⟩ := cooldown_kept_iff run
  refine ⟨w, run, spaced, fun cooled => ?_⟩
  exact absurd (kept.mp cooled [] ⟨150, false⟩ ⟨0, true⟩ rfl rfl) (by decide)

theorem startup_cycle_not_cooled : ∃ w starts, Run announced w starts ∧
    ¬ Spaced Debouncer.defaultCooldown starts := by
  obtain ⟨w, run⟩ := run_announced
  refine ⟨w, _, run, fun cooled => ?_⟩
  exact absurd (List.isChain_cons_cons.mp cooled).1 (by decide)

end World

end HotReload.Watch
