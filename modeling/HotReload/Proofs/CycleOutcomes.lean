import HotReload.Proofs.PayloadParts
import HotReload.Proofs.StandardOutput
import HotReload.Watch.Displays

/-! What a run of watch cycles answers, whatever the file holds from cycle to cycle.
All that a cycle knows of the cycles before it is how many of them loaded. The count is a natural
number; a counter of 64 bits is the same below 2 ^ 64 cycles. -/
namespace HotReload

namespace Watch

variable {config : ProjectConfig} {file : Path} {view : FileView}

theorem loads_eq_true_iff : loads file view = true ↔ ∃ s, Snapshot.load view file = .ok s := by
  unfold loads
  cases Snapshot.load view file with
  | error e => simp [Except.toBool]
  | ok s => simp [Except.toBool]

theorem completed_run (n : Nat) :
    (Cycle.run config view file n).completed = n + if loads file view then 1 else 0 := by
  unfold loads
  cases loaded : Snapshot.load view file with
  | error e =>
    rw [Cycle.run_of_fault loaded]
    rfl
  | ok s =>
    rw [Cycle.run_of_load loaded]
    rfl

theorem outcome_run_of_fault {e : SnapshotError} (n : Nat) :
    (Cycle.run config view file n).outcome = .error e ↔ Snapshot.load view file = .error e := by
  cases loaded : Snapshot.load view file with
  | error f => simp [Cycle.run_of_fault loaded]
  | ok s => simp [Cycle.run_of_load loaded, Cycle.ofSnapshot]

/-- The snapshot's own word on whether it is a rebuild is not asked. -/
theorem outcome_first {s : Snapshot} (loaded : Snapshot.load view file = .ok s) :
    (Cycle.run config view file 0).outcome = .ok .initial := by
  rw [Cycle.run_of_load loaded]
  have gated : Payload.ofBuild? config s.registry { s.context with isRebuild := false } = none := by
    rw [Payload.ofBuild?_eq_none_iff]
    rfl
  simp only [Cycle.ofSnapshot, Nat.lt_irrefl, decide_false, gated]
  rfl

theorem outcome_later {s : Snapshot} {n : Nat} (later : 0 < n)
    (loaded : Snapshot.load view file = .ok s) :
    (Cycle.run config view file n).outcome =
      match rebuildPayload config s with
      | none => .ok .disabled
      | some p => .ok (.payload p) := by
  rw [Cycle.run_of_load loaded]
  simp only [Cycle.ofSnapshot, later, decide_true, if_true, rebuildPayload]
  cases Payload.ofBuild? config s.registry { s.context with isRebuild := true } with
  | none => rfl
  | some p => rfl

theorem rebuildPayload_eq_none_iff (s : Snapshot) :
    rebuildPayload config s = none ↔ config.hotReloadEnabled = false := by
  unfold rebuildPayload
  rw [Payload.ofBuild?_eq_none_iff]
  simp only [Payload.eligible, Bool.true_and]

theorem outcome_eq_initial_iff (n : Nat) :
    (Cycle.run config view file n).outcome = .ok .initial ↔ loads file view = true ∧ n = 0 := by
  rw [loads_eq_true_iff]
  cases loaded : Snapshot.load view file with
  | error e =>
    have failed : (Cycle.run config view file n).outcome = .error e :=
      (outcome_run_of_fault n).mpr loaded
    simp [failed]
  | ok s =>
    cases n with
    | zero => simp [outcome_first loaded]
    | succ n =>
      rw [outcome_later (Nat.succ_pos n) loaded]
      cases rebuildPayload config s <;> simp

namespace Cycle

/-- The cycle says what this content of the snapshot file means, when `completed` others have
loaded before. -/
structure IsOver (config : ProjectConfig) (file : Path) (completed : Nat)
    (content : Except ReadFault (List UInt8)) (c : Cycle) : Prop where
  read : c.read = content
  unreadable : ∀ fault, content = .error fault → c.outcome = .error (.unreadable file fault)
  notText : ∀ bytes, content = .ok bytes → Utf8.decode? bytes = none →
    c.outcome = .error (.unreadable file .notText)
  malformed : ∀ bytes text fault, content = .ok bytes → Utf8.decode? bytes = some text →
    Snapshot.ofText text = .error fault → c.outcome = .error (.malformed file fault)
  initial : ∀ bytes text s, content = .ok bytes → Utf8.decode? bytes = some text →
    Snapshot.ofText text = .ok s → completed = 0 → c.outcome = .ok .initial
  rebuild : ∀ bytes text s, content = .ok bytes → Utf8.decode? bytes = some text →
    Snapshot.ofText text = .ok s → 0 < completed →
      c.outcome = match rebuildPayload config s with
        | none => .ok .disabled
        | some p => .ok (.payload p)

theorem isOver_run (config : ProjectConfig) (view : FileView) (file : Path) (completed : Nat) :
    (run config view file completed).IsOver config file completed (view.content file) where
  read := read_run
  unreadable fault content :=
    (outcome_run_of_fault completed).mpr (Snapshot.load_of_unreadable content)
  notText bytes content decoded :=
    (outcome_run_of_fault completed).mpr (Snapshot.load_of_notText content decoded)
  malformed bytes text fault content decoded parsed :=
    (outcome_run_of_fault completed).mpr (Snapshot.load_of_malformed content decoded parsed)
  initial bytes text s content decoded parsed first := by
    subst first
    exact outcome_first (Snapshot.load_eq_ok_iff.mpr ⟨bytes, text, content, decoded, parsed⟩)
  rebuild bytes text s content decoded parsed later :=
    outcome_later later (Snapshot.load_eq_ok_iff.mpr ⟨bytes, text, content, decoded, parsed⟩)

/-- The later cycles begin with the count of those that loaded before. -/
theorem history_append (before after : List FileView) (n : Nat) :
    history config file n (before ++ after) =
      history config file n before ++
        history config file (n + before.countP (loads file)) after := by
  induction before generalizing n with
  | nil => rfl
  | cons view before ih =>
    have counted : (run config view file n).completed + before.countP (loads file) =
        n + (view :: before).countP (loads file) := by
      rw [completed_run, List.countP_cons]
      omega
    rw [List.cons_append, history, history, ih, counted]
    rfl

theorem length_history (views : List FileView) (n : Nat) :
    (history config file n views).length = views.length := by
  induction views generalizing n with
  | nil => rfl
  | cons view views ih =>
    rw [history, List.length_cons, List.length_cons, ih]

theorem history_split (before after : List FileView) (n : Nat) :
    history config file n (before ++ view :: after) =
      history config file n before ++
        run config view file (n + before.countP (loads file)) ::
          history config file (n + (before ++ [view]).countP (loads file)) after := by
  have counted : n + before.countP (loads file) + (if loads file view then 1 else 0) =
      n + (before ++ [view]).countP (loads file) := by
    rw [List.countP_append, List.countP_singleton, Nat.add_assoc]
  rw [history_append, history, completed_run, counted]

end Cycle

/-- In every run of cycles: the count grows by one with each content that loads, the first of them
is the initial build, every later one is a payload unless hot reload is off, and a cycle that fails
changes no other. -/
theorem outcomes_of_cycles (config : ProjectConfig) (file : Path) (before : List FileView)
    (view : FileView) (after : List FileView) :
    ∃ c, (Cycle.history config file 0 (before ++ view :: after))[before.length]? = some c ∧
      c.completed = before.countP (loads file) + (if loads file view then 1 else 0) ∧
      (∀ e, c.outcome = .error e ↔ Snapshot.load view file = .error e) ∧
      (c.outcome = .ok .initial ↔
        loads file view = true ∧ ∀ earlier ∈ before, loads file earlier = false) ∧
      (∀ s, Snapshot.load view file = .ok s → (∃ earlier ∈ before, loads file earlier = true) →
        (c.outcome = .ok .disabled ↔ config.hotReloadEnabled = false) ∧
        (config.hotReloadEnabled = true → ∃ p,
          Payload.ofBuild? config s.registry { s.context with isRebuild := true } = some p ∧
            c.outcome = .ok (.payload p))) ∧
      (loads file view = false → Cycle.history config file 0 (before ++ view :: after) =
        Cycle.history config file 0 before ++
          c :: (Cycle.history config file 0 (before ++ after)).drop before.length) := by
  refine ⟨Cycle.run config view file (before.countP (loads file)), ?_, completed_run _,
    fun e => outcome_run_of_fault _, ?_, ?_, ?_⟩
  · rw [Cycle.history_split, Nat.zero_add]
    rw [List.getElem?_append_right (Nat.le_of_eq (Cycle.length_history _ _)),
      Cycle.length_history, Nat.sub_self, List.getElem?_cons_zero]
  · rw [outcome_eq_initial_iff, List.countP_eq_zero]
    simp only [Bool.not_eq_true]
  · rintro s loaded ⟨earlier, member, counted⟩
    have later : 0 < before.countP (loads file) :=
      List.countP_pos_iff.mpr ⟨earlier, member, counted⟩
    rw [outcome_later later loaded, ← rebuildPayload_eq_none_iff s]
    constructor
    · cases rebuildPayload config s <;> simp
    · intro enabled
      cases built : rebuildPayload config s with
      | none =>
        rw [rebuildPayload_eq_none_iff, enabled] at built
        cases built
      | some p => exact ⟨p, built, rfl⟩
  · intro failed
    have unchanged : (before ++ [view]).countP (loads file) = before.countP (loads file) := by
      rw [List.countP_append, List.countP_singleton, failed]
      rfl
    rw [Cycle.history_split, Cycle.history_append before after, unchanged, Nat.zero_add,
      List.drop_left' (Cycle.length_history _ _)]

end Watch
end HotReload
