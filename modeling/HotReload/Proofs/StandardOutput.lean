import HotReload.CommandLine.Run
import HotReload.Proofs.JsonText

/-! What watch mode writes to the standard output is what one-shot runs over the same contents
would print. Nothing but the count of completed cycles is carried from one cycle to the next,
and only whether it is zero matters. -/
namespace HotReload

namespace Output

@[simp]
theorem standard_nil : standard [] = "" := rfl

@[simp]
theorem standard_append (a b : List Output) : standard (a ++ b) = standard a ++ standard b := by
  simp only [standard, List.map_append, String.join_append]

@[simp]
theorem standard_out (text : String) : standard [.out text] = text := by
  simp [standard]

@[simp]
theorem standard_err (text : String) : standard [.err text] = "" := by
  simp [standard]

@[simp]
theorem standard_notes (verbose : Bool) (notes : List Note) :
    standard (Note.logVerbose verbose notes) = "" := by
  unfold Note.logVerbose
  split
  · induction notes with
    | nil => rfl
    | cons n ns ih =>
      rw [List.map_cons, ← List.singleton_append, standard_append, ih]
      simp [Note.log]
  · rfl

end Output

namespace Watch

variable {config : ProjectConfig} {file : Path} {view : FileView} {s : Session}

/-- All that a one-shot run over the snapshot writes to the standard output when it counts as a
rebuild. -/
def oneShotOutput (config : ProjectConfig) (file : Path) (view : FileView) : String :=
  Output.standard (CommandLine.runImpact [] config view true file true false).outputs

def loads (file : Path) (view : FileView) : Bool := (Snapshot.load view file).toBool

/-- The one-shot lines of all contents that load but the first one, without those that say
nothing. -/
def payloadLines (config : ProjectConfig) (file : Path) (views : List FileView) :
    List String :=
  ((views.filter (loads file)).tail.map (oneShotOutput config file)).filter fun line =>
    line ≠ "null\n" ∧ line ≠ "\x7b\x7d\n"

def rebuildOutput : Option Payload → String
  | none => ""
  | some p => if p.isEmpty then "" else p.text ++ "\n"

def rebuildPayload (config : ProjectConfig) (snapshot : Snapshot) : Option Payload :=
  Payload.ofBuild? config snapshot.registry { snapshot.context with isRebuild := true }

theorem render_none : Payload.render none false = "null" := rfl

theorem render_some (p : Payload) : Payload.render (some p) false = p.text := rfl

theorem oneShotOutput_of_load {snapshot : Snapshot}
    (loaded : Snapshot.load view file = .ok snapshot) :
    oneShotOutput config file view =
      Payload.render (rebuildPayload config snapshot) false ++ "\n" := by
  have answered : OneShot.run config view file true false =
      .ok (OneShot.ofSnapshot config snapshot true false) := by
    simp only [OneShot.run, loaded, Except.map]
  simp only [oneShotOutput, CommandLine.runImpact, answered, if_true, List.nil_append,
    Output.standard_append, Output.standard_notes, Output.standard_out, String.empty_append]
  simp only [OneShot.ofSnapshot, Bool.or_true, rebuildPayload]

theorem line_eq_iff {a b line : String} (written : b ++ "\n" = line) :
    a ++ "\n" = line ↔ a = b := by
  subst written
  constructor
  · intro same
    have chars := congrArg String.toList same
    rw [String.toList_append, String.toList_append] at chars
    exact String.toList_inj.mp (List.append_cancel_right chars)
  · exact congrArg (· ++ "\n")

/-- A line of one-shot mode is written in watch mode, unless it says nothing. -/
theorem rebuildOutput_eq (payload : Option Payload) :
    rebuildOutput payload =
      if Payload.render payload false ++ "\n" ≠ "null\n" ∧
        Payload.render payload false ++ "\n" ≠ "\x7b\x7d\n"
      then Payload.render payload false ++ "\n" else "" := by
  have null_line : ∀ text, text ++ "\n" = "null\n" ↔ text = "null" := fun text =>
    line_eq_iff (by decide)
  have braces_line : ∀ text, text ++ "\n" = "\x7b\x7d\n" ↔ text = "\x7b\x7d" := fun text =>
    line_eq_iff (by decide)
  simp only [ne_eq, null_line, braces_line]
  cases payload with
  | none => simp only [render_none, rebuildOutput, not_true, false_and, if_false]
  | some p =>
    simp only [render_some, rebuildOutput, p.text_ne_null, p.text_eq_braces_iff,
      not_false_eq_true, true_and]
    cases p.isEmpty <;> rfl

theorem report_open (console : Console) (seconds : Nat) (cycle : Cycle) :
    (report console seconds file cycle).1.outOpen = console.outOpen := by
  simp only [report]
  split
  · rfl
  · rfl
  · split <;> rfl
  · rfl

/-- While somebody reads the standard output, a report writes a payload that is not empty to it,
and nothing else. -/
theorem standard_report {console : Console} (reads : console.outOpen = true) (seconds : Nat)
    (cycle : Cycle) :
    Output.standard (report console seconds file cycle).2 =
      match cycle.outcome with
      | .ok (.payload p) => rebuildOutput (some p)
      | _ => "" := by
  simp only [report]
  cases cycle.outcome with
  | error e => exact Output.standard_err _
  | ok outcome =>
    cases outcome with
    | initial => exact Output.standard_err _
    | disabled => exact Output.standard_err _
    | payload p =>
      simp only [rebuildOutput]
      split
      · exact Output.standard_err _
      · simp only [Console.status, emit, reads, if_true, StatusBlock.success,
          StatusBlock.display, StatusBlock.printBelow, Output.standard_append,
          Output.standard_err, Output.standard_out, String.empty_append]

theorem runCycle_keeps (s : Session) (view : FileView) (seconds : Nat) :
    (s.runCycle view seconds).1.config = s.config ∧ (s.runCycle view seconds).1.file = s.file ∧
      (s.runCycle view seconds).1.console.outOpen = s.console.outOpen :=
  ⟨rfl, rfl, report_open _ _ _⟩

theorem runCycle_of_fault {e : SnapshotError} (failed : Snapshot.load view s.file = .error e)
    (reads : s.console.outOpen = true) (seconds : Nat) :
    (s.runCycle view seconds).1.completed = s.completed ∧
      Output.standard (s.runCycle view seconds).2 = "" := by
  simp only [Session.runCycle, Session.completed, Cycle.run_of_fault failed,
    Option.elim_some, Output.standard_append, Output.standard_notes,
    standard_report reads, String.empty_append, and_self]

theorem runCycle_of_load {snapshot : Snapshot}
    (loaded : Snapshot.load view s.file = .ok snapshot) (reads : s.console.outOpen = true)
    (seconds : Nat) :
    (s.runCycle view seconds).1.completed = s.completed + 1 ∧
      Output.standard (s.runCycle view seconds).2 =
        if s.completed = 0 then "" else rebuildOutput (rebuildPayload s.config snapshot) := by
  have cycle : Cycle.run s.config view s.file s.completed = _ := Cycle.run_of_load loaded
  refine ⟨congrArg Cycle.completed cycle, ?_⟩
  simp only [Session.runCycle, cycle, Output.standard_append, Output.standard_notes,
    standard_report reads, String.empty_append, Cycle.ofSnapshot, rebuildPayload]
  cases first : s.completed with
  | zero => simp [Payload.ofBuild?, Payload.eligible]
  | succ n =>
    simp only [Nat.succ_pos, decide_true, Nat.succ_ne_zero, if_false, if_true]
    generalize Payload.ofBuild? s.config snapshot.registry _ = payload
    cases payload <;> rfl

theorem standard_runCycle_of_load {snapshot : Snapshot}
    (loaded : Snapshot.load view s.file = .ok snapshot) (reads : s.console.outOpen = true)
    (seconds : Nat) :
    Output.standard (s.runCycle view seconds).2 =
      if s.completed ≠ 0 ∧ oneShotOutput s.config s.file view ≠ "null\n" ∧
        oneShotOutput s.config s.file view ≠ "\x7b\x7d\n"
      then oneShotOutput s.config s.file view else "" := by
  rw [(runCycle_of_load loaded reads seconds).2, rebuildOutput_eq,
    ← oneShotOutput_of_load loaded]
  by_cases first : s.completed = 0
  · simp only [first, if_true, ne_eq, not_true, false_and, if_false]
  · simp only [first, if_false, ne_eq, not_false_eq_true, true_and]

/-- The lines that are written when some cycles may have been completed before. -/
theorem standard_runCycles (turns : List (FileView × Nat)) (s : Session)
    (reads : s.console.outOpen = true) :
    Output.standard (s.runCycles turns).2 =
      String.join (((((turns.map Prod.fst).filter (loads s.file)).drop (1 - s.completed)).map
        (oneShotOutput s.config s.file)).filter fun line =>
          line ≠ "null\n" ∧ line ≠ "\x7b\x7d\n") := by
  induction turns generalizing s with
  | nil => simp [Session.runCycles]
  | cons turn turns ih =>
    obtain ⟨view, seconds⟩ := turn
    obtain ⟨same_config, same_file, same_open⟩ := runCycle_keeps s view seconds
    have later := ih (s.runCycle view seconds).1 (same_open.trans reads)
    rw [same_config, same_file] at later
    simp only [Session.runCycles, Output.standard_append, later, List.map_cons]
    cases loading : Snapshot.load view s.file with
    | error e =>
      obtain ⟨completed, silent⟩ := runCycle_of_fault loading reads seconds
      have skipped : loads s.file view = false := by simp only [loads, loading, Except.toBool]
      rw [silent, completed, List.filter_cons_of_neg (by simp [skipped]), String.empty_append]
    | ok snapshot =>
      have counted : loads s.file view = true := by simp only [loads, loading, Except.toBool]
      rw [standard_runCycle_of_load loading reads,
        (runCycle_of_load loading reads seconds).1, List.filter_cons_of_pos counted]
      cases first : s.completed with
      | zero => simp
      | succ n =>
        have before : 1 - (n + 1) = 0 := by omega
        have after : 1 - (n + 1 + 1) = 0 := by omega
        simp only [before, after, List.drop_zero, List.map_cons, List.filter_cons,
          decide_eq_true_eq, ne_eq, Nat.succ_ne_zero, not_false_eq_true, true_and]
        split
        · rw [String.join_cons]
        · rw [String.empty_append]

theorem line_of_mem_payloadLines {views : List FileView} {line : String}
    (member : line ∈ payloadLines config file views) :
    ∃ text : String, line = text ++ "\n" ∧ '\n' ∉ text.toList := by
  obtain ⟨listed, -⟩ := List.mem_filter.mp member
  obtain ⟨view, later, printed⟩ := List.mem_map.mp listed
  have loading := (List.mem_filter.mp (List.mem_of_mem_tail later)).2
  cases loaded : Snapshot.load view file with
  | error e => simp [loads, loaded, Except.toBool] at loading
  | ok snapshot =>
    refine ⟨_, printed.symm.trans (oneShotOutput_of_load loaded), ?_⟩
    cases rebuildPayload config snapshot with
    | none => rw [render_none]; decide
    | some p => exact p.printable_text.not_mem_newline

/-- Watch mode writes the lines of one-shot mode, over the contents that load behind the first.
Each is one line, and what a snapshot says of itself being a rebuild is not asked. -/
theorem standard_output_of_cycles (config : ProjectConfig) (file : Path)
    (turns : List (FileView × Nat)) :
    Output.standard ((Session.fresh config file true).runCycles turns).2 =
        String.join (payloadLines config file (turns.map Prod.fst)) ∧
      (∀ line ∈ payloadLines config file (turns.map Prod.fst),
        ∃ text : String, line = text ++ "\n" ∧ '\n' ∉ text.toList) ∧
      ∀ (snapshot : Snapshot) (rebuild : Bool),
        (OneShot.ofSnapshot config
          { snapshot with context := { snapshot.context with isRebuild := rebuild } }
          true false).text = (OneShot.ofSnapshot config snapshot true false).text := by
  refine ⟨?_, fun line => line_of_mem_payloadLines, fun snapshot rebuild => ?_⟩
  · rw [standard_runCycles turns _ rfl]
    simp only [payloadLines, Session.fresh, Session.opening, Session.completed, Option.elim_none,
      Nat.sub_zero, List.drop_one]
  · simp only [OneShot.ofSnapshot, Bool.or_true, Snapshot.registry]

/-- The initial build, a snapshot that does not load, and a rebuild. -/
example :
    let hot := { ProjectConfig.default with devServer := some ⟨true⟩ }
    let holding (text : String) : FileView :=
      ⟨⟨[Path.slash]⟩, fun _ => true, some, fun _ => .ok (Utf8.encode text)⟩
    let styled := "\x7b\"buildCtx\":\x7b\"stylesUpdated\":\x7b\"x-a\":\"p\"\x7d\x7d\x7d"
    Output.standard ((Session.fresh hot ⟨[0x73]⟩ true).runCycles
        [(holding styled, 0), (holding "", 0), (holding styled, 0)]).2 =
      "\x7b\"stylesUpdated\":\x7b\"x-a\":\"p\"\x7d\x7d\n" := by
  decide +kernel

end Watch
end HotReload
