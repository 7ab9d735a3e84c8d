import HotReload.Proofs.JsonText
import HotReload.Proofs.Messages
import HotReload.Proofs.Transcript
import HotReload.Watch.Displays
import Mathlib.Data.List.Chain

/-! Log lines that are written below a status which is still attached are lost with the next
status. This is the one way in which watch mode loses a row. -/
namespace HotReload

open Screen

namespace Watch

theorem Plain.topic_printable {n : Note} (plain : Plain n) : Printable n.topic.toList := by
  rcases plain.topic with topic | topic <;> rw [topic] <;> decide

theorem Plain.shows {n : Note} (plain : Plain n) : ∃ shown, Shows n.line (shown ++ ['\n']) :=
  ⟨_, Note.shows_line plain.topic_printable plain.text⟩

theorem Plain.row {n : Note} (plain : Plain n) :
    ∃ c row rows, rowsOf n.line = ('[' :: c :: row) :: rows ∧ c.isDigit = false := by
  have begins : Printable ('[' :: n.topic.toList) :=
    printable_cons.mpr ⟨by decide, plain.topic_printable⟩
  obtain ⟨first, rows, split, row, rest⟩ :=
    rowsOf_begins begins (Note.shows_line plain.topic_printable plain.text)
  subst rest
  rcases plain.topic with topic | topic
  · rw [topic] at split
    exact ⟨'w', _, rows, split, by decide⟩
  · rw [topic] at split
    exact ⟨'i', _, rows, split, by decide⟩

/-- What a report writes on a block: a status, and below it a line if the status is left. -/
inductive Reports (b : StatusBlock) : List Output → StatusBlock → Bool → Prop where
  | attached {status : Output} {next : StatusBlock} (overwrites : b.Overwrites next status.text)
      (small : next.lastLines < 65536) : Reports b [status] next true
  | left {status line : Output} {next : StatusBlock} {shown : List Char}
      (overwrites : b.Overwrites next status.text) (ended : Shows line.text (shown ++ ['\n'])) :
      Reports b [status, line] .fresh false

theorem lineCount_of_shows {message : String} {shown : List Char} (worded : Shows message shown)
    (printable : Printable shown) : StatusBlock.lineCount message = 1 := by
  rw [StatusBlock.lineCount, worded.lines,
    List.count_eq_zero_of_not_mem printable.not_mem_newline]

theorem lineCount_compose {summary detail : String} (above : Printable summary.toList)
    (behind : Printable detail.toList) :
    StatusBlock.lineCount (StatusBlock.compose summary detail) ≤ 2 := by
  have one := List.count_eq_zero_of_not_mem above.not_mem_newline
  have two := List.count_eq_zero_of_not_mem behind.not_mem_newline
  rw [StatusBlock.compose, StatusBlock.lineCount]
  split
  · rw [one]; decide
  · simp [one, two]

theorem reports_unchanged {console : Console} (small : console.block.lastLines < 65536)
    {message : String} (printable : Printable message.toList) (seconds : Nat) :
    Reports console.block (console.status (·.unchanged seconds message)).2
      (console.status (·.unchanged seconds message)).1.block true := by
  refine .attached (StatusBlock.overwrites_unchanged small printable.shows seconds) ?_
  have one : (console.block.unchanged seconds message).1.lastLines = 1 :=
    lineCount_of_shows (printable.shows.paint Ansi.dim) printable
  change (console.block.unchanged seconds message).1.lastLines < 65536
  rw [one]
  decide

theorem reports_failure {console : Console} (small : console.block.lastLines < 65536)
    {summary detail : String} (above : Printable summary.toList)
    (behind : Printable detail.toList) (seconds : Nat) :
    Reports console.block (console.status (·.failure seconds summary detail)).2
      (console.status (·.failure seconds summary detail)).1.block true := by
  refine .attached (StatusBlock.overwrites_failure small above.shows behind.shows seconds) ?_
  exact Nat.lt_of_le_of_lt (lineCount_compose above behind) (by decide)

theorem ended_emit (console : Console) (p : Payload) :
    ∃ line shown, (emit console p.text).2 = [line] ∧ Shows line.text (shown ++ ['\n']) := by
  by_cases reads : console.outOpen = true
  · refine ⟨.out (p.text ++ "\n"), p.text.toList, ?_, p.printable_text.shows.append shows_lineFeed⟩
    simp only [emit, reads, if_true, StatusBlock.printBelow]
  · refine ⟨(Note.error "failed to write payload to stdout").log, _, ?_,
      Note.shows_line (by decide) (by decide)⟩
    simp only [emit, reads]
    rfl

theorem reports_success {console : Console} (small : console.block.lastLines < 65536)
    {message : String} (printable : Printable message.toList) (seconds : Nat) (p : Payload) :
    Reports console.block
      ((console.status (·.success seconds message)).2 ++
        (emit (console.status (·.success seconds message)).1 p.text).2)
      (emit (console.status (·.success seconds message)).1 p.text).1.block false := by
  obtain ⟨line, shown, written, ended⟩ :=
    ended_emit (console.status (·.success seconds message)).1 p
  rw [written]
  exact .left (StatusBlock.overwrites_success small printable.shows seconds) ended

theorem reports_report {console : Console} (small : console.block.lastLines < 65536) {file : Path}
    (visible : Printable file.display.toList) {cycle : Cycle}
    (said : ∀ e, cycle.outcome = .error e → Printable e.fullMessage.toList) (seconds : Nat) :
    Reports console.block (report console seconds file cycle).2
      (report console seconds file cycle).1.block cycle.leavesBlock := by
  have heading : Printable s!"cycle {cycle.completed}".toList := by
    simp only [toString_text, String.toList_append, printable_append]
    exact ⟨by decide, printable_digits _⟩
  have titled {text : String} (printable : Printable text.toList) :
      Printable (toString s!"cycle {cycle.completed}" ++ toString text).toList := by
    rw [toString_text, toString_text, String.toList_append, printable_append]
    exact ⟨heading, printable⟩
  rw [report, Cycle.leavesBlock]
  split
  · rename_i outcome
    rw [outcome]
    exact reports_unchanged small (titled (by decide)) seconds
  · rename_i outcome
    rw [outcome]
    exact reports_unchanged small (titled (by decide)) seconds
  · rename_i p outcome
    rw [outcome]
    cases empty : p.isEmpty with
    | true =>
      simp only [empty, if_true]
      exact reports_unchanged small (titled (by decide)) seconds
    | false =>
      simp only [empty, Bool.false_eq_true, if_false]
      refine reports_success small ?_ seconds p
      rw [String.toList_append, printable_append]
      exact ⟨titled (by decide), p.printable_summary⟩
  · rename_i e outcome
    rw [outcome]
    refine reports_failure small ?_ (said e outcome) seconds
    rw [toString_text, toString_text, String.toList_append, printable_append]
    exact ⟨by decide, visible⟩

/-- The transcript has the block that the next status will take away. -/
structure Attached (b : StatusBlock) (t : Transcript) : Prop where
  counted : t.block.length = b.lastLines
  small : b.lastLines < 65536
  begins : ∀ row ∈ t.block.head?, ∃ d rest, row = '[' :: d :: rest ∧ d.isDigit = true

theorem attached_fresh {t : Transcript} (empty : t.block = []) : Attached .fresh t := by
  refine ⟨by rw [empty]; rfl, by decide, fun row member => ?_⟩
  rw [empty] at member
  cases member

theorem Attached.of_overwrites {b next : StatusBlock} {text : String} {t : Transcript}
    (overwrites : b.Overwrites next text) (small : next.lastLines < 65536)
    (rows : t.block = rowsOf text) : Attached next t := by
  refine ⟨by rw [rows, overwrites.counted], small, fun row member => ?_⟩
  obtain ⟨d, rest, others, split, digit⟩ := overwrites.begins
  rw [rows, split] at member
  cases member
  exact ⟨d, rest, rfl, digit⟩

section Report

variable {b next : StatusBlock} {outputs : List Output} {leaves : Bool} {t : Transcript}

theorem Reports.leaves_iff (reports : Reports b outputs next leaves) :
    next.lastLines = 0 ↔ leaves = false := by
  cases reports with
  | attached overwrites small =>
    obtain ⟨d, row, rows, split, -⟩ := overwrites.begins
    have some_rows := overwrites.counted
    rw [split, List.length_cons] at some_rows
    exact ⟨fun none => by omega, fun contrary => by contradiction⟩
  | left overwrites ended => exact ⟨fun _ => rfl, fun _ => rfl⟩

theorem Reports.faithful_iff (reports : Reports b outputs next leaves) (attached : Attached b t)
    (noted : ∀ row ∈ t.noted.head?, ∃ c rest, row = '[' :: c :: rest ∧ c.isDigit = false) :
    Faithful t (Display.ofReport outputs) ↔ b.lastLines = 0 ∨ t.noted = [] := by
  have distinct : ∀ row ∈ t.block.head?, ∀ row' ∈ t.noted.head?, row ≠ row' := by
    rintro row first row' second rfl
    obtain ⟨d, rest, split, digit⟩ := attached.begins row first
    obtain ⟨c, rest', split', letter⟩ := noted row second
    rw [split] at split'
    cases split'
    rw [digit] at letter
    contradiction
  cases reports with
  | attached overwrites small =>
    rw [Display.ofReport, faithful_cons]
    exact (and_iff_left (faithful_nil _)).trans
      (shown_status attached.counted overwrites distinct)
  | left overwrites ended =>
    rw [Display.ofReport, faithful_cons]
    refine (and_iff_left ?_).trans (shown_status attached.counted overwrites distinct)
    rw [List.map_cons, faithful_cons]
    exact ⟨shown_below ended, faithful_nil _⟩

theorem Reports.attached_after (reports : Reports b outputs next leaves) :
    Attached next (t.after (Display.ofReport outputs)) ∧
      (t.after (Display.ofReport outputs)).noted = [] := by
  cases reports with
  | attached overwrites small => exact ⟨.of_overwrites overwrites small rfl, rfl⟩
  | left overwrites ended => exact ⟨attached_fresh rfl, rfl⟩

end Report

section Cycles

variable {s : Session} {t : Transcript} {view : FileView}

def noteLines (verbose : Bool) (notes : List Note) : List String :=
  if verbose then notes.map Note.line else []

theorem displays_notes (verbose : Bool) (notes : List Note) :
    (Note.logVerbose verbose notes).map (fun o => Display.note o.text) =
      (noteLines verbose notes).map .note := by
  cases verbose with
  | true =>
    rw [Note.logVerbose, noteLines, if_pos rfl, if_pos rfl, List.map_map, List.map_map]
    rfl
  | false => rfl

section Notes

variable {verbose : Bool} {notes : List Note}

theorem noteLines_ended (plain : ∀ n ∈ notes, Plain n) :
    ∀ text ∈ noteLines verbose notes, ∃ shown, Shows text (shown ++ ['\n']) := by
  intro text member
  cases verbose with
  | false => cases member
  | true =>
    obtain ⟨n, listed, rfl⟩ := List.mem_map.mp member
    exact (plain n listed).shows

theorem noteLines_rows (plain : ∀ n ∈ notes, Plain n) :
    ((noteLines verbose notes).flatMap rowsOf = [] ↔ verbose = false ∨ notes = []) ∧
      ∀ row ∈ ((noteLines verbose notes).flatMap rowsOf).head?,
        ∃ c rest, row = '[' :: c :: rest ∧ c.isDigit = false := by
  cases verbose with
  | false => exact ⟨⟨fun _ => .inl rfl, fun _ => rfl⟩, fun row member => by cases member⟩
  | true =>
    cases notes with
    | nil => exact ⟨⟨fun _ => .inr rfl, fun _ => rfl⟩, fun row member => by cases member⟩
    | cons n ns =>
      obtain ⟨c, rest, rows, split, letter⟩ := (plain n List.mem_cons_self).row
      have first : (noteLines true (n :: ns)).flatMap rowsOf =
          ('[' :: c :: rest) :: (rows ++ (ns.map Note.line).flatMap rowsOf) := by
        rw [noteLines, if_pos rfl, List.map_cons, List.flatMap_cons, split, List.cons_append]
      rw [first]
      refine ⟨⟨fun none => absurd none (List.cons_ne_nil _ _), fun free => ?_⟩,
        fun row member => ?_⟩
      · rcases free with off | none
        · cases off
        · exact absurd none (List.cons_ne_nil _ _)
      · rw [List.head?_cons, Option.mem_some_iff] at member
        exact ⟨c, rest, member.symm, letter⟩

end Notes

theorem said_of_run {config : ProjectConfig} {file : Path} (visible : Printable file.display.toList)
    {completed : Nat} {e : SnapshotError}
    (failed : (Cycle.run config view file completed).outcome = .error e) :
    Printable e.fullMessage.toList := by
  rw [Cycle.run, Cycle.ofContent] at failed
  split at failed
  · rename_i fault loading
    obtain rfl := Except.error.inj failed
    exact SnapshotError.printable_fullMessage visible loading
  · cases failed

/-- One cycle shows what it should unless it logs below a block that is still attached. -/
theorem Attached.cycle (attached : Attached s.console.block t) (quiet : t.noted = [])
    (visible : Printable s.file.display.toList) (seconds : Nat) :
    (Faithful t (s.displays view seconds) ↔
        s.verbose = false ∨ s.console.block.lastLines = 0 ∨
          (Cycle.run s.config view s.file s.completed).notes = []) ∧
      Attached (s.runCycle view seconds).1.console.block (t.after (s.displays view seconds)) ∧
      (t.after (s.displays view seconds)).noted = [] ∧
      ((s.runCycle view seconds).1.console.block.lastLines = 0 ↔
        (Cycle.run s.config view s.file s.completed).leavesBlock = false) := by
  have plain : ∀ n ∈ (Cycle.run s.config view s.file s.completed).notes, Plain n :=
    fun n => plain_notes
  have said : ∀ e, (Cycle.run s.config view s.file s.completed).outcome = .error e →
      Printable e.fullMessage.toList := fun e => said_of_run visible
  simp only [Session.displays, Session.runCycle]
  generalize Cycle.run s.config view s.file s.completed = cycle at plain said ⊢
  have reports := reports_report attached.small visible said seconds
  obtain ⟨silent, letters⟩ : _ ∧ ∀ row ∈ ((noteLines s.verbose cycle.notes).flatMap rowsOf).head?,
      ∃ c rest, row = '[' :: c :: rest ∧ c.isDigit = false := noteLines_rows plain
  rw [displays_notes, faithful_append, Transcript.after_append, after_notes, quiet,
    List.nil_append]
  have noted : Attached s.console.block
      { t with noted := (noteLines s.verbose cycle.notes).flatMap rowsOf } :=
    ⟨attached.counted, attached.small, attached.begins⟩
  obtain ⟨left, empty⟩ := reports.attached_after
  refine ⟨?_, left, empty, reports.leaves_iff⟩
  rw [and_iff_right (faithful_notes (noteLines_ended plain) t), reports.faithful_iff noted letters,
    silent, or_left_comm]

theorem faithful_cycles (turns : List (FileView × Nat)) (attached : Attached s.console.block t)
    (quiet : t.noted = []) (visible : Printable s.file.display.toList) :
    Faithful t (s.displaysOf turns) ↔ s.verbose = false ∨
      (∀ c ∈ (Cycle.history s.config s.file s.completed (turns.map Prod.fst)).head?,
        s.console.block.lastLines = 0 ∨ c.notes = []) ∧
      (Cycle.history s.config s.file s.completed (turns.map Prod.fst)).IsChain
        fun c d => c.leavesBlock = false ∨ d.notes = [] := by
  induction turns generalizing s t with
  | nil => exact iff_of_true (faithful_nil t) (.inr ⟨fun c member => (nomatch member), .nil⟩)
  | cons turn turns ih =>
    obtain ⟨view, seconds⟩ := turn
    obtain ⟨first, attached, quiet, leaves⟩ := attached.cycle quiet visible seconds
    have later := ih attached quiet visible
    rw [leaves] at later
    rw [Session.displaysOf, faithful_append, first, later, List.map_cons, Cycle.history,
      List.isChain_cons, List.head?_cons]
    simp only [Option.mem_some_iff, forall_eq']
    exact or_and_left.symm

theorem text_displays (s : Session) (view : FileView) (seconds : Nat) :
    (s.displays view seconds).map Display.text = (s.runCycle view seconds).2.map Output.text := by
  have reported (outputs : List Output) :
      (Display.ofReport outputs).map Display.text = outputs.map Output.text := by
    cases outputs with
    | nil => rfl
    | cons first others =>
      rw [Display.ofReport, List.map_cons, List.map_cons, List.map_map]
      rfl
  rw [Session.displays, List.map_append, List.map_map, reported, Session.runCycle,
    List.map_append]
  rfl

theorem text_displaysOf (s : Session) (turns : List (FileView × Nat)) :
    (s.displaysOf turns).map Display.text = (s.runCycles turns).2.map Output.text := by
  induction turns generalizing s with
  | nil => rfl
  | cons turn turns ih =>
    obtain ⟨view, seconds⟩ := turn
    rw [Session.displaysOf, Session.runCycles, List.map_append, text_displays, ih,
      List.map_append]

theorem stays_iff_faithful {before : List Row} {ds : List Display} :
    LogLinesStay before ds ↔ Faithful (.ofRows before) ds :=
  ⟨And.left, Faithful.stays⟩

/-- A run of cycles keeps all log lines, and each status takes away the block before it and nothing
else, exactly if notes are not shown or no cycle notes anything right after one that leaves its
block attached. Such notes are taken away by the status that follows them. -/
theorem log_lines_stay_iff (config : ProjectConfig) (file : Path) (verbose outOpen : Bool)
    (before : List Row) (turns : List (FileView × Nat)) (visible : Printable file.display.toList) :
    ((Session.opening config file verbose outOpen).displaysOf turns).map Display.text =
        ((Session.opening config file verbose outOpen).runCycles turns).2.map Output.text ∧
      (LogLinesStay before ((Session.opening config file verbose outOpen).displaysOf turns) ↔
        verbose = false ∨ (Cycle.history config file 0 (turns.map Prod.fst)).IsChain
          fun c d => c.leavesBlock = false ∨ d.notes = []) := by
  refine ⟨text_displaysOf _ _, stays_iff_faithful.trans ?_⟩
  have attached : Attached (Session.opening config file verbose outOpen).console.block
      (.ofRows before) := attached_fresh rfl
  rw [faithful_cycles turns attached rfl visible, and_iff_right fun c _ => .inl rfl]
  rfl

def emptySnapshot : FileView := ⟨⟨[]⟩, fun _ => true, some, fun _ => .ok [0x7B, 0x7D]⟩

def noSnapshot : FileView := ⟨⟨[]⟩, fun _ => false, fun _ => none, fun _ => .error .notFound⟩

def hotConfig : ProjectConfig := { ProjectConfig.default with devServer := some ⟨true⟩ }

theorem log_lines_stay_before_failure : Printable (Path.mk [0x73]).display.toList ∧
    LogLinesStay [] ((Session.opening hotConfig ⟨[0x73]⟩ true true).displaysOf
      [(emptySnapshot, 0), (noSnapshot, 1)]) := by
  have visible : Printable (Path.mk [0x73]).display.toList := by decide +kernel
  have quiet : (Cycle.history hotConfig ⟨[0x73]⟩ 0 [emptySnapshot, noSnapshot]).IsChain
      fun c d => c.leavesBlock = false ∨ d.notes = [] := by decide +kernel
  exact ⟨visible, (log_lines_stay_iff hotConfig ⟨[0x73]⟩ true true [] _ visible).2.mpr (.inr quiet)⟩

/-- The second note that a snapshot has no modules is not on the screen in the end. -/
theorem log_line_lost : ¬ LogLinesStay []
    ((Session.opening hotConfig ⟨[0x73]⟩ true true).displaysOf
      [(emptySnapshot, 0), (emptySnapshot, 1)]) := by
  rintro ⟨-, lasting⟩
  exact absurd lasting (by decide +kernel)

end Cycles

end Watch

end HotReload
