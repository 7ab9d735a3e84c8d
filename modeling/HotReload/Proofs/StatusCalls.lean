import HotReload.Proofs.StatusBlock
import HotReload.Terminal.StatusCalls

namespace HotReload

open Screen

namespace StatusCall

theorem IsPlain.shows {c : StatusCall} (plain : c.IsPlain) {text : String}
    (part : text ∈ c.texts) : Shows text text.toList := by
  refine shows_plain fun member => ?_
  rcases plain.visible text part '\x1b' member with ended | visible
  · exact absurd ended (by decide)
  · exact absurd visible (by decide)

end StatusCall

namespace StatusBlock

open StatusCall

variable {b : StatusBlock} {c : StatusCall}

theorem rows_display (small : b.lastLines < 65536) {symbol message : String}
    {sign shown : List Char} (signed : Shows symbol sign) (worded : Shows message shown)
    (seconds : Nat) : rowsOf (b.display seconds symbol message).2.text =
      (shownHead seconds symbol sign ++ ' ' :: shown).splitOn '\n' :=
  (rowsOf_erase small _).trans (rowsOf_eq (shows_body signed worded seconds))

theorem splitOn_detail (above : List Char) (detail : String) :
    (above ++ if detail.isEmpty then [] else '\n' :: detail.toList).splitOn '\n' =
      above.splitOn '\n' ++ if detail.isEmpty then [] else linesOf detail := by
  split
  · rw [List.append_nil, List.append_nil]
  · exact List.splitOn_append_cons_self _ _

structure Shown (b : StatusBlock) (c : StatusCall) : Prop where
  overwrites : b.Overwrites (b.call c).1 (b.call c).2
  rows : rowsOf (b.call c).2 = c.rows

theorem shown_status (small : b.lastLines < 65536) (plain : c.IsPlain)
    (status : c.isStatus = true) : Shown b c := by
  cases c with
  | success seconds message =>
    have check : Shows "✓" ['✓'] := shows_plain (by decide)
    have drawn : (Ansi.green.paint "✓").isEmpty = false := rfl
    have worded : Shows message message.toList := plain.shows List.mem_cons_self
    refine ⟨overwrites_success small worded seconds, ?_⟩
    refine (rows_display small (check.paint Ansi.green) worded seconds).trans ?_
    simp [StatusCall.rows, linesOf, shownHead, drawn]
  | unchanged seconds message =>
    have blank : Shows "" [] := shows_plain (by decide)
    have worded : Shows message message.toList := plain.shows List.mem_cons_self
    refine ⟨overwrites_unchanged small worded seconds, ?_⟩
    refine (rows_display small blank (worded.paint Ansi.dim) seconds).trans ?_
    simp [StatusCall.rows, linesOf, shownHead]
  | failure seconds summary detail =>
    have cross : Shows "✗" ['✗'] := shows_plain (by decide)
    have drawn : (Ansi.red.paint "✗").isEmpty = false := rfl
    have above : Shows summary summary.toList := plain.shows List.mem_cons_self
    have behind : Shows detail detail.toList := plain.shows (by simp [texts])
    refine ⟨overwrites_failure small above behind seconds, ?_⟩
    refine (rows_display small (cross.paint Ansi.red) (shows_compose above behind) seconds).trans ?_
    rw [← List.cons_append, ← List.append_assoc, splitOn_detail]
    simp [StatusCall.rows, linesOf, shownHead, drawn]
  | detach => cases status
  | printBelow line => cases status

theorem call_other (plain : c.IsPlain) (other : c.isStatus = false) :
    (b.call c).1 = fresh ∧
      ∀ rows : List Row, (ofRows rows).write (b.call c).2 = ofRows (rows ++ c.rows) := by
  cases c with
  | success seconds message => cases other
  | unchanged seconds message => cases other
  | failure seconds summary detail => cases other
  | detach =>
    refine ⟨rfl, fun rows => ?_⟩
    rw [StatusCall.rows, List.append_nil]
    rfl
  | printBelow line =>
    have worded : Shows line line.toList := plain.shows List.mem_cons_self
    have ended := worded.append shows_lineFeed
    refine ⟨rfl, fun rows => ?_⟩
    change (ofRows rows).write (line ++ "\n") = _
    rw [write_ofRows ended, rowsOf_eq ended]
    rfl

/-- The calls overwrite the block at most, and only if the first of them is a status. -/
theorem write_writes {calls : List StatusCall} (plain : ∀ c ∈ calls, c.IsPlain)
    (kept block : List Row) (counted : block.length = b.lastLines) (small : b.lastLines < 65536) :
    (ofRows (kept ++ block)).write (b.writes calls) =
      ofRows (kept ++ (if leaveBlock calls then block else []) ++ lasting calls) := by
  induction calls generalizing b kept block with
  | nil =>
    rw [lasting, List.append_nil]
    rfl
  | cons c cs ih =>
    obtain ⟨called, plain⟩ := List.forall_mem_cons.mp plain
    rw [writes, write_append, leaveBlock, lasting]
    cases status : c.isStatus with
    | true =>
      obtain ⟨overwrites, rows⟩ := shown_status small called status
      have next : c.rows.length = (b.call c).1.lastLines := rows ▸ overwrites.counted
      have fits : (b.call c).1.lastLines < 65536 := next ▸ called.small status
      rw [overwrites.replaces kept block counted, rows, ih plain kept c.rows next fits]
      cases leaveBlock cs <;> simp
    | false =>
      obtain ⟨detached, below⟩ := call_other called status
      have later := ih (b := fresh) plain (kept ++ block ++ c.rows) [] rfl (by decide)
      rw [List.append_nil, ite_self, List.append_nil] at later
      rw [below, detached, later]
      simp

end StatusBlock

/-- The screen after any calls on a new block has all that stood there before. Below it are, in
the order of the calls, the lines that were printed and the blocks that no status came upon. -/
theorem screen_of_calls (before : List Row) {calls : List StatusCall}
    (plain : ∀ c ∈ calls, c.IsPlain) :
    (Screen.ofRows before).write (StatusBlock.fresh.writes calls) =
      .ofRows (before ++ StatusCall.lasting calls) := by
  have shown := StatusBlock.write_writes plain before [] rfl (by decide : (0 : Nat) < 65536)
  rwa [List.append_nil, ite_self, List.append_nil] at shown

def recovery : List StatusCall :=
  [.failure 59 "failed" "unexpected end\nat line 1", .success 60 "one", .printBelow "payload",
    .unchanged 3600 "same"]

/-- The failure is gone with both lines of its detail. -/
theorem screen_of_recovery : (∀ c ∈ recovery, c.IsPlain) ∧
    (Screen.ofRows ["run".toList]).write (StatusBlock.fresh.writes recovery) =
      .ofRows ["run".toList, "[00:01:00] ✓ one".toList, "payload".toList,
        "[01:00:00] same".toList] := by
  have plain : ∀ c ∈ recovery, c.IsPlain := by decide +kernel
  have left : StatusCall.lasting recovery =
      ["[00:01:00] ✓ one".toList, "payload".toList, "[01:00:00] same".toList] := by
    decide +kernel
  refine ⟨plain, (screen_of_calls _ plain).trans ?_⟩
  rw [left]
  rfl

end HotReload
