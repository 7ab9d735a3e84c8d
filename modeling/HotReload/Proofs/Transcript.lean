import HotReload.Proofs.StatusBlock

namespace HotReload

open Screen

variable {t : Transcript} {d : Display} {ds : List Display}

theorem Transcript.after_append (t : Transcript) (as bs : List Display) :
    t.after (as ++ bs) = (t.after as).after bs := List.foldl_append

theorem faithful_nil (t : Transcript) : Faithful t [] := fun n => by
  rw [List.take_nil]
  rfl

theorem faithful_cons : Faithful t (d :: ds) ↔
    (ofRows t.rows).write d.text = ofRows (t.next d).rows ∧ Faithful (t.next d) ds := by
  constructor
  · intro faithful
    have first : (ofRows t.rows).write d.text = ofRows (t.next d).rows := faithful 1
    refine ⟨first, fun n => ?_⟩
    have later := faithful (n + 1)
    rw [List.take_succ_cons] at later
    rw [← first]
    exact later
  · rintro ⟨first, later⟩ n
    cases n with
    | zero => rfl
    | succ n =>
      rw [List.take_succ_cons]
      change ((ofRows t.rows).write d.text).after (ds.take n) = _
      rw [first]
      exact later n

theorem faithful_append {as bs : List Display} :
    Faithful t (as ++ bs) ↔ Faithful t as ∧ Faithful (t.after as) bs := by
  induction as generalizing t with
  | nil => exact ⟨fun faithful => ⟨faithful_nil t, faithful⟩, And.right⟩
  | cons a as ih =>
    rw [List.cons_append, faithful_cons, faithful_cons, ih, and_assoc]
    rfl

theorem lasting_sublist (t : Transcript) (ds : List Display) :
    (t.kept ++ t.noted ++ ds.flatMap Display.lasting).Sublist
      ((t.after ds).kept ++ (t.after ds).noted) := by
  induction ds generalizing t with
  | nil => rw [List.flatMap_nil, List.append_nil]; exact .refl _
  | cons d ds ih =>
    refine List.Sublist.trans ?_ (ih (t.next d))
    rw [List.flatMap_cons, ← List.append_assoc]
    apply List.Sublist.append_right
    cases d with
    | note text => simp [Transcript.next, Display.lasting]
    | status text => simp [Transcript.next, Display.lasting]
    | below text => simp [Transcript.next, Transcript.rows, Display.lasting]

theorem Faithful.stays {before : List Row} (faithful : Faithful (.ofRows before) ds) :
    LogLinesStay before ds := by
  refine ⟨faithful, ?_⟩
  have shown : (ofRows before).after ds = ofRows ((Transcript.ofRows before).after ds).rows := by
    have last := faithful ds.length
    rwa [List.take_length, Transcript.ofRows, Transcript.rows, List.append_nil,
      List.append_nil] at last
  have lasting := lasting_sublist (.ofRows before) ds
  rw [Transcript.ofRows, List.append_nil] at lasting
  rw [shown, rows_ofRows]
  refine lasting.trans (List.Sublist.trans ?_ (List.sublist_append_left _ _))
  exact (List.sublist_append_left _ _).append_right _

theorem faithful_notes {texts : List String}
    (ended : ∀ text ∈ texts, ∃ shown, Shows text (shown ++ ['\n'])) (t : Transcript) :
    Faithful t (texts.map .note) := by
  induction texts generalizing t with
  | nil => exact faithful_nil t
  | cons text texts ih =>
    obtain ⟨⟨shown, first⟩, ended⟩ := List.forall_mem_cons.mp ended
    rw [List.map_cons, faithful_cons]
    refine ⟨?_, ih ended _⟩
    change (ofRows t.rows).write text = ofRows (t.kept ++ t.block ++ (t.noted ++ rowsOf text))
    rw [write_ofRows first, Transcript.rows, List.append_assoc]

theorem after_notes (texts : List String) (t : Transcript) :
    t.after (texts.map .note) = { t with noted := t.noted ++ texts.flatMap rowsOf } := by
  induction texts generalizing t with
  | nil => rw [List.flatMap_nil, List.append_nil]; rfl
  | cons text texts ih =>
    rw [List.flatMap_cons, ← List.append_assoc]
    exact ih _

theorem shown_below {text : String} {shown : List Char} (ended : Shows text (shown ++ ['\n'])) :
    (ofRows t.rows).write text = ofRows (t.next (.below text)).rows := by
  rw [write_ofRows ended]
  simp only [Transcript.next, Transcript.rows, List.append_nil]

/-- A status shows what it should exactly if nothing was logged below the block that it takes
away. Else it takes away what was logged instead of the block. -/
theorem shown_status {b next : StatusBlock} {text : String}
    (counted : t.block.length = b.lastLines) (overwrites : b.Overwrites next text)
    (distinct : ∀ row ∈ t.block.head?, ∀ row' ∈ t.noted.head?, row ≠ row') :
    (ofRows t.rows).write text = ofRows (t.next (.status text)).rows ↔
      b.lastLines = 0 ∨ t.noted = [] := by
  have due : (t.next (.status text)).rows = t.kept ++ t.noted ++ rowsOf text := by
    simp [Transcript.next, Transcript.rows]
  rw [due]
  constructor
  · intro shown
    let cut := (t.block ++ t.noted).take t.noted.length
    have rest : ((t.block ++ t.noted).drop t.noted.length).length = b.lastLines := by
      rw [List.length_drop, List.length_append, counted, Nat.add_sub_cancel]
    have split : t.rows = t.kept ++ cut ++ (t.block ++ t.noted).drop t.noted.length := by
      rw [List.append_assoc, List.take_append_drop, Transcript.rows, List.append_assoc]
    have left := overwrites.replaces (t.kept ++ cut) _ rest
    rw [← split, shown] at left
    -- As many rows are left as were logged, but they are those that begin with the block.
    have same : cut = t.noted :=
      List.append_cancel_left (List.append_cancel_right (ofRows_injective left)).symm
    cases block : t.block with
    | nil => exact .inl (by rw [← counted, block, List.length_nil])
    | cons row rows =>
      cases noted : t.noted with
      | nil => exact .inr rfl
      | cons row' rows' =>
        have heads : row = row' := by
          have first := congrArg List.head? same
          simpa [cut, block, noted] using first
        exact absurd heads (distinct row (by simp [block]) row' (by simp [noted]))
  · intro free
    rcases free with none | quiet
    · have empty : t.block = [] := List.eq_nil_of_length_eq_zero (counted.trans none)
      have above := overwrites.replaces (t.kept ++ t.noted) [] none.symm
      rw [List.append_nil] at above
      rwa [Transcript.rows, empty, List.append_nil]
    · have above := overwrites.replaces t.kept t.block counted
      rwa [Transcript.rows, quiet, List.append_nil, List.append_nil]

end HotReload
