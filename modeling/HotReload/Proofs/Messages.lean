import HotReload.Text.Printable
import HotReload.Watch.Report

namespace HotReload

theorem printable_counted (n : Nat) {noun : String} (printable : Printable noun.toList) :
    Printable (Payload.counted n noun).toList := by
  have plural : Printable (toString n ++ " " ++ noun ++ "s").toList := by
    simp [printable_digits n, printable, -Nat.toString_eq_repr]
  rw [Payload.counted]
  split
  · simp [printable]
  · exact plural

theorem printable_intercalate {separator : String} (blank : Printable separator.toList)
    {parts : List String} (printable : ∀ part ∈ parts, Printable part.toList) :
    Printable (separator.intercalate parts).toList := by
  induction parts with
  | nil => rw [String.intercalate_nil]; exact printable_nil
  | cons part parts ih =>
    obtain ⟨first, printable⟩ := List.forall_mem_cons.mp printable
    cases parts with
    | nil => rw [String.intercalate_singleton]; exact first
    | cons next parts =>
      rw [String.intercalate_cons_cons, String.toList_append, String.toList_append]
      exact printable_append.mpr ⟨printable_append.mpr ⟨first, blank⟩, ih printable⟩

theorem Payload.printable_summary (p : Payload) : Printable p.summary.toList := by
  rw [summary]
  split
  · decide
  · apply printable_intercalate (by decide)
    intro part member
    rw [List.mem_append, List.mem_append] at member
    rcases member with (member | member) | member
    · obtain ⟨ts, -, rfl⟩ := Option.map_eq_some_iff.mp (Option.mem_toList.mp member)
      exact printable_counted _ (by decide)
    · obtain ⟨m, -, rfl⟩ := Option.map_eq_some_iff.mp (Option.mem_toList.mp member)
      exact printable_counted _ (by decide)
    · obtain ⟨us, -, rfl⟩ := Option.map_eq_some_iff.mp (Option.mem_toList.mp member)
      exact printable_counted _ (by decide)

theorem ReadFault.printable_message (fault : ReadFault) : Printable fault.message.toList := by
  cases fault <;> decide

theorem Json.Fault.printable_message (fault : Json.Fault) : Printable fault.message.toList := by
  cases fault <;> decide

theorem SnapshotError.printable_fullMessage {view : FileView} {file : Path} {e : SnapshotError}
    (visible : Printable file.display.toList) (failed : Snapshot.load view file = .error e) :
    Printable e.fullMessage.toList := by
  have joined (opening : String) (fault : String) (fixed : Printable opening.toList)
      (said : Printable fault.toList) :
      Printable (opening ++ file.display ++ "`" ++ ": " ++ fault).toList := by
    simp only [String.toList_append, printable_append]
    exact ⟨⟨⟨⟨fixed, visible⟩, by decide⟩, by decide⟩, said⟩
  rw [Snapshot.load, Snapshot.ofContent] at failed
  split at failed
  · obtain rfl := Except.error.inj failed
    exact joined _ _ (by decide) (ReadFault.printable_message _)
  · split at failed
    · obtain rfl := Except.error.inj failed
      exact joined _ _ (by decide) (Json.Fault.printable_message _)
    · contradiction

theorem Impact.printable_note {r : Registry} {changed : Option (List Path)} {text : String}
    (noted : Impact.note r changed = some text) : Printable text.toList := by
  rw [Impact.note] at noted
  split at noted
  · contradiction
  · contradiction
  · cases noted
    simp [printable_digits, -Nat.toString_eq_repr]

namespace Watch

structure Plain (n : Note) : Prop where
  topic : n.topic = "watch" ∨ n.topic = "impact"
  text : Printable n.text.toList

theorem plain_notes {config : ProjectConfig} {view : FileView} {file : Path} {completed : Nat}
    {n : Note} (member : n ∈ (Cycle.run config view file completed).notes) : Plain n := by
  rw [Cycle.run, Cycle.ofContent] at member
  split at member
  · cases member
  · simp only [Cycle.ofSnapshot, List.mem_append, List.mem_map, Option.mem_toList] at member
    rcases member with empty | ⟨text, found, rfl⟩
    · split at empty
      · rw [List.mem_singleton.mp empty]
        exact ⟨.inl rfl, by decide⟩
      · cases empty
    · refine ⟨.inr rfl, ?_⟩
      rw [Payload.note] at found
      split at found
      · exact Impact.printable_note found
      · contradiction

end Watch

end HotReload
