import HotReload.Proofs.CutText
import HotReload.Proofs.MoreText
import HotReload.Proofs.RoundTrips
import HotReload.Watch.Cycle

/-! A snapshot file that was read while it was being written. A snapshot ends with the bracket that
closes it, so of two texts of which one begins the other, both cannot be snapshots unless they
differ in white space alone. -/
namespace HotReload

namespace Json

variable {α δ : Type}

/-- The front of a whole record text is not whole if more than white space is missing. -/
theorem front_not_whole {record : Record δ α}
    (steady : ∀ f ∈ record.fields, ∀ draft, Steady (f.read draft)) {front back : List Char} {a : α}
    (whole : readWhole record.read (front ++ back) = .ok a)
    (missing : ∃ c ∈ back, isSpace c = false) : ∃ e, readWhole record.read front = .error e := by
  cases outcome : readWhole record.read front with
  | error e => exact ⟨e, rfl⟩
  | ok b =>
    obtain ⟨rest, taken, _⟩ := readWhole_eq_ok_iff.mp outcome
    obtain ⟨tail, whole_taken, blank⟩ := readWhole_eq_ok_iff.mp whole
    -- with `back` behind it the record ends at the same place, so all of `back` is left over
    obtain ⟨_, rfl⟩ := whole_taken.unique (read_append steady taken back)
    obtain ⟨c, listed, solid⟩ := missing
    have space := skipSpace_eq_nil_iff.mp blank c (List.mem_append_right rest listed)
    rw [solid] at space
    cases space

theorem field_steady {name : String} {read : Reader α} {put : δ → α → δ} (steady : Steady read)
    (draft : δ) : Steady ((field name read put).read draft) :=
  steady.map (put draft)

theorem readPath_steady : Steady readPath := readString_steady.map Path.ofString

theorem readStyles_steady : Steady readStyles :=
  (readPairs_steady readString_steady).map StyleMap.ofPairs

theorem componentRecord_steady : Steady componentRecord.read := by
  apply record_steady
  intro f listed draft
  obtain rfl := List.mem_singleton.mp listed
  exact field_steady readString_steady draft

theorem moduleRecord_steady : Steady moduleRecord.read := by
  apply record_steady
  intro f listed draft
  simp only [moduleRecord, List.mem_cons, List.not_mem_nil, or_false] at listed
  rcases listed with rfl | rfl | rfl | rfl
  · exact field_steady readPath_steady draft
  · exact field_steady (readOptional_steady readPath_steady) draft
  · exact field_steady (readList_steady readPath_steady) draft
  · exact field_steady (readOptional_steady componentRecord_steady) draft

theorem contextRecord_steady : Steady contextRecord.read := by
  apply record_steady
  intro f listed draft
  simp only [contextRecord, List.mem_cons, List.not_mem_nil, or_false] at listed
  rcases listed with rfl | rfl | rfl | rfl
  · exact field_steady (readOptional_steady (readList_steady readPath_steady)) draft
  · exact field_steady (readList_steady readPath_steady) draft
  · exact field_steady (readOptional_steady readStyles_steady) draft
  · exact field_steady readBool_steady draft

theorem snapshotFields_steady :
    ∀ f ∈ snapshotRecord.fields, ∀ draft, Steady (f.read draft) := by
  intro f listed draft
  simp only [snapshotRecord, List.mem_cons, List.not_mem_nil, or_false] at listed
  rcases listed with rfl | rfl
  · exact field_steady (readList_steady moduleRecord_steady) draft
  · exact field_steady contextRecord_steady draft

def isSpaceByte (b : UInt8) : Bool := b == 0x20 || b == 0x0A || b == 0x09 || b == 0x0D

theorem isSpaceByte_of_isSpace {c : Char} (space : isSpace c = true) :
    ∀ b ∈ Utf8.encodeChar c, isSpaceByte b = true := by
  intro b byte
  simp only [isSpace, Bool.or_eq_true, beq_iff_eq] at space
  rcases space with ((rfl | rfl) | rfl) | rfl
  all_goals
    obtain rfl := List.mem_singleton.mp byte
    rfl

theorem exists_solid_char {cs : List Char}
    (missing : ∃ b ∈ cs.flatMap Utf8.encodeChar, isSpaceByte b = false) :
    ∃ c ∈ cs, isSpace c = false := by
  obtain ⟨b, listed, solid⟩ := missing
  obtain ⟨c, char, byte⟩ := List.mem_flatMap.mp listed
  refine ⟨c, char, Bool.eq_false_iff.mpr fun space => ?_⟩
  have blank := isSpaceByte_of_isSpace space b byte
  rw [solid] at blank
  cases blank

end Json

namespace Watch

open Utf8 (CutsCharacter)

/-- If more than white space is missing at the end of a snapshot file, then it does not load: the
text is no UTF-8 if the cut splits a character, and it is malformed if not. The cycle fails with
that fault, and it does not count. -/
theorem torn_snapshot (config : ProjectConfig) {whole torn : FileView} {file : Path}
    {kept lost : List UInt8} {s : Snapshot} (written : whole.content file = .ok (kept ++ lost))
    (accepted : Snapshot.load whole file = .ok s)
    (missing : ∃ b ∈ lost, Json.isSpaceByte b = false) (found : torn.content file = .ok kept)
    (completed : Nat) :
    ∃ e, Snapshot.load torn file = .error e ∧
      (CutsCharacter kept lost ∧ e = .unreadable file .notText ∨
        ¬ CutsCharacter kept lost ∧ ∃ fault, e = .malformed file fault) ∧
      Cycle.run config torn file completed = ⟨.ok kept, completed, .error e, []⟩ := by
  have cycle : ∀ {e}, Snapshot.load torn file = .error e →
      Cycle.run config torn file completed = ⟨.ok kept, completed, .error e, []⟩ := by
    intro e failed
    rw [Cycle.run_of_fault failed, found]
  obtain ⟨_, text, content, decoded, parsed⟩ := Snapshot.load_eq_ok_iff.mp accepted
  cases written.symm.trans content
  rcases Utf8.cut_between_or_inside (Utf8.encode_of_decode? decoded).symm with
    ⟨before, after, chars, rfl, rfl⟩ | cut
  · rw [Snapshot.ofText, chars] at parsed
    obtain ⟨fault, failed⟩ :=
      Json.front_not_whole Json.snapshotFields_steady parsed (Json.exists_solid_char missing)
    have whole_chars : ¬ CutsCharacter (before.flatMap Utf8.encodeChar)
        (after.flatMap Utf8.encodeChar) := by
      intro cut
      cases (Utf8.decode?_of_cut cut).symm.trans (Utf8.decode?_flatMap before)
    have load : Snapshot.load torn file = .error (.malformed file fault) := by
      apply Snapshot.load_of_malformed found (Utf8.decode?_flatMap before)
      rw [Snapshot.ofText, String.toList_ofList, failed]
    exact ⟨_, load, .inr ⟨whole_chars, fault, rfl⟩, cycle load⟩
  · have load : Snapshot.load torn file = .error (.unreadable file .notText) :=
      Snapshot.load_of_notText found (Utf8.decode?_of_cut cut)
    exact ⟨_, load, .inl ⟨cut, rfl⟩, cycle load⟩

def everywhere (bytes : List UInt8) : FileView :=
  ⟨⟨[Path.slash]⟩, fun _ => true, some, fun _ => .ok bytes⟩

/-- A snapshot up to the first byte of the path of its only module, which is one character. -/
def cutInPath : List UInt8 :=
  Utf8.encode "\x7b\"modules\":[\x7b\"sourcePath\":\"" ++ [0xC3]

theorem torn_snapshot_in_path :
    Snapshot.load (everywhere cutInPath) ⟨[0x73]⟩ = .error (.unreadable ⟨[0x73]⟩ .notText) ∧
      Cycle.run .default (everywhere cutInPath) ⟨[0x73]⟩ 3 =
        ⟨.ok cutInPath, 3, .error (.unreadable ⟨[0x73]⟩ .notText), []⟩ := by
  let record := Module.bare (.ofString "é")
  let value := Json.Value.object [("modules", .array ([record].map Module.toJson))]
  have readable : Json.Reads Json.snapshotRecord.read value ⟨[record], .initial⟩ := by
    apply Json.reads_record
    · refine .field rfl (Json.reads_list ?_) (.nil _)
      intro m member
      obtain rfl := List.mem_singleton.mp member
      apply Json.reads_module ⟨"é", rfl⟩
      all_goals
        intro p member
        cases member
    · exact List.pairwise_singleton _ _
    · rfl
  have accepted : Snapshot.load (everywhere (Utf8.encode value.compactText)) ⟨[0x73]⟩ =
      .ok ⟨[record], .initial⟩ :=
    Snapshot.load_eq_ok_iff.mpr
      ⟨_, _, rfl, Utf8.decode?_encode _, Json.readWhole_compact readable⟩
  have written : Utf8.encode value.compactText =
      cutInPath ++ 0xA9 :: Utf8.encode "\",\"localImports\":[]\x7d]\x7d" := by decide +kernel
  have cut : CutsCharacter cutInPath (0xA9 :: Utf8.encode "\",\"localImports\":[]\x7d]\x7d") :=
    ⟨_, _, 'é', [0xC3], [0xA9], by decide, by decide, by decide, rfl, rfl⟩
  have found : (everywhere cutInPath).content ⟨[0x73]⟩ = .ok cutInPath := rfl
  obtain ⟨_, failed, ⟨_, rfl⟩ | ⟨whole_chars, _⟩, cycle⟩ :=
    torn_snapshot .default (congrArg Except.ok written) accepted ⟨0xA9, by decide, by decide⟩
      found 3
  · exact ⟨failed, cycle⟩
  · exact (whole_chars cut).elim

end Watch
end HotReload
