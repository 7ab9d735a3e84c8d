import HotReload.Proofs.RecordLayouts
import HotReload.Proofs.TornSnapshots
import HotReload.Snapshot.Layout

namespace HotReload.Json

section Fields

theorem not_stringForm_n {r rest : List Char} {s : String} : ¬ stringForm ('n' :: r) s rest := by
  intro written
  cases written

theorem recognizes_path : Recognizes readPath pathForm :=
  (recognizes_string.map Path.ofString).congr (by simp [pathForm, and_comm, eq_comm])

theorem recognizes_styles : Recognizes readStyles stylesForm :=
  (recognizes_string.pairs.map StyleMap.ofPairs).congr (by simp [stylesForm, and_comm, eq_comm])

theorem mayGive_required_iff {α : Type} {members : List (String × Part)} {name : String}
    {form : Form α} {a : α} :
    MayGive members name (fun text c rest => ∃ b, form text b rest ∧ some b = c) none (some a) ↔
      Gives members name form a := by
  simp [MayGive, Gives]

end Fields

def componentSlots : List (Slot (Option String)) := [
  { name := "tagName", read := readString, form := stringForm, put := fun _ t => some t,
    kept := some, get := id, recognizes := recognizes_string, get_put := fun _ _ => rfl }]

theorem componentRecord_composed : Composed componentRecord componentSlots where
  fields := rfl
  apart := by simp [componentSlots]
  ext := by simp [componentSlots]

theorem recognizes_component : Recognizes componentRecord.read componentForm := by
  apply componentRecord_composed.recognizes.congr
  intro text tag rest
  constructor
  · rintro ⟨members, draft, cut, ⟨others, given⟩, complete⟩
    obtain rfl : draft = some tag := complete
    exact ⟨members, cut, others, mayGive_required_iff.mp (given _ List.mem_cons_self)⟩
  · rintro ⟨members, cut, others, given⟩
    exact ⟨members, some tag, cut,
      ⟨others, List.forall_mem_singleton.mpr (mayGive_required_iff.mpr given)⟩, rfl⟩

theorem not_componentForm_n {r rest : List Char} {tag : String} :
    ¬ componentForm ('n' :: r) tag rest := by
  rintro ⟨members, ⟨_, impossible, -⟩ | ⟨_, _, ⟨_, impossible, -⟩, -⟩, -⟩ <;> cases impossible

abbrev plainSlot {α δ : Type} (name : String) {read : Reader α} {form : Form α}
    (put : δ → α → δ) (get : δ → α) (recognizes : Recognizes read form)
    (get_put : ∀ draft a, get (put draft a) = a) : Slot δ :=
  { name, read, form, put, kept := id, get, recognizes, get_put }

theorem mayGive_plain_iff {α : Type} {members : List (String × Part)} {name : String}
    {form : Form α} {a b : α} :
    MayGive members name (fun text c rest => ∃ b, form text b rest ∧ id b = c) b a ↔
      MayGive members name form b a := by
  simp [MayGive, Gives]

theorem not_pathForm_n {r rest : List Char} {p : Path} : ¬ pathForm ('n' :: r) p rest := by
  rintro ⟨s, -, written⟩
  exact not_stringForm_n written

theorem not_listForm_n {α : Type} {form : Form α} {r rest : List Char} {as : List α} :
    ¬ listForm form ('n' :: r) as rest := by
  rintro ⟨parts, ⟨_, impossible, -⟩, -⟩
  cases impossible

theorem not_stylesForm_n {r rest : List Char} {m : StyleMap} : ¬ stylesForm ('n' :: r) m rest := by
  rintro ⟨pairs, -, members, ⟨_, impossible, -⟩, -⟩
  cases impossible

def moduleSlots : List (Slot ModuleDraft) := [
  { name := "sourcePath", read := readPath, form := pathForm,
    put := fun d p => { d with source := some p }, kept := some, get := ModuleDraft.source,
    recognizes := recognizes_path, get_put := fun _ _ => rfl },
  plainSlot "compiledOutputPath" (fun d p => { d with output := p }) ModuleDraft.output
    (recognizes_path.optional not_pathForm_n) fun _ _ => rfl,
  plainSlot "localImports" (fun d ps => { d with imports := ps }) ModuleDraft.imports
    recognizes_path.list fun _ _ => rfl,
  plainSlot "cmpMeta" (fun d t => { d with tag := t }) ModuleDraft.tag
    (recognizes_component.optional not_componentForm_n) fun _ _ => rfl]

theorem moduleRecord_composed : Composed moduleRecord moduleSlots where
  fields := rfl
  apart := by simp [moduleSlots, Slot.Apart]
  ext := by
    rintro ⟨⟩ ⟨⟩ same
    simpa [moduleSlots] using same

theorem moduleMembers_iff {members : List (String × Part)} {m : Module} :
    AllGiven moduleSlots members moduleRecord.blank ⟨some m.source, m.output, m.imports, m.tag⟩ ↔
      ModuleMembers members m := by
  simp only [AllGiven, moduleSlots, List.forall_mem_cons]
  constructor
  · rintro ⟨others, source, output, imports, tag, -⟩
    exact ⟨mayGive_required_iff.mp source, mayGive_plain_iff.mp output,
      mayGive_plain_iff.mp imports, mayGive_plain_iff.mp tag, others⟩
  · rintro ⟨source, output, imports, tag, others⟩
    exact ⟨others, mayGive_required_iff.mpr source, mayGive_plain_iff.mpr output,
      mayGive_plain_iff.mpr imports, mayGive_plain_iff.mpr tag, nofun⟩

theorem recognizes_module : Recognizes moduleRecord.read moduleForm := by
  apply moduleRecord_composed.recognizes.congr
  intro text m rest
  constructor
  · rintro ⟨members, ⟨source, output, imports, tag⟩, cut, given, complete⟩
    obtain ⟨p, rfl, rfl⟩ := Option.map_eq_some_iff.mp complete
    exact ⟨members, cut, moduleMembers_iff.mp given⟩
  · rintro ⟨members, cut, given⟩
    exact ⟨members, _, cut, moduleMembers_iff.mpr given, rfl⟩

def contextSlots : List (Slot BuildContext) := [
  plainSlot "filesChanged" (fun c ps => { c with changed := ps }) BuildContext.changed
    (recognizes_path.list.optional not_listForm_n) fun _ _ => rfl,
  plainSlot "filesWritten" (fun c ps => { c with written := ps }) BuildContext.written
    recognizes_path.list fun _ _ => rfl,
  plainSlot "stylesUpdated" (fun c m => { c with styles := m }) BuildContext.styles
    (recognizes_styles.optional not_stylesForm_n) fun _ _ => rfl,
  plainSlot "isRebuild" (fun c b => { c with isRebuild := b }) BuildContext.isRebuild
    recognizes_bool fun _ _ => rfl]

theorem contextRecord_composed : Composed contextRecord contextSlots where
  fields := rfl
  apart := by simp [contextSlots, Slot.Apart]
  ext := by
    rintro ⟨⟩ ⟨⟩ same
    simpa [contextSlots] using same

theorem contextMembers_iff {members : List (String × Part)} {c : BuildContext} :
    AllGiven contextSlots members .initial c ↔ ContextMembers members c := by
  simp only [AllGiven, contextSlots, List.forall_mem_cons]
  constructor
  · rintro ⟨others, changed, written, styles, isRebuild, -⟩
    exact ⟨mayGive_plain_iff.mp changed, mayGive_plain_iff.mp written,
      mayGive_plain_iff.mp styles, mayGive_plain_iff.mp isRebuild, others⟩
  · rintro ⟨changed, written, styles, isRebuild, others⟩
    exact ⟨others, mayGive_plain_iff.mpr changed, mayGive_plain_iff.mpr written,
      mayGive_plain_iff.mpr styles, mayGive_plain_iff.mpr isRebuild, nofun⟩

theorem recognizes_context : Recognizes contextRecord.read contextForm := by
  apply contextRecord_composed.recognizes.congr
  intro text c rest
  constructor
  · rintro ⟨members, draft, cut, given, complete⟩
    obtain rfl : draft = c := Option.some.inj complete
    exact ⟨members, cut, contextMembers_iff.mp given⟩
  · rintro ⟨members, cut, given⟩
    exact ⟨members, c, cut, contextMembers_iff.mpr given, rfl⟩

def snapshotSlots : List (Slot Snapshot) := [
  plainSlot "modules" (fun s ms => { s with modules := ms }) Snapshot.modules
    recognizes_module.list fun _ _ => rfl,
  plainSlot "buildCtx" (fun s c => { s with context := c }) Snapshot.context recognizes_context
    fun _ _ => rfl]

theorem snapshotRecord_composed : Composed snapshotRecord snapshotSlots where
  fields := rfl
  apart := by simp [snapshotSlots, Slot.Apart]
  ext := by
    rintro ⟨⟩ ⟨⟩ same
    simpa [snapshotSlots] using same

theorem snapshotMembers_iff {members : List (String × Part)} {s : Snapshot} :
    AllGiven snapshotSlots members ⟨[], .initial⟩ s ↔ SnapshotMembers members s := by
  simp only [AllGiven, snapshotSlots, List.forall_mem_cons]
  constructor
  · rintro ⟨others, modules, context, -⟩
    exact ⟨mayGive_plain_iff.mp modules, mayGive_plain_iff.mp context, others⟩
  · rintro ⟨modules, context, others⟩
    exact ⟨others, mayGive_plain_iff.mpr modules, mayGive_plain_iff.mpr context, nofun⟩

theorem recognizes_snapshot : Recognizes snapshotRecord.read snapshotForm := by
  apply snapshotRecord_composed.recognizes.congr
  intro text s rest
  constructor
  · rintro ⟨members, draft, cut, given, complete⟩
    obtain rfl : draft = s := Option.some.inj complete
    exact ⟨members, cut, snapshotMembers_iff.mp given⟩
  · rintro ⟨members, cut, given⟩
    exact ⟨members, s, cut, snapshotMembers_iff.mpr given, rfl⟩

theorem readWhole_iff {α : Type} {read : Reader α} {form : Form α}
    (recognizes : Recognizes read form) {text : List Char} {a : α} :
    readWhole read text = .ok a ↔ IsTextOf form text a := by
  rw [readWhole_eq_ok_iff]
  constructor
  · rintro ⟨rest, taken, blank⟩
    exact ⟨skipSpace text, rest, spaced_skipSpace text, recognizes.yields_iff.mp taken,
      blank ▸ spaced_skipSpace rest⟩
  · rintro ⟨front, rest, spaced, stands, blank⟩
    exact ⟨rest, recognizes.yields spaced stands, (skipSpace_eq_of_spaced blank).trans rfl⟩

end HotReload.Json

namespace HotReload.Snapshot

theorem ofText_eq_ok_iff {text : String} {s : Snapshot} :
    ofText text = .ok s ↔ Json.IsTextOf Json.snapshotForm text.toList s :=
  Json.readWhole_iff Json.recognizes_snapshot

/-- A file loads as a snapshot exactly if it holds, as UTF-8, a text of that snapshot: in each
record the known members stand once each and in any order, those that have a default value may be
left out, and members of other names may stand among them with values of any form and depth. -/
theorem load_eq_ok_iff_layout {view : FileView} {file : Path} {s : Snapshot} :
    load view file = .ok s ↔ ∃ text, view.content file = .ok (Utf8.encode text) ∧
      Json.IsTextOf Json.snapshotForm text.toList s := by
  rw [load_eq_ok_iff]
  constructor
  · rintro ⟨bytes, text, content, decoded, parsed⟩
    rw [← Utf8.encode_of_decode? decoded] at content
    exact ⟨text, content, ofText_eq_ok_iff.mp parsed⟩
  · rintro ⟨text, content, layout⟩
    exact ⟨_, text, content, Utf8.decode?_encode text, ofText_eq_ok_iff.mpr layout⟩

/-- The names inside an unknown member are not looked at, and `modules` is spelled with an
escape. -/
example : ofText "\x7b\"old\": [1e9, \x7b\"modules\": \"\\ud800\"\x7d],
      \"m\\u006fdules\": [\x7b\"x\": -0.5, \"sourcePath\": \"/a.js\"\x7d ] \x7d" =
    .ok ⟨[.bare (.ofString "/a.js")], .initial⟩ := by cbv

end HotReload.Snapshot
