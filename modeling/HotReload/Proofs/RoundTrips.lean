import HotReload.Proofs.JsonText
import HotReload.Proofs.PayloadKeys
import HotReload.Proofs.ReadValues
import HotReload.Proofs.ReadingBack
import HotReload.Proofs.Utf8
import HotReload.Proofs.WrittenForms

namespace HotReload

namespace StyleMap

variable {es : List (String × String)}

theorem put_of_not_mem {tag style : String} (new : tag ∉ es.map Prod.fst) :
    put tag style es = es ++ [(tag, style)] := by
  induction es with
  | nil => rfl
  | cons e es ih =>
    rw [List.map_cons, List.mem_cons, not_or] at new
    rw [put, if_neg (Ne.symm new.1), ih new.2, List.cons_append]

theorem entries_foldl_insert (m : StyleMap) (distinct : ((m.entries ++ es).map Prod.fst).Nodup) :
    (es.foldl (fun m e => m.insert e.1 e.2) m).entries = m.entries ++ es := by
  induction es generalizing m with
  | nil => rw [List.foldl_nil, List.append_nil]
  | cons e es ih =>
    have new : e.1 ∉ m.entries.map Prod.fst := by
      intro member
      rw [List.map_append, List.nodup_append] at distinct
      exact distinct.2.2 e.1 member e.1 List.mem_cons_self rfl
    have appended : (m.insert e.1 e.2).entries = m.entries ++ [e] := put_of_not_mem new
    rw [List.foldl_cons, ih, appended, List.append_assoc, List.singleton_append]
    rwa [appended, List.append_assoc, List.singleton_append]

theorem ofPairs_entries (m : StyleMap) : ofPairs m.entries = m := by
  have same : (ofPairs m.entries).entries = m.entries := entries_foldl_insert empty m.nodup
  generalize ofPairs m.entries = made at same
  obtain ⟨entries, nodup⟩ := m
  obtain ⟨found, _⟩ := made
  obtain rfl : found = entries := same
  rfl

end StyleMap

def Path.IsText (p : Path) : Prop := ∃ s, p = Path.ofString s

theorem Path.ofString_display {p : Path} (isText : p.IsText) : Path.ofString p.display = p := by
  obtain ⟨s, rfl⟩ := isText
  exact congrArg Path.ofString (Utf8.decodeLossy_encode s)

theorem Path.isText_iff {p : Path} : p.IsText ↔ p.text?.isSome = true := by
  constructor
  · rintro ⟨s, rfl⟩
    rw [text?, ofString, Utf8.decode?_encode]
    rfl
  · intro decodes
    obtain ⟨s, read⟩ := Option.isSome_iff_exists.mp decodes
    exact ⟨s, congrArg Path.mk (Utf8.encode_of_decode? read).symm⟩

namespace Json

theorem reads_path {p : Path} (isText : p.IsText) : Reads readPath p.toJson p := by
  have reads := (reads_string p.display).map Path.ofString
  rw [Path.ofString_display isText] at reads
  exact reads

theorem reads_paths {ps : List Path} (areTexts : ∀ p ∈ ps, p.IsText) :
    Reads (readList readPath) (Path.listToJson ps) ps :=
  reads_list fun p listed => reads_path (areTexts p listed)

theorem reads_strings (ss : List String) : Reads (readList readString) (.strings ss) ss :=
  reads_list fun s _ => reads_string s

theorem reads_styles (m : StyleMap) : Reads readStyles m.toJson m := by
  have entries : Reads (readPairs readString) m.toJson m.entries :=
    reads_pairs fun e _ => reads_string e.2
  have reads := entries.map StyleMap.ofPairs
  rw [StyleMap.ofPairs_entries] at reads
  exact reads

theorem reads_component (tag : String) :
    Reads componentRecord.read (.object [("tagName", .string tag)]) tag := by
  apply reads_record
  · exact .field rfl (reads_string tag) (.nil _)
  · simp
  · rfl

theorem reads_module {m : Module} (source : m.source.IsText) (output : ∀ p ∈ m.output, p.IsText)
    (imports : ∀ p ∈ m.imports, p.IsText) : Reads moduleRecord.read m.toJson m := by
  unfold Module.toJson
  apply reads_record
  · rw [List.cons_append]
    apply Fills.field rfl (reads_path source)
    apply Fills.optional rfl (fun p given => ⟨reads_path (output p given), nofun⟩) rfl
    apply Fills.field rfl (reads_paths imports)
    rw [← List.append_nil (optionalMember "cmpMeta" _)]
    exact .optional rfl (fun t _ => ⟨reads_component t, nofun⟩) rfl (.nil _)
  · cases m.output <;> cases m.tag <;> simp [optionalMember]
  · rfl

theorem reads_context {c : BuildContext} (changed : ∀ ps ∈ c.changed, ∀ p ∈ ps, p.IsText)
    (written : ∀ p ∈ c.written, p.IsText) : Reads contextRecord.read c.toJson c := by
  unfold BuildContext.toJson
  apply reads_record
  · simp only [List.append_assoc, List.cons_append]
    apply Fills.optional rfl (fun ps given => ⟨reads_paths (changed ps given), nofun⟩) rfl
    apply Fills.field rfl (reads_paths written)
    apply Fills.optional rfl (fun m _ => ⟨reads_styles m, nofun⟩) rfl
    exact .field rfl (reads_bool c.isRebuild) (.nil _)
  · cases c.changed <;> cases c.styles <;> simp [optionalMember]
  · rfl

def payloadRecord : Record Payload Payload where
  fields := [
    field "componentsUpdated" (readOptional (readList readString))
      fun p tags => { p with components := tags },
    field "stylesUpdated" (readOptional readStyles) fun p styles => { p with styles := styles },
    field "externalStylesUpdated" (readOptional (readList readString))
      fun p urls => { p with stylesheets := urls }]
  blank := .nothing
  finish := some

theorem reads_payload (p : Payload) : Reads payloadRecord.read p.toJson p := by
  unfold Payload.toJson
  apply reads_record
  · rw [List.append_assoc]
    apply Fills.optional rfl (fun tags _ => ⟨reads_strings tags, nofun⟩) rfl
    apply Fills.optional rfl (fun m _ => ⟨reads_styles m, nofun⟩) rfl
    rw [← List.append_nil (optionalMember "externalStylesUpdated" _)]
    exact .optional rfl (fun urls _ => ⟨reads_strings urls, nofun⟩) rfl (.nil _)
  · exact (Payload.keys_sublist p).nodup (by decide)
  · rfl

theorem ensures_path : Ensures readPath Path.IsText := by
  intro s rest p taken
  obtain ⟨text, _, rfl⟩ := yields_map_iff.mp taken
  exact ⟨text, rfl⟩

end Json

def BuildContext.paths (c : BuildContext) : List Path := c.changed.getD [] ++ c.written

def Module.paths (m : Module) : List Path := m.source :: (m.output.toList ++ m.imports)

theorem BuildContext.mem_paths {c : BuildContext} {p : Path} :
    p ∈ c.paths ↔ (∃ ps ∈ c.changed, p ∈ ps) ∨ p ∈ c.written := by
  cases given : c.changed <;> simp [paths, given]

theorem Module.mem_paths {m : Module} {p : Path} :
    p ∈ m.paths ↔ p = m.source ∨ p ∈ m.output ∨ p ∈ m.imports := by
  simp [paths, Option.mem_toList]

namespace Json

theorem ensures_context : Ensures contextRecord.read fun c => ∀ p ∈ c.paths, p.IsText := by
  refine ensures_record (fun c : BuildContext => ∀ p ∈ c.paths, p.IsText) ?_ ?_ ?_
  · intro f listed c kept
    simp only [contextRecord, List.mem_cons, List.not_mem_nil, or_false] at listed
    rcases listed with rfl | rfl | rfl | rfl
    · refine ensures_path.list.optional.map ?_
      intro changed texts p member
      rcases BuildContext.mem_paths.mp member with ⟨ps, given, listed⟩ | written
      · exact texts ps given p listed
      · exact kept p (BuildContext.mem_paths.mpr (.inr written))
    · refine ensures_path.list.map ?_
      intro written texts p member
      rcases BuildContext.mem_paths.mp member with changed | listed
      · exact kept p (BuildContext.mem_paths.mpr (.inl changed))
      · exact texts p listed
    · intro s rest d taken
      obtain ⟨m, _, rfl⟩ := yields_map_iff.mp taken
      exact kept
    · intro s rest d taken
      obtain ⟨b, _, rfl⟩ := yields_map_iff.mp taken
      exact kept
  · intro p member
    cases member
  · rintro c _ kept ⟨⟩
    exact kept

theorem readWhole_compact {α : Type} {read : Reader α} {v : Value} {a : α}
    (reads : Reads read v a) : readWhole read v.compactText.toList = .ok a :=
  readWhole_of_isText reads (isText_compact v)

end Json

namespace Payload

theorem isText_render (p : Payload) (pretty : Bool) :
    Json.IsText (render (some p) pretty).toList p.toJson := by
  cases pretty with
  | false => exact Json.isText_compact p.toJson
  | true => exact Json.isText_pretty p.toJson

/-- The text of a payload is one line, and each of its two written forms is a JSON text that reads
back as that payload: no part is lost, added or put in another order. So a text belongs to one
payload only. -/
theorem read_of_render (p : Payload) :
    p.text = render (some p) false ∧ Printable p.text.toList ∧
    (∀ pretty, Json.IsText (render (some p) pretty).toList p.toJson ∧
      Json.readWhole Json.payloadRecord.read (render (some p) pretty).toList = .ok p) ∧
    ∀ q a b, render (some p) a = render (some q) b → p = q := by
  have reads : ∀ (q : Payload) (pretty : Bool),
      Json.readWhole Json.payloadRecord.read (render (some q) pretty).toList = .ok q := by
    intro q pretty
    exact Json.readWhole_of_isText (Json.reads_payload q) (isText_render q pretty)
  refine ⟨rfl, printable_text p, fun pretty => ⟨isText_render p pretty, reads p pretty⟩, ?_⟩
  intro q a b same
  have both := (reads p a).symm.trans ((congrArg _ (congrArg String.toList same)).trans (reads q b))
  exact Except.ok.inj both

end Payload

theorem BuildContext.ofText_compactText {c : BuildContext} (texts : ∀ p ∈ c.paths, p.IsText) :
    ofText c.toJson.compactText = .ok c := by
  apply Json.readWhole_compact
  apply Json.reads_context
  · intro ps given p member
    exact texts p (mem_paths.mpr (.inl ⟨ps, given, member⟩))
  · intro p member
    exact texts p (mem_paths.mpr (.inr member))

theorem Json.readWhole_modules {ms : List Module} (texts : ∀ m ∈ ms, ∀ p ∈ m.paths, p.IsText) :
    readWhole (readList moduleRecord.read)
      (Value.array (ms.map Module.toJson)).compactText.toList = .ok ms := by
  apply readWhole_compact
  apply reads_list
  intro m listed
  apply reads_module
  · exact texts m listed m.source (Module.mem_paths.mpr (.inl rfl))
  · intro p given
    exact texts m listed p (Module.mem_paths.mpr (.inr (.inl given)))
  · intro p member
    exact texts m listed p (Module.mem_paths.mpr (.inr (.inr member)))

/-- Build contexts and module records whose paths are UTF-8 are read back from their texts as they
were. Every context that was read has such paths, so writing what was read and reading that again
changes nothing. -/
theorem records_read_back :
    (∀ c : BuildContext, (∀ p ∈ c.paths, p.text?.isSome = true) →
      BuildContext.ofText c.toJson.compactText = .ok c) ∧
    (∀ ms : List Module, (∀ m ∈ ms, ∀ p ∈ m.paths, p.text?.isSome = true) →
      Json.readWhole (Json.readList Json.moduleRecord.read)
        (Json.Value.array (ms.map Module.toJson)).compactText.toList = .ok ms) ∧
    ∀ text c, BuildContext.ofText text = .ok c →
      BuildContext.ofText c.toJson.compactText = .ok c := by
  refine ⟨?_, ?_, ?_⟩
  · intro c texts
    exact BuildContext.ofText_compactText fun p member => Path.isText_iff.mpr (texts p member)
  · intro ms texts
    exact Json.readWhole_modules fun m listed p member =>
      Path.isText_iff.mpr (texts m listed p member)
  · intro text c read
    obtain ⟨rest, taken, _⟩ := Json.readWhole_eq_ok_iff.mp read
    exact BuildContext.ofText_compactText (Json.ensures_context taken)

/-- No file changed, which is not the same as that no changes are known. -/
theorem rebuild_read_back :
    BuildContext.ofText (BuildContext.toJson
        ⟨some [], [.ofString "/www/é.css"], none, true⟩).compactText =
      .ok ⟨some [], [.ofString "/www/é.css"], none, true⟩ := by
  apply records_read_back.1
  intro p member
  obtain rfl := List.mem_singleton.mp member
  exact Path.isText_iff.mp ⟨_, rfl⟩

end HotReload
