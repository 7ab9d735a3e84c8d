import HotReload.CommandLine.OneShot
import HotReload.Proofs.CycleOutcomes
import HotReload.Proofs.MemberParts
import HotReload.Proofs.SnapshotLayouts
import HotReload.Proofs.StyleMaps

namespace HotReload

open Json (Part)

/-- The text of a snapshot reports these styles, in this order; a tag may stand twice. -/
def ReportsStyles (text : List Char) (pairs : List (String × String)) : Prop :=
  ∃ snapshot context styles : Part, Json.Spaced text snapshot.front ∧
    Json.Spaced snapshot.back [] ∧
    Json.HasMember Json.snapshotNames snapshot "buildCtx" context ∧
    Json.HasMember Json.contextNames context "stylesUpdated" styles ∧
    Json.pairsForm Json.stringForm styles.front pairs styles.back

/-- The text of a payload has one member for the inline styles, which are these without repeated
tags. -/
def ShowsStyles (text : List Char) (pairs : List (String × String)) : Prop :=
  ∃ members entries, Json.IsText text (.object members) ∧
    members.filter (·.1 == "stylesUpdated") =
      [("stylesUpdated", .object (entries.map fun e => (e.1, .string e.2)))] ∧
    StyleMap.Condenses pairs entries

variable {config : ProjectConfig} {view : FileView} {file : Path} {text : String} {s : Snapshot}
  {pairs : List (String × String)}

theorem styles_of_reportsStyles (content : view.content file = .ok (Utf8.encode text))
    (loaded : Snapshot.load view file = .ok s) (reports : ReportsStyles text.toList pairs) :
    s.context.styles = some (.ofPairs pairs) := by
  obtain ⟨bytes, decoded_text, other_content, decoded, parsed⟩ := Snapshot.load_eq_ok_iff.mp loaded
  obtain rfl := Except.ok.inj (content.symm.trans other_content)
  obtain rfl := Option.some.inj ((Utf8.decode?_encode text).symm.trans decoded)
  obtain ⟨front, back, spaced, stands, -⟩ := Snapshot.ofText_eq_ok_iff.mp parsed
  obtain ⟨snapshot, context, styles, same_spaced, -, has_context, has_styles, written⟩ := reports
  have same : front = snapshot.front := by
    obtain ⟨others, other_cut, others_formed, -⟩ := has_context
    rw [← Json.skipSpace_of_spaced_wellFormed spaced (Json.recognizes_snapshot.formed stands)]
    exact Json.skipSpace_of_spaced_wellFormed same_spaced
      (Json.wellFormed_of_record other_cut others_formed)
  obtain ⟨members, cut, given⟩ := stands
  rw [same] at cut
  have formed := Json.Composed.formed_of_allGiven (Json.snapshotMembers_iff.mpr given)
  obtain ⟨inner, inner_cut, inner_given⟩ :=
    Json.gives_of_hasMember has_context cut formed given.context
  have inner_formed := Json.Composed.formed_of_allGiven (Json.contextMembers_iff.mpr inner_given)
  rcases Json.gives_of_hasMember has_styles inner_cut inner_formed inner_given.styles with
    ⟨-, null⟩ | ⟨m, reported, others, rfl, other_written⟩
  · obtain ⟨_, ⟨body, brace, -⟩, -⟩ := written
    rw [brace] at null
    cases null
  · rw [reported, (Json.recognizes_string.pairs.unique written other_written).1]

theorem shows_of_styles {p : Payload} (styles : p.styles = some (.ofPairs pairs))
    (pretty : Bool) : ShowsStyles (Payload.render (some p) pretty).toList pairs := by
  refine ⟨p.members, _, p.isText_render pretty, ?_, StyleMap.condenses_ofPairs pairs⟩
  rw [Payload.members, styles]
  cases p.components <;> cases p.stylesheets <;> simp [optionalMember, StyleMap.toJson]

/-- A payload that is built shows all styles that were reported. -/
theorem built_shows (registry : Registry) (ctx : BuildContext) (some_style : pairs ≠ [])
    (styles : ctx.styles = some (.ofPairs pairs)) (applies : Payload.eligible config ctx = true) :
    ∃ p, Payload.ofBuild? config registry ctx = some p ∧
      ∀ pretty, ShowsStyles (Payload.render (some p) pretty).toList pairs := by
  have kept : (StyleMap.ofPairs pairs).entries ≠ [] := by
    intro empty
    obtain ⟨p, ps, rfl⟩ := List.ne_nil_iff_exists_cons.mp some_style
    have listed := (StyleMap.condenses_ofPairs (p :: ps)).mem_keys_iff.mpr List.mem_cons_self
    rw [empty] at listed
    cases listed
  refine ⟨_, Payload.ofBuild?_of_eligible applies, shows_of_styles ?_⟩
  simp [styles, kept]

/-- Where a snapshot that loads reports inline styles, the payload of every rebuild with hot reload
on shows them in its text: each tag once, in the order in which the tags first stand in the
snapshot, and with the style that stands last for it. So does the answer of a one-shot run. -/
theorem Payload.shows_reported_styles (content : view.content file = .ok (Utf8.encode text))
    (loaded : Snapshot.load view file = .ok s) (reports : ReportsStyles text.toList pairs)
    (some_style : pairs ≠ []) (enabled : config.hotReloadEnabled = true) :
    (∀ completed, 0 < completed → ∃ p,
      (Watch.Cycle.run config view file completed).outcome = .ok (.payload p) ∧
        ShowsStyles p.text.toList pairs) ∧
    ∀ force pretty, (s.context.isRebuild || force) = true → ∃ answer,
      OneShot.run config view file force pretty = .ok answer ∧
        ShowsStyles answer.text.toList pairs := by
  have styles := styles_of_reportsStyles content loaded reports
  constructor
  · intro completed later
    obtain ⟨p, built, shows⟩ := built_shows s.registry { s.context with isRebuild := true }
      some_style styles enabled
    refine ⟨p, ?_, shows false⟩
    rw [Watch.outcome_later later loaded, Watch.rebuildPayload, built]
  · intro force pretty rebuild
    obtain ⟨p, built, shows⟩ := built_shows s.registry
      { s.context with isRebuild := s.context.isRebuild || force } some_style styles
      (Bool.and_eq_true_iff.mpr ⟨rebuild, enabled⟩)
    refine ⟨OneShot.ofSnapshot config s force pretty, by rw [OneShot.run, loaded]; rfl, ?_⟩
    rw [OneShot.ofSnapshot, built]
    exact shows pretty

theorem Json.label_quoted (k : String) (value : List Char) :
    Json.Label (Json.quoted k ++ ':' :: value) k value :=
  ⟨_, _, value, Json.quoted_append k _ ▸ Json.spaced_self _, Json.spells_quoted k _,
    Json.spaced_self _, Json.spaced_self _⟩

def repeatedTag (rest : List Char) : List Char :=
  '\x7b' :: (Json.quoted "b" ++ ':' :: (Json.quoted "red" ++ ',' ::
    (Json.quoted "a" ++ ':' :: (Json.quoted "blue" ++ ',' ::
      ("\"\\u0062\"".toList ++ ':' :: (Json.quoted "green" ++ '\x7d' :: rest))))))

theorem pairs_repeatedTag (rest : List Char) :
    Json.pairsForm Json.stringForm (repeatedTag rest)
      [("b", "red"), ("a", "blue"), ("b", "green")] rest := by
  have escaped : ∀ value, Json.Label ("\"\\u0062\"".toList ++ ':' :: value) "b" value := by
    intro value
    exact ⟨_, _, value, Json.spaced_self _,
      .escape (.code ⟨'0', '0', '6', '2', 0, 0, 6, 2, rfl, rfl, rfl, rfl, rfl, rfl⟩ (by decide)
        (by decide)) .close,
      Json.spaced_self _, Json.spaced_self _⟩
  have string : ∀ s rest, Json.stringForm (Json.quoted s ++ rest) s rest :=
    fun s rest => Json.written_compact (.string s) rest
  have further : ∀ {name back : List Char} {k : String} {members : List (String × Part)}
      (_ : ∀ value, Json.Label (name ++ ':' :: value) k value) (v : String),
      Json.FurtherEntries '\x7d' Json.Label back members rest →
      Json.FurtherEntries '\x7d' Json.Label (',' :: (name ++ ':' :: (Json.quoted v ++ back)))
        ((k, ⟨Json.quoted v ++ back, back⟩) :: members) rest :=
    fun label v later => .some (Json.spaced_self _) (label _) later
  have third := further escaped "green" (.none (Json.spaced_self ('\x7d' :: rest)))
  have second := further (Json.label_quoted "a") "blue" third
  refine ⟨("b", ⟨_, _⟩) :: _, ⟨_, rfl, .some (Json.label_quoted "b" _) second⟩, ?_⟩
  exact .cons ⟨rfl, string "red" _⟩
    (.cons ⟨rfl, string "blue" _⟩ (.cons ⟨rfl, string "green" _⟩ .nil))

def repeatedTagText : String :=
  String.ofList ('\x7b' :: (Json.quoted "buildCtx" ++ ':' :: '\x7b' ::
    (Json.quoted "stylesUpdated" ++ ':' :: repeatedTag ['\x7d', '\x7d'])))

theorem reports_repeatedTag :
    ReportsStyles repeatedTagText.toList [("b", "red"), ("a", "blue"), ("b", "green")] := by
  have styles := pairs_repeatedTag ['\x7d', '\x7d']
  have styles_formed := Json.recognizes_string.pairs.formed styles
  have one : ∀ {k : String} {value rest : List Char}, Json.WellFormed value ('\x7d' :: rest) →
      ∃ members, Json.ObjectParts ('\x7b' :: (Json.quoted k ++ ':' :: value)) members rest ∧
        Json.AllFormed members ∧ (k, ⟨value, '\x7d' :: rest⟩) ∈ members := by
    intro k value rest formed
    refine ⟨[(k, ⟨value, '\x7d' :: rest⟩)], ⟨_, rfl, ?_⟩, ?_, List.mem_singleton_self _⟩
    · exact .some (Json.label_quoted k value) (.none (Json.spaced_self _))
    · exact List.forall_mem_singleton.mpr formed
  obtain ⟨inner, inner_cut, inner_formed, inner_listed⟩ := one (k := "stylesUpdated") styles_formed
  have context_formed := Json.wellFormed_of_object inner_cut inner_formed
  obtain ⟨members, cut, formed, listed⟩ := one (k := "buildCtx") context_formed
  refine ⟨⟨_, []⟩, _, _, ?_, Json.spaced_self _, ⟨members, .inl cut, formed, listed⟩,
    ⟨inner, .inl inner_cut, inner_formed, inner_listed⟩, styles⟩
  rw [repeatedTagText, String.toList_ofList]
  exact Json.spaced_self _

theorem Payload.shows_repeated_tag :
    ∃ p,
      (Watch.Cycle.run { ProjectConfig.default with devServer := some ⟨true⟩ }
          (Watch.everywhere (Utf8.encode repeatedTagText)) ⟨[0x73]⟩ 1).outcome =
        .ok (.payload p) ∧
      ShowsStyles p.text.toList [("b", "red"), ("a", "blue"), ("b", "green")] := by
  have parsed : Snapshot.ofText repeatedTagText = .ok ⟨[], { BuildContext.initial with
      styles := some (.ofPairs [("b", "green"), ("a", "blue")]) }⟩ := by decide +kernel
  have loaded : Snapshot.load (Watch.everywhere (Utf8.encode repeatedTagText)) ⟨[0x73]⟩ = .ok _ :=
    Snapshot.load_eq_ok_iff.mpr ⟨_, _, rfl, Utf8.decode?_encode repeatedTagText, parsed⟩
  exact (shows_reported_styles rfl loaded reports_repeatedTag (by decide) rfl).1 1 Nat.one_pos

end HotReload
