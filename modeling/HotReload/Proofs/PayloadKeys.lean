import HotReload.Proofs.CompactText
import HotReload.Proofs.JsonText
import HotReload.Proofs.PayloadParts

namespace HotReload

/-- Neither null nor empty, and the same holds of every value inside. -/
inductive Json.Filled : Json.Value → Prop where
  | bool (b : Bool) : Filled (.bool b)
  | string (s : String) : Filled (.string s)
  | array {items : List Json.Value} (nonempty : items ≠ []) (each : ∀ v ∈ items, Filled v) :
      Filled (.array items)
  | object {members : List (String × Json.Value)} (nonempty : members ≠ [])
      (each : ∀ m ∈ members, Filled m.2) : Filled (.object members)

theorem Json.filled_strings {ss : List String} (nonempty : ss ≠ []) :
    Json.Filled (Json.Value.strings ss) := by
  apply Json.Filled.array
  · simpa using nonempty
  · intro v member
    obtain ⟨s, _, rfl⟩ := List.mem_map.mp member
    exact .string s

theorem StyleMap.filled_toJson {m : StyleMap} (nonempty : m.entries ≠ []) :
    Json.Filled m.toJson := by
  apply Json.Filled.object
  · simpa using nonempty
  · intro v member
    obtain ⟨e, _, rfl⟩ := List.mem_map.mp member
    exact .string e.2

namespace Payload

variable {config : ProjectConfig} {r : Registry} {ctx : BuildContext} {p : Payload}

theorem render_eq_null_iff (payload : Option Payload) :
    render payload false = "null" ↔ payload = none := by
  cases payload with
  | none => exact iff_of_true rfl rfl
  | some p => exact iff_of_false p.text_ne_null (fun impossible => by cases impossible)

theorem mem_keys_optionalMember {name key : String} {v : Option Json.Value} :
    key ∈ (optionalMember name v).map Prod.fst ↔ key = name ∧ v.isSome = true := by
  cases v <;> simp [optionalMember]

theorem keys_optionalMember_sublist (name : String) (v : Option Json.Value) :
    ((optionalMember name v).map Prod.fst).Sublist [name] := by
  cases v <;> simp [optionalMember]

def members (p : Payload) : List (String × Json.Value) :=
  optionalMember "componentsUpdated" (p.components.map Json.Value.strings) ++
    optionalMember "stylesUpdated" (p.styles.map StyleMap.toJson) ++
    optionalMember "externalStylesUpdated" (p.stylesheets.map Json.Value.strings)

theorem keys_sublist (p : Payload) : (p.members.map Prod.fst).Sublist
    ["componentsUpdated", "stylesUpdated", "externalStylesUpdated"] := by
  rw [members, List.map_append, List.map_append]
  exact ((keys_optionalMember_sublist _ _).append (keys_optionalMember_sublist _ _)).append
    (keys_optionalMember_sublist _ _)

theorem mem_keys {key : String} : key ∈ p.members.map Prod.fst ↔
    key = "componentsUpdated" ∧ p.components.isSome = true ∨
      key = "stylesUpdated" ∧ p.styles.isSome = true ∨
      key = "externalStylesUpdated" ∧ p.stylesheets.isSome = true := by
  simp only [members, List.map_append, List.mem_append, mem_keys_optionalMember,
    Option.isSome_map, or_assoc]

theorem filled_optionalMember {name : String} {v : Option Json.Value}
    (filled : ∀ w, v = some w → Json.Filled w) :
    ∀ m ∈ optionalMember name v, Json.Filled m.2 := by
  intro m listed
  cases v with
  | none => cases listed
  | some w =>
    cases List.mem_singleton.mp listed
    exact filled w rfl

theorem filled_members (built : ofBuild? config r ctx = some p) :
    ∀ m ∈ p.members, Json.Filled m.2 := by
  have applies : eligible config ctx = true := by
    rw [ofBuild?] at built
    split at built
    · rename_i applies
      exact applies
    · cases built
  rw [ofBuild?_of_eligible applies] at built
  cases built
  intro m listed
  rw [members, List.mem_append, List.mem_append] at listed
  rcases listed with (tags | styles) | urls
  · refine filled_optionalMember (fun w value => ?_) m tags
    obtain ⟨ts, reported, rfl⟩ := Option.map_eq_some_iff.mp value
    exact Json.filled_strings (Impact.tags_spec reported).1
  · refine filled_optionalMember (fun w value => ?_) m styles
    obtain ⟨map, kept, rfl⟩ := Option.map_eq_some_iff.mp value
    exact StyleMap.filled_toJson (by simpa using (Option.filter_eq_some_iff.mp kept).2)
  · refine filled_optionalMember (fun w value => ?_) m urls
    obtain ⟨us, reported, rfl⟩ := Option.map_eq_some_iff.mp value
    exact Json.filled_strings (StyleChanges.ne_nil_of_external reported)

/-- The text is `null` exactly where hot reload does not apply. Everywhere else it is the text of
one object and of no other value; its members stand in a fixed order, each exactly if its part has
something to say, and nothing in them is empty. -/
theorem members_of_text (config : ProjectConfig) (r : Registry) (ctx : BuildContext) :
    (render (ofBuild? config r ctx) false = "null" ↔ ctx.isRebuild = false ∨
      config.devServer = none ∨ ∃ d, config.devServer = some d ∧ d.hotReload = false) ∧
    (render (ofBuild? config r ctx) false ≠ "null" →
      ∃ (p : Payload) (members : List (String × Json.Value)), ofBuild? config r ctx = some p ∧
        (∀ v : Json.Value, v.compactText = render (ofBuild? config r ctx) false ↔
          v = .object members) ∧
        (members.map Prod.fst).Sublist
          ["componentsUpdated", "stylesUpdated", "externalStylesUpdated"] ∧
        ("componentsUpdated" ∈ members.map Prod.fst ↔ ∃ tag, Impact.Hits r ctx.changed tag) ∧
        ("stylesUpdated" ∈ members.map Prod.fst ↔
          ∃ m, ctx.styles = some m ∧ m.entries ≠ []) ∧
        ("externalStylesUpdated" ∈ members.map Prod.fst ↔
          (∃ t ∈ config.targets, t.kind = .www) ∧ ∃ f ∈ ctx.written, f.isStylesheet = true) ∧
        (∀ m ∈ members, Json.Filled m.2) ∧
        (render (ofBuild? config r ctx) false = "\x7b\x7d" ↔ p.isEmpty = true)) := by
  constructor
  · rw [render_eq_null_iff, ofBuild?_eq_none_iff, eligible_eq_false_iff]
  · intro given
    have applies : eligible config ctx = true := by
      rw [ne_eq, render_eq_null_iff, ofBuild?_eq_none_iff] at given
      simpa using given
    have rebuild : ctx.isRebuild = true := (Bool.and_eq_true_iff.mp applies).1
    have built := ofBuild?_of_eligible (r := r) applies
    refine ⟨_, _, built, ?_, keys_sublist _, ?_, ?_, ?_, filled_members built, ?_⟩
    · intro v
      rw [built]
      constructor
      · exact fun same => Json.compactText_injective same
      · rintro rfl
        rfl
    · rw [mem_keys, ← Impact.tags_isSome_iff]
      simp
    · rw [mem_keys, ← styles_isSome_iff]
      simp
    · rw [mem_keys, ← StyleChanges.external_isSome_iff rebuild]
      simp
    · rw [built]
      exact text_eq_braces_iff _

end Payload
end HotReload
