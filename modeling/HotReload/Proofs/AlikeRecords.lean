import HotReload.Proofs.Impact
import HotReload.Proofs.Records

/-! Records that differ only in how their paths are spelled and how their imports are listed.
Registries that answer every path with alike records reach alike records from alike ones, and so
the same tags are hit in both. -/
namespace HotReload

namespace Path

theorem isScript_congr {p q : Path} (same : p.components = q.components) :
    p.isScript = q.isScript := by
  simp only [isScript, FileKind.ofPath?, extension, fileName, same]

theorem isStylesheet_congr {p q : Path} (same : p.components = q.components) :
    p.isStylesheet = q.isStylesheet := by
  simp only [isStylesheet, FileKind.ofPath?, extension, fileName, same]

/-- The lists name the same paths, in any order, any number of times and in any spelling. -/
def SameSet (ps qs : List Path) : Prop :=
  ∀ cs, (∃ p ∈ ps, p.components = cs) ↔ ∃ q ∈ qs, q.components = cs

variable {ps qs : List Path}

theorem SameSet.symm (same : SameSet ps qs) : SameSet qs ps := fun cs => (same cs).symm

theorem SameSet.exists_of_mem (same : SameSet ps qs) {p : Path} (member : p ∈ ps) :
    ∃ q ∈ qs, q.components = p.components :=
  (same p.components).mp ⟨p, member, rfl⟩

theorem sameSet_of_mem_iff (same : ∀ p, p ∈ ps ↔ p ∈ qs) : SameSet ps qs := by
  intro cs
  simp only [same]

theorem sameSet_of_map_eq (same : ps.map components = qs.map components) : SameSet ps qs := by
  intro cs
  rw [← List.mem_map, ← List.mem_map, same]

end Path

structure Module.Alike (m n : Module) : Prop where
  source : m.source.components = n.source.components
  output : m.output.map Path.components = n.output.map Path.components
  imports : Path.SameSet m.imports n.imports
  tag : m.tag = n.tag

namespace Module.Alike

variable {m n : Module}

theorem refl (m : Module) : m.Alike m := ⟨rfl, rfl, fun _ => Iff.rfl, rfl⟩

theorem symm (alike : m.Alike n) : n.Alike m :=
  ⟨alike.source.symm, alike.output.symm, alike.imports.symm, alike.tag.symm⟩

theorem isAt {f g : Path} (alike : m.Alike n) (same : f.components = g.components)
    (isAt : m.IsAt f) : n.IsAt g := by
  rcases isAt with source | ⟨output, given, at_output⟩
  · exact .inl (alike.source.symm.trans (source.trans same))
  · have there := alike.output
    rw [given] at there
    obtain ⟨other, given, spelled⟩ := Option.map_eq_some_iff.mp there.symm
    exact .inr ⟨other, given, spelled.trans (at_output.trans same)⟩

end Module.Alike

/-- Whatever path is asked for, both have no record of it or alike ones. -/
def Registry.Alike (r s : Registry) : Prop := ∀ p, Option.Rel Module.Alike (r.get? p) (s.get? p)

namespace Registry

variable {r s : Registry}

theorem Alike.symm (alike : r.Alike s) : s.Alike r := by
  intro p
  have records := alike p
  revert records
  generalize r.get? p = first
  generalize s.get? p = second
  intro records
  cases records with
  | none => exact .none
  | some record => exact .some record.symm

theorem Alike.get? (alike : r.Alike s) {p q : Path} {m : Module}
    (same : p.components = q.components) (found : r.get? p = some m) :
    ∃ n, s.get? q = some n ∧ m.Alike n := by
  have records := alike p
  rw [found, get?_congr same] at records
  generalize s.get? q = answer at records
  cases records with
  | some alike => exact ⟨_, rfl, alike⟩

theorem alike_of_get?_eq (same : ∀ p, r.get? p = s.get? p) : r.Alike s := by
  intro p
  rw [same]
  cases s.get? p with
  | none => exact .none
  | some m => exact .some (.refl m)

theorem Alike.insert (alike : r.Alike s) {m n : Module} (records : m.Alike n) :
    (r.insert m).2.Alike (s.insert n).2 := by
  intro p
  have place : m.source.same p = n.source.same p := by
    rw [Path.same, Path.same, records.source]
  rw [get?_insert, get?_insert, place]
  split
  · exact .some records
  · exact alike p

theorem alike_ofList {ms ns : List Module} (records : List.Forall₂ Module.Alike ms ns) :
    (ofList ms).Alike (ofList ns) := by
  have run : ∀ {r s : Registry}, r.Alike s →
      (ms.foldl (fun r m => (r.insert m).2) r).Alike (ns.foldl (fun r m => (r.insert m).2) s) := by
    induction records with
    | nil => exact fun alike => alike
    | cons first _ ih => exact fun alike => ih (alike.insert first)
  exact run fun p => .none

/-- A walk in one registry can be taken in the other, through alike records. -/
theorem Reaches.alike (alike : r.Alike s) {a b : Module} (reached : r.Reaches a b) :
    ∀ {c : Module}, a.Alike c → ∃ d, s.Reaches c d ∧ b.Alike d := by
  induction reached with
  | here a => exact fun {c} start => ⟨c, .here c, start⟩
  | step edge _ ih =>
    intro c start
    obtain ⟨p, imported, found⟩ := edge
    obtain ⟨q, listed, spelled⟩ := start.imports.exists_of_mem imported
    obtain ⟨next, answer, like⟩ := alike.get? spelled.symm found
    obtain ⟨d, further, last⟩ := ih like
    exact ⟨d, .step ⟨q, listed, answer⟩ further, last⟩

end Registry

namespace Impact

variable {r s : Registry} {changed others : Option (List Path)}

theorem hits_of_alike (alike : r.Alike s)
    (files : ∀ ps, changed = some ps → ∃ qs, others = some qs ∧ Path.SameSet ps qs) {tag : String}
    (hits : Hits r changed tag) : Hits s others tag := by
  obtain ⟨m, member, tagged, ps, given, f, listed, isScript, b, reached, isAt⟩ := hits
  obtain ⟨n, entry, start⟩ := alike.get? rfl (Registry.mem_entries_iff.mp member)
  obtain ⟨qs, others_given, same⟩ := files ps given
  obtain ⟨g, g_listed, spelled⟩ := same.exists_of_mem listed
  obtain ⟨d, further, last⟩ := reached.alike alike start
  have known : n ∈ s.entries := List.mem_of_find?_eq_some entry
  exact ⟨n, known, start.tag ▸ tagged, qs, others_given, g, g_listed,
    (Path.isScript_congr spelled).trans isScript, d, further, last.isAt spelled.symm isAt⟩

/-- Alike registries and the same changes give the same tags. -/
theorem tags_of_alike (alike : r.Alike s) (files : Option.Rel Path.SameSet changed others) :
    tags r changed = tags s others := by
  apply tags_congr
  intro tag
  cases files with
  | none =>
    constructor <;> rintro ⟨_, _, _, _, impossible, _⟩ <;> cases impossible
  | some same =>
    constructor
    · apply hits_of_alike alike
      rintro _ ⟨⟩
      exact ⟨_, rfl, same⟩
    · apply hits_of_alike alike.symm
      rintro _ ⟨⟩
      exact ⟨_, rfl, same.symm⟩

end Impact
end HotReload
