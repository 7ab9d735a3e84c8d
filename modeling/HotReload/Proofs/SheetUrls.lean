import HotReload.Proofs.PayloadParts
import Mathlib.Algebra.BigOperators.Fin

namespace HotReload

/-- The file name ends in `.css`, with something in front of it. -/
def Path.IsSheet (p : Path) : Prop := p.extension = some (Utf8.encode "css")

instance (p : Path) : Decidable p.IsSheet :=
  inferInstanceAs (Decidable (p.extension = some (Utf8.encode "css")))

theorem FileKind.ofExtension?_eq_stylesheet_iff {ext : String} :
    ofExtension? ext = some .stylesheet ↔ ext = "css" := by
  unfold ofExtension?
  split
  · rename_i script
    have other : ext ≠ "css" := by rcases script with h | h | h <;> simp [h]
    simp [other]
  · simp

theorem Path.isStylesheet_iff {p : Path} : p.isStylesheet = true ↔ p.IsSheet := by
  simp only [isStylesheet, IsSheet, beq_iff_eq, FileKind.ofPath?, Option.bind_eq_some_iff,
    FileKind.ofExtension?_eq_stylesheet_iff]
  constructor
  · rintro ⟨ext, named, s, decoded, rfl⟩
    rw [named, Utf8.encode_of_decode? decoded]
  · intro named
    exact ⟨_, named, "css", Utf8.decode?_encode "css", rfl⟩

namespace StyleChanges

variable {targets : List OutputTarget} {ctx : BuildContext} {urls : List String}

/-- The file at the first position is a stylesheet, the target at the second one is a `www`
target, and `url` is where the file stands below the target's directory. -/
def IsServed (targets : List OutputTarget) (written : List Path) (url : String)
    (pair : Fin written.length × Fin targets.length) : Prop :=
  written[pair.1].IsSheet ∧ targets[pair.2].kind = .www ∧
    (Path.relativeTo targets[pair.2].dir written[pair.1]).siteUrl = url

instance (targets : List OutputTarget) (written : List Path) (url : String) :
    DecidablePred (IsServed targets written url) := fun pair =>
  inferInstanceAs (Decidable (written[pair.1].IsSheet ∧ _ ∧ _))

def servedUrls (targets : List OutputTarget) (written : List Path) : List String :=
  (written.filter Path.isStylesheet).flatMap fun file =>
    (ProjectConfig.wwwDirs targets).map fun dir => (Path.relativeTo dir file).siteUrl

theorem external_eq_some (reported : external targets ctx = some urls) :
    urls = ByteOrder.sort (servedUrls targets ctx.written) := by
  simp only [external] at reported
  split at reported
  · contradiction
  · exact (Option.some.inj reported).symm

theorem rebuild_of_external (reported : (external targets ctx).isSome = true) :
    ctx.isRebuild = true := by
  by_contra initial
  simp [external, initial] at reported

section Counting

variable {α β : Type}

theorem sum_indicator (ys : List β) (p : β → Prop) [DecidablePred p] :
    (ys.map fun y => if p y then 1 else 0).sum = ys.countP p := by
  induction ys with
  | nil => rfl
  | cons y ys ih => simp [List.countP_cons, ih, Nat.add_comm]

/-- Pairs of positions are counted row by row. -/
theorem card_positions (xs : List α) (ys : List β) (p : α → β → Prop)
    [∀ a b, Decidable (p a b)] :
    (Finset.univ.filter fun pair : Fin xs.length × Fin ys.length =>
      p xs[pair.1] ys[pair.2]).card = (xs.map fun x => ys.countP (p x ·)).sum := by
  have row (x : α) : (∑ j : Fin ys.length, if p x ys[j] then 1 else 0) = ys.countP (p x ·) :=
    (Fin.sum_univ_fun_getElem ys _).trans (sum_indicator ys (p x))
  rw [Finset.card_filter, Fintype.sum_prod_type, Finset.sum_congr rfl fun i _ => row xs[i]]
  exact Fin.sum_univ_fun_getElem xs fun x => ys.countP (p x ·)

end Counting

theorem count_wwwDirs (targets : List OutputTarget) (file : Path) (url : String) :
    ((ProjectConfig.wwwDirs targets).map fun dir => (Path.relativeTo dir file).siteUrl).count url =
      targets.countP fun t => t.kind = .www ∧ (Path.relativeTo t.dir file).siteUrl = url := by
  induction targets with
  | nil => rfl
  | cons t ts ih =>
    rw [List.countP_cons, ← ih, ProjectConfig.wwwDirs, ProjectConfig.wwwDirs, List.filter_cons]
    by_cases site : t.kind = .www
    · simp [site, List.count_cons]
    · simp [site]

theorem count_servedUrls (targets : List OutputTarget) (written : List Path) (url : String) :
    (servedUrls targets written).count url =
      (written.map fun file => targets.countP fun t => file.IsSheet ∧ t.kind = .www ∧
        (Path.relativeTo t.dir file).siteUrl = url).sum := by
  induction written with
  | nil => rfl
  | cons file written ih =>
    rw [List.map_cons, List.sum_cons, ← ih, servedUrls, servedUrls, List.filter_cons]
    by_cases sheet : file.IsSheet
    · simp [Path.isStylesheet_iff.mpr sheet, sheet, count_wwwDirs]
    · have other : ¬ file.isStylesheet = true := fun h => sheet (Path.isStylesheet_iff.mp h)
      simp [other, sheet]

theorem length_servedUrls (targets : List OutputTarget) (written : List Path) :
    (servedUrls targets written).length =
      written.countP (·.IsSheet) * targets.countP (·.kind = .www) := by
  have sheets : (written.filter Path.isStylesheet).length = written.countP (·.IsSheet) := by
    simp only [List.countP_eq_length_filter, ← Path.isStylesheet_iff, Bool.decide_eq_true]
  have dirs : (ProjectConfig.wwwDirs targets).length = targets.countP (·.kind = .www) := by
    rw [ProjectConfig.wwwDirs, List.length_map, List.countP_eq_length_filter]
    rfl
  simp [servedUrls, sheets, dirs]

/-- URLs are reported exactly if a rebuild wrote a stylesheet and there is a `www` target. They
stand in ascending byte order, and each of them as often as there are pairs of positions that
give it. -/
theorem external_exact (targets : List OutputTarget) (ctx : BuildContext) :
    ((external targets ctx).isSome = true ↔ ctx.isRebuild = true ∧
      (∃ t ∈ targets, t.kind = .www) ∧ ∃ file ∈ ctx.written, file.IsSheet) ∧
    ∀ urls, external targets ctx = some urls →
      (urls.Pairwise fun a b => Utf8.encode a ≤ Utf8.encode b) ∧
      (∀ url, urls.count url =
        (Finset.univ.filter (IsServed targets ctx.written url)).card) ∧
      urls.length = ctx.written.countP (·.IsSheet) * targets.countP (·.kind = .www) := by
  constructor
  · constructor
    · intro reported
      have rebuild := rebuild_of_external reported
      have both := (external_isSome_iff rebuild).mp reported
      simp only [Path.isStylesheet_iff] at both
      exact ⟨rebuild, both⟩
    · rintro ⟨rebuild, both⟩
      simp only [← Path.isStylesheet_iff] at both
      exact (external_isSome_iff rebuild).mpr both
  · intro urls reported
    obtain rfl := external_eq_some reported
    have perm : (ByteOrder.sort (servedUrls targets ctx.written)).Perm
        (servedUrls targets ctx.written) := List.mergeSort_perm _ _
    refine ⟨?_, ?_, ?_⟩
    · have sorted := ByteOrder.pairwise_sort (servedUrls targets ctx.written)
      simpa only [ByteOrder.le, decide_eq_true_eq] using sorted
    · intro url
      rw [perm.count_eq, count_servedUrls]
      exact (card_positions ctx.written targets _).symm
    · rw [perm.length_eq, length_servedUrls]

end StyleChanges
end HotReload
