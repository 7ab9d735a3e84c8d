import HotReload.Proofs.Utf8
import HotReload.Text.ByteOrder
import Mathlib.Data.List.Sort

namespace HotReload.ByteOrder

/-- The bytes of each text stand strictly before those of every later one. -/
def Ascending (texts : List String) : Prop :=
  texts.Pairwise fun a b => Utf8.encode a < Utf8.encode b

theorem encode_lt_of_not_lt {a b : String} (differ : a ≠ b)
    (not_before : ¬ Utf8.encode a < Utf8.encode b) : Utf8.encode b < Utf8.encode a :=
  Std.lt_of_le_of_ne not_before fun same => differ (Utf8.encode_injective same.symm)

theorem mem_insert {x t : String} {us : List String} : x ∈ insert t us ↔ x = t ∨ x ∈ us := by
  induction us with
  | nil => simp [insert]
  | cons u us ih =>
    unfold insert
    split
    · rename_i same
      subst same
      simp
    · split
      · simp
      · rw [List.mem_cons, List.mem_cons, ih]
        exact or_left_comm

theorem ascending_insert (t : String) {us : List String} (sorted : Ascending us) :
    Ascending (insert t us) := by
  induction us with
  | nil => exact List.pairwise_singleton _ _
  | cons u us ih =>
    obtain ⟨head, tail⟩ := List.pairwise_cons.mp sorted
    unfold insert
    split
    · exact sorted
    · rename_i differ
      split
      · rename_i before
        have first : Utf8.encode t < Utf8.encode u := by simpa [lt] using before
        refine List.pairwise_cons.mpr ⟨fun x member => ?_, sorted⟩
        rcases List.mem_cons.mp member with rfl | later
        · exact first
        · exact List.lt_trans first (head x later)
      · rename_i not_before
        have behind : Utf8.encode u < Utf8.encode t :=
          encode_lt_of_not_lt differ (by simpa [lt] using not_before)
        refine List.pairwise_cons.mpr ⟨fun x member => ?_, ih tail⟩
        rcases mem_insert.mp member with rfl | later
        · exact behind
        · exact head x later

theorem Ascending.nodup {texts : List String} (sorted : Ascending texts) : texts.Nodup := by
  refine List.Pairwise.imp (fun {a b} before => ?_) sorted
  rintro rfl
  exact List.lt_irrefl _ before

/-- An ascending list is given by its members. -/
theorem Ascending.eq_of_mem_iff {xs ys : List String} (first : Ascending xs)
    (second : Ascending ys) (same : ∀ t, t ∈ xs ↔ t ∈ ys) : xs = ys := by
  have perm : xs.Perm ys := (List.perm_ext_iff_of_nodup first.nodup second.nodup).mpr same
  refine perm.eq_of_pairwise (fun a b _ _ before after => ?_) first second
  exact absurd (List.lt_trans before after) (List.lt_irrefl _)

theorem eq_of_le_of_le {a b : String} (before : le a b = true) (after : le b a = true) : a = b := by
  simp only [le, decide_eq_true_eq] at before after
  exact Utf8.encode_injective (Std.le_antisymm before after)

theorem pairwise_sort (texts : List String) : (sort texts).Pairwise fun a b => le a b = true := by
  apply List.pairwise_mergeSort
  · intro a b c first second
    simp only [le, decide_eq_true_eq] at first second ⊢
    exact List.le_trans first second
  · intro a b
    simp only [le, Bool.or_eq_true, decide_eq_true_eq]
    exact Std.le_total

/-- The order in which texts are given does not show in the sorted list. -/
theorem sort_perm {xs ys : List String} (perm : xs.Perm ys) : sort xs = sort ys := by
  have same : (sort xs).Perm (sort ys) :=
    (List.mergeSort_perm xs le).trans (perm.trans (List.mergeSort_perm ys le).symm)
  exact same.eq_of_pairwise (fun a b _ _ => eq_of_le_of_le) (pairwise_sort xs) (pairwise_sort ys)

end HotReload.ByteOrder
