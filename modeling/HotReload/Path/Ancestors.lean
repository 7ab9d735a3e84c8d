import HotReload.Path.Basic

namespace HotReload.Path

theorem segments_ne_nil (bs : List UInt8) : segments bs ≠ [] := by
  cases bs with
  | nil => simp [segments]
  | cons b r =>
    unfold segments
    split
    · simp
    · split <;> simp

theorem joinSegments_cons (s : List UInt8) {ss : List (List UInt8)} (more : ss ≠ []) :
    joinSegments (s :: ss) = s ++ slash :: joinSegments ss := by
  cases ss with
  | nil => exact absurd rfl more
  | cons t r => rfl

theorem joinSegments_segments (bs : List UInt8) : joinSegments (segments bs) = bs := by
  induction bs with
  | nil => rfl
  | cons b r ih =>
    unfold segments
    split
    · rename_i is_slash
      rw [joinSegments_cons _ (segments_ne_nil r), ih, is_slash]
      rfl
    · cases h : segments r with
      | nil => exact absurd h (segments_ne_nil r)
      | cons s ss =>
        rw [h] at ih
        cases ss with
        | nil => simpa [joinSegments] using ih
        | cons t ts => simpa [joinSegments] using ih

theorem lead_append_joinSegments (p : Path) :
    p.split.1.bytes ++ joinSegments p.split.2 = p.bytes := by
  obtain ⟨bs⟩ := p
  cases bs with
  | nil => rfl
  | cons b r =>
    unfold split
    dsimp only
    split
    · rename_i is_slash
      simp [Lead.bytes, joinSegments_segments, is_slash]
    · split
      · rename_i is_dot
        simp [Lead.bytes, joinSegments_segments, is_dot.1]
      · simp only [Lead.bytes, List.nil_append, joinSegments_segments]

theorem joinSegments_concat (ss : List (List UInt8)) (s : List UInt8) :
    joinSegments (ss ++ [s]) = if ss = [] then s else joinSegments ss ++ slash :: s := by
  induction ss with
  | nil => rfl
  | cons t ts ih =>
    cases ts with
    | nil => rfl
    | cons u us =>
      rw [List.cons_append, joinSegments_cons _ (by simp), ih]
      simp [joinSegments_cons]

theorem length_joinSegments_append (xs ys : List (List UInt8)) :
    (joinSegments xs).length ≤ (joinSegments (xs ++ ys)).length := by
  induction ys generalizing xs with
  | nil => simp
  | cons y ys ih =>
    have longer := ih (xs ++ [y])
    rw [List.append_assoc, List.singleton_append] at longer
    refine Nat.le_trans ?_ longer
    rw [joinSegments_concat]
    split
    · rename_i none
      simp [none, joinSegments]
    · simp only [List.length_append, List.length_cons]
      omega

theorem length_joinSegments_of_concat (ss : List (List UInt8)) {s : List UInt8}
    (filled : s ≠ []) : (joinSegments ss).length < (joinSegments (ss ++ [s])).length := by
  have := List.length_pos_iff.mpr filled
  rw [joinSegments_concat]
  split
  · rename_i none
    simpa [none, joinSegments] using this
  · simp only [List.length_append, List.length_cons]
    omega

theorem dropTrivialEnd_append (ss : List (List UInt8)) :
    ∃ tail, dropTrivialEnd ss ++ tail = ss ∧ ∀ s ∈ tail, segmentComponent? s = none := by
  refine ⟨(ss.reverse.takeWhile fun s => (segmentComponent? s).isNone).reverse, ?_, ?_⟩
  · rw [dropTrivialEnd, ← List.reverse_append, List.takeWhile_append_dropWhile,
      List.reverse_reverse]
  · intro s member
    have := List.all_eq_true.mp List.all_takeWhile s (List.mem_reverse.mp member)
    simpa using this

theorem segmentComponent?_of_dropTrivialEnd {ss kept : List (List UInt8)} {s : List UInt8}
    (h : dropTrivialEnd ss = kept ++ [s]) : (segmentComponent? s).isSome := by
  unfold dropTrivialEnd at h
  have front := congrArg List.reverse h
  rw [List.reverse_reverse, List.reverse_append, List.reverse_singleton,
    List.singleton_append] at front
  have := List.head?_dropWhile_not (fun s => (segmentComponent? s).isNone) ss.reverse
  rw [front] at this
  simpa using this

theorem length_parent_lt {p q : Path} (h : p.parent = some q) :
    q.bytes.length < p.bytes.length := by
  have text := lead_append_joinSegments p
  obtain ⟨tail, kept_tail, -⟩ := dropTrivialEnd_append p.split.2
  have kept_le := length_joinSegments_append (dropTrivialEnd p.split.2) tail
  rw [kept_tail] at kept_le
  have total : p.bytes.length =
      p.split.1.bytes.length + (joinSegments p.split.2).length := by
    rw [← text, List.length_append]
  unfold parent at h
  split at h
  · cases h
  · cases h
  · rename_i is_current _
    cases h
    rw [is_current] at total
    simp only [Lead.bytes, List.length_singleton] at total
    simp only [List.length_nil]
    omega
  · rename_i lead ss _ _ no_body
    cases h
    obtain ⟨tail', front, -⟩ :=
      dropTrivialEnd_append (dropTrivialEnd p.split.2).dropLast
    have front_le := length_joinSegments_append
      (dropTrivialEnd (dropTrivialEnd p.split.2).dropLast) tail'
    rw [front] at front_le
    have filled : dropTrivialEnd p.split.2 ≠ [] := by
      intro empty
      cases lead_is : p.split.1 <;> simp_all
    have last := List.dropLast_concat_getLast filled
    have component := segmentComponent?_of_dropTrivialEnd last.symm
    have shrinks := length_joinSegments_of_concat (dropTrivialEnd p.split.2).dropLast
      (s := (dropTrivialEnd p.split.2).getLast filled)
      (by intro empty; simp [empty, segmentComponent?] at component)
    rw [last] at shrinks
    simp only [List.length_append]
    omega

def ancestors (p : Path) : List Path :=
  p :: match h : p.parent with
    | none => []
    | some q =>
      have := length_parent_lt h
      ancestors q
termination_by p.bytes.length

def above (p : Path) : Nat → Option Path
  | 0 => some p
  | k + 1 => p.parent.bind (above · k)

/-- How many paths there are from this one upwards: a relative path ends at the empty one. -/
def height (p : Path) : Nat := p.components.length + if p.isAbsolute then 0 else 1

end HotReload.Path
