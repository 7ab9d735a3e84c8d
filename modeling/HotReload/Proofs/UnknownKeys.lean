import HotReload.Config.Loading
import HotReload.Config.Undeclared
import HotReload.Proofs.DistinctKeys

namespace HotReload.Config

open Toml (Node Entries)

/-- Two readings with the same outcome, of which the one reports these keys and the other
none. -/
def Sheds {α : Type} (full bare : Reading α) (names : List (List String)) : Prop :=
  ∃ outcome : Option α, full = outcome.map (·, names.map ".".intercalate) ∧
    bare = outcome.map (·, [])

section Readings

variable {α β γ : Type} {full bare : Reading α} {names : List (List String)}

theorem Sheds.map (f : α → β) (sheds : Sheds full bare names) :
    Sheds (full.map fun r => (f r.1, r.2)) (bare.map fun r => (f r.1, r.2)) names := by
  obtain ⟨outcome, rfl, rfl⟩ := sheds
  exact ⟨outcome.map f, by cases outcome <;> rfl, by cases outcome <;> rfl⟩

theorem Sheds.finish (f : α → Option β) (sheds : Sheds full bare names) :
    Sheds (full.bind fun r => (f r.1).map fun b => (b, r.2))
      (bare.bind fun r => (f r.1).map fun b => (b, r.2)) names := by
  obtain ⟨outcome, rfl, rfl⟩ := sheds
  exact ⟨outcome.bind f, by cases outcome <;> rfl, by cases outcome <;> rfl⟩

theorem Sheds.report {key : List String} (sheds : Sheds full bare names) :
    Sheds (full.map fun r => (r.1, ".".intercalate key :: r.2)) bare (key :: names) := by
  obtain ⟨outcome, rfl, rfl⟩ := sheds
  exact ⟨outcome, by cases outcome <;> rfl, rfl⟩

theorem Sheds.andThen {next left : α → Reading β} {more : List (List String)} (f : α → β → γ)
    (sheds : Sheds full bare names) (rest : ∀ a, Sheds (next a) (left a) more) :
    Sheds (full.bind fun r => (next r.1).map fun t => (f r.1 t.1, r.2 ++ t.2))
      (bare.bind fun r => (left r.1).map fun t => (f r.1 t.1, r.2 ++ t.2)) (names ++ more) := by
  obtain ⟨outcome, rfl, rfl⟩ := sheds
  cases outcome with
  | none => exact ⟨none, rfl, rfl⟩
  | some a =>
    obtain ⟨after, with_keys, without⟩ := rest a
    refine ⟨after.map (f a), ?_, ?_⟩
    · cases after <;> simp [with_keys]
    · cases after <;> simp [without]

theorem Sheds.full_eq_some_iff (sheds : Sheds full bare names) {a : α} {reported : List String} :
    full = some (a, reported) ↔
      bare = some (a, []) ∧ reported = names.map ".".intercalate := by
  obtain ⟨outcome, rfl, rfl⟩ := sheds
  cases outcome with
  | none =>
    constructor
    · intro given
      cases given
    · rintro ⟨given, -⟩
      cases given
  | some b =>
    constructor
    · intro given
      cases given
      exact ⟨rfl, rfl⟩
    · rintro ⟨given, rfl⟩
      cases given
      rfl

theorem Sheds.map_fst (sheds : Sheds full bare names) :
    full.map Prod.fst = bare.map Prod.fst := by
  obtain ⟨outcome, rfl, rfl⟩ := sheds
  rw [Option.map_map, Option.map_map]
  rfl

theorem Sheds.silent (sheds : Sheds full bare names) {a : α} {reported : List String}
    (given : bare = some (a, reported)) : reported = [] := by
  obtain ⟨outcome, rfl, rfl⟩ := sheds
  obtain ⟨b, -, same⟩ := Option.map_eq_some_iff.mp given
  cases same
  rfl

end Readings

section Tables

variable {α δ : Type} {fields : List (Field δ)} {path : List String}
  {below : String → Node → List (List String)} {left : String → Node → Node}
  {k : String} {v : Node} {es : Entries} {draft : δ}

theorem exists_find_of_mem (known : k ∈ fields.map (·.name)) :
    ∃ f ∈ fields, f.name = k ∧ fields.find? (·.name == k) = some f := by
  obtain ⟨g, listed, same⟩ := List.mem_map.mp known
  cases found : fields.find? (·.name == k) with
  | none =>
    cases List.find?_eq_none.mp found g listed (beq_iff_eq.mpr same)
  | some f =>
    have named := List.find?_some found
    exact ⟨f, List.mem_of_find?_eq_some found, beq_iff_eq.mp named, rfl⟩

theorem find_eq_none_of_not_mem (unknown : k ∉ fields.map (·.name)) :
    fields.find? (·.name == k) = none := by
  rw [List.find?_eq_none]
  intro f listed same
  exact unknown (List.mem_map.mpr ⟨f, listed, beq_iff_eq.mp same⟩)

theorem readEntries_known {f : Field δ} (found : fields.find? (·.name == k) = some f) :
    Section.readEntries fields path ((k, v) :: es) draft =
      (f.read (path ++ [k]) v draft).bind fun r =>
        (Section.readEntries fields path es r.1).map fun t => (t.1, r.2 ++ t.2) := by
  simp only [Section.readEntries, found]
  cases f.read (path ++ [k]) v draft <;> rfl

theorem readEntries_unknown (found : fields.find? (·.name == k) = none) :
    Section.readEntries fields path ((k, v) :: es) draft =
      (Section.readEntries fields path es draft).map fun r =>
        (r.1, ".".intercalate (path ++ [k]) :: r.2) := by
  simp only [Section.readEntries, found]

/-- Without its undeclared keys a table is read as with them, if this holds of what is below
each declared key. -/
theorem readEntries_sheds {declared : List String} (declares : fields.map (·.name) = declared)
    (sheds : ∀ k v, (k, v) ∈ es → ∀ f ∈ fields, f.name = k → ∀ draft,
      Sheds (f.read (path ++ [k]) v draft) (f.read (path ++ [k]) (left k v) draft) (below k v))
    (draft : δ) :
    Sheds (Section.readEntries fields path es draft)
      (Section.readEntries fields path (declaredEntries declared left es) draft)
      (undeclaredKeys declared below path es) := by
  -- both readings go through the same drafts, since a skipped key leaves the draft alone
  induction es generalizing draft with
  | nil => exact ⟨some draft, rfl, rfl⟩
  | cons e es ih =>
    obtain ⟨k, v⟩ := e
    have rest := ih fun l w listed => sheds l w (List.mem_cons_of_mem _ listed)
    by_cases known : k ∈ declared
    · obtain ⟨f, listed, same, found⟩ := exists_find_of_mem (declares ▸ known)
      rw [undeclaredKeys_of_mem known, declaredEntries_of_mem known,
        readEntries_known found, readEntries_known found]
      exact (sheds k v List.mem_cons_self f listed same draft).andThen (fun _ d => d) rest
    · have found := find_eq_none_of_not_mem (declares ▸ known)
      rw [undeclaredKeys_of_not_mem known, declaredEntries_of_not_mem known,
        readEntries_unknown found]
      exact (rest draft).report

/-- A key with a plain value, below which nothing is skipped. -/
def Field.Plain (f : Field δ) : Prop :=
  ∀ path v draft, Sheds (f.read path v draft) (f.read path v draft) []

theorem plain_plain (name : String) (value? : Node → Option α) (put : δ → α → δ) :
    (plain name value? put).Plain := by
  intro path v draft
  have silent : (plain name value? put).read path v draft =
      ((value? v).map (put draft)).map (·, []) := by
    rw [Option.map_map]
    rfl
  exact ⟨_, silent, silent⟩

theorem eq_table_of_isTable (table : isTable v = true) :
    ∃ origin es, v = .table origin es := by
  cases v with
  | table origin es => exact ⟨origin, es, rfl⟩
  | _ => cases table

theorem read_table_sheds {sec : Section δ α} {declared : List String}
    (declares : sec.fields.map (·.name) = declared) (plain : ∀ f ∈ sec.fields, f.Plain)
    (table : isTable v = true) :
    Sheds (sec.read path v) (sec.read path (declaredTable declared v))
      (undeclaredInTable declared path v) := by
  obtain ⟨origin, es, rfl⟩ := eq_table_of_isTable table
  have entries : Sheds (Section.readEntries sec.fields path es sec.blank)
      (Section.readEntries sec.fields path (declaredEntries declared (fun _ v => v) es) sec.blank)
      (undeclaredKeys declared (fun _ _ => []) path es) := by
    refine readEntries_sheds declares ?_ sec.blank
    intro k v _ f listed _ draft
    exact plain f listed (path ++ [k]) v draft
  exact entries.finish sec.finish

end Tables

section Lists

variable {α : Type} {item : List String → Node → Reading α} {path : List String}
  {strip : Node → Node} {inside : List String → Node → List (List String)}

theorem readEach_cons {i : Nat} {v : Node} {vs : List Node} :
    readEach item path i (v :: vs) = (item (path ++ [toString i]) v).bind fun r =>
      (readEach item path (i + 1) vs).map fun t => (r.1 :: t.1, r.2 ++ t.2) := by
  rw [readEach]
  cases item (path ++ [toString i]) v <;> rfl

theorem readEach_sheds {vs : List Node}
    (sheds : ∀ v ∈ vs, ∀ path, Sheds (item path v) (item path (strip v)) (inside path v))
    (i : Nat) :
    Sheds (readEach item path i vs) (readEach item path i (vs.map strip))
      ((vs.zipIdx i).flatMap fun t => inside (path ++ [toString t.2]) t.1) := by
  induction vs generalizing i with
  | nil => exact ⟨some [], rfl, rfl⟩
  | cons v vs ih =>
    have rest := ih (fun w listed => sheds w (List.mem_cons_of_mem _ listed)) (i + 1)
    rw [List.map_cons, readEach_cons, readEach_cons, List.zipIdx_cons, List.flatMap_cons]
    exact (sheds v List.mem_cons_self (path ++ [toString i])).andThen List.cons fun _ => rest

end Lists

theorem devServer_sheds {v : Node} (table : isTable v = true)
    (path : List String) :
    Sheds (devServer.read path v) (devServer.read path (declaredTable serverKeys v))
      (undeclaredInTable serverKeys path v) := by
  refine read_table_sheds rfl ?_ table
  intro f listed
  obtain rfl := List.mem_singleton.mp listed
  exact plain_plain _ _ _

theorem outputTarget_sheds {v : Node} (table : isTable v = true)
    (path : List String) :
    Sheds (outputTarget.read path v) (outputTarget.read path (declaredTable targetKeys v))
      (undeclaredInTable targetKeys path v) := by
  refine read_table_sheds rfl ?_ table
  intro f listed
  simp only [outputTarget, List.mem_cons, List.not_mem_nil, or_false] at listed
  rcases listed with rfl | rfl
  · exact plain_plain _ _ _
  · exact plain_plain _ _ _

theorem targets_sheds {v : Node} (path : List String)
    (areTables : ∀ t ∈ elements v, isTable t = true) :
    Sheds (readList outputTarget.read path v) (readList outputTarget.read path (declaredElements v))
      ((elements v).zipIdx.flatMap fun t =>
        undeclaredInTable targetKeys (path ++ [toString t.2]) t.1) := by
  have each : ∀ vs : List Node, (∀ t ∈ vs, isTable t = true) →
      Sheds (readEach outputTarget.read path 0 vs)
        (readEach outputTarget.read path 0 (vs.map (declaredTable targetKeys)))
        (vs.zipIdx.flatMap fun t =>
          undeclaredInTable targetKeys (path ++ [toString t.2]) t.1) := fun vs tables =>
    readEach_sheds (fun t listed path => outputTarget_sheds (tables t listed) path) 0
  cases v with
  | array vs => exact each vs areTables
  | tables els =>
    have headers : (els.map (Node.table .header)).map (declaredTable targetKeys) =
        (els.map (declaredEntries targetKeys fun _ v => v)).map (.table .header) := by
      rw [List.map_map, List.map_map]
      rfl
    have := each (els.map (.table .header)) areTables
    rw [headers] at this
    exact this
  | _ => exact ⟨none, rfl, rfl⟩

theorem ofTree_sheds {es : Entries} (written : TablesWritten es) :
    Sheds (ofTree es) (ofTree (declaredOnly es)) (undeclared es) := by
  have entries : Sheds (Section.readEntries project.fields [] es project.blank)
      (Section.readEntries project.fields [] (declaredOnly es) project.blank)
      (undeclared es) := by
    refine readEntries_sheds rfl ?_ project.blank
    intro k v listed f field named draft
    simp only [project, List.mem_cons, List.not_mem_nil, or_false] at field
    rcases field with rfl | rfl | rfl | rfl
    · cases named
      exact plain_plain _ _ _ _ _ _
    · cases named
      exact plain_plain _ _ _ _ _ _
    · cases named
      exact (targets_sheds ["output_targets"] ((written _ listed).2 rfl)).map fun targets =>
        { draft with targets := targets }
    · cases named
      exact (devServer_sheds ((written _ listed).1 rfl) ["dev_server", "?"]).map fun server =>
        { draft with devServer := some server }
  exact entries.finish project.finish

section Members

variable {es : Entries} {declared path p : List String} {k : String} {v : Node}
  {below : String → Node → List (List String)}

theorem mem_undeclaredKeys : p ∈ undeclaredKeys declared below path es ↔
    ∃ k v, (k, v) ∈ es ∧
      (k ∈ declared ∧ p ∈ below k v ∨ k ∉ declared ∧ p = path ++ [k]) := by
  rw [undeclaredKeys, List.mem_flatMap]
  constructor
  · rintro ⟨⟨k, v⟩, here, inside⟩
    refine ⟨k, v, here, ?_⟩
    split at inside
    · rename_i known
      exact .inl ⟨known, inside⟩
    · rename_i unknown
      exact .inr ⟨unknown, List.mem_singleton.mp inside⟩
  · rintro ⟨k, v, here, ⟨known, inside⟩ | ⟨unknown, rfl⟩⟩
    · refine ⟨(k, v), here, ?_⟩
      rwa [if_pos known]
    · refine ⟨(k, v), here, ?_⟩
      rw [if_neg unknown]
      exact List.mem_singleton_self _

theorem mem_undeclaredInTable : p ∈ undeclaredInTable declared path v ↔
    ∃ origin inner k w, v = .table origin inner ∧ (k, w) ∈ inner ∧ k ∉ declared ∧
      p = path ++ [k] := by
  cases v with
  | table origin inner =>
    rw [undeclaredInTable, mem_undeclaredKeys]
    constructor
    · rintro ⟨k, w, here, ⟨-, none⟩ | ⟨unknown, rfl⟩⟩
      · cases none
      · exact ⟨origin, inner, k, w, rfl, here, unknown, rfl⟩
    · rintro ⟨_, _, k, w, same, here, unknown, rfl⟩
      cases same
      exact ⟨k, w, here, .inr ⟨unknown, rfl⟩⟩
  | _ =>
    constructor
    · intro none
      cases none
    · rintro ⟨_, _, _, _, same, -⟩
      cases same

/-- The paths listed are those of the outermost undeclared keys. -/
theorem mem_undeclared : p ∈ undeclared es ↔ IsUndeclared es p := by
  rw [undeclared, mem_undeclaredKeys]
  constructor
  · rintro ⟨k, v, here, ⟨-, inside⟩ | ⟨unknown, rfl⟩⟩
    · unfold undeclaredBelow at inside
      split at inside
      · rename_i named
        subst named
        obtain ⟨origin, inner, l, w, rfl, there, unknown, rfl⟩ := mem_undeclaredInTable.mp inside
        exact .server here there unknown
      · split at inside
        · rename_i named
          subst named
          obtain ⟨t, listed, inside⟩ := List.mem_flatMap.mp inside
          obtain ⟨origin, inner, l, w, isTable, there, unknown, rfl⟩ :=
            mem_undeclaredInTable.mp inside
          have place := List.mk_mem_zipIdx_iff_getElem?.mp listed
          exact .target here (isTable ▸ place) there unknown
        · cases inside
    · exact .top here unknown
  · intro named
    cases named with
    | top here unknown => exact ⟨_, _, here, .inr ⟨unknown, rfl⟩⟩
    | @server origin inner k v here there unknown =>
      refine ⟨_, _, here, .inl ⟨by decide, ?_⟩⟩
      exact mem_undeclaredInTable.mpr ⟨origin, inner, k, v, rfl, there, unknown, rfl⟩
    | @target list i origin inner k v here place there unknown =>
      refine ⟨_, _, here, .inl ⟨by decide, ?_⟩⟩
      refine List.mem_flatMap.mpr ⟨_, List.mk_mem_zipIdx_iff_getElem?.mpr place, ?_⟩
      exact mem_undeclaredInTable.mpr ⟨origin, inner, k, v, rfl, there, unknown, rfl⟩

end Members

section EachOnce

variable {ι : Type} {path : List String} {es : Entries} {k : String} {v : Node}
  {declared : List String} {below : String → Node → List (List String)}

theorem toString_injective : Function.Injective (toString : Nat → String) := by
  intro a b same
  have number (i : Nat) : Nat.ofDigitChars 10 (toString i).toList 0 = i := by
    rw [Nat.toString_eq_repr, Nat.toList_repr, Nat.ofDigitChars_ten_toDigits]
  rw [← number a, same, number b]

theorem nodup_flatMap_of_prefix (path : List String) {l : List ι} {key : ι → String}
    {pieces : ι → List (List String)} (distinct : (l.map key).Nodup)
    (lead : ∀ a ∈ l, ∀ p ∈ pieces a, path ++ [key a] <+: p)
    (each : ∀ a ∈ l, (pieces a).Nodup) : (l.flatMap pieces).Nodup := by
  rw [List.nodup_flatMap]
  refine ⟨each, ?_⟩
  refine (List.pairwise_map.mp distinct).imp_of_mem ?_
  intro a b a_listed b_listed differ p inside other
  have whole := List.prefix_of_prefix_length_le (lead a a_listed p inside)
    (lead b b_listed p other) (by simp)
  have same := whole.eq_of_length (by simp)
  exact differ (List.singleton_inj.mp (List.append_cancel_left same))

theorem nodup_undeclaredKeys (distinct : es.Distinct)
    (lead : ∀ k v, ∀ q ∈ below k v, path ++ [k] <+: q)
    (each : ∀ k v, v.Distinct → (below k v).Nodup) :
    (undeclaredKeys declared below path es).Nodup := by
  refine nodup_flatMap_of_prefix path distinct.keys ?_ ?_
  · intro e _ p inside
    split at inside
    · exact lead e.1 e.2 p inside
    · obtain rfl := List.mem_singleton.mp inside
      exact List.prefix_refl _
  · intro e here
    split
    · exact each e.1 e.2 (distinct.values e here)
    · exact List.nodup_singleton _

theorem prefix_of_mem_undeclaredInTable {p : List String}
    (listed : p ∈ undeclaredInTable declared path v) : path <+: p := by
  obtain ⟨_, _, l, _, -, -, -, rfl⟩ := mem_undeclaredInTable.mp listed
  exact List.prefix_append path [l]

theorem nodup_undeclaredInTable (distinct : v.Distinct) :
    (undeclaredInTable declared path v).Nodup := by
  cases v with
  | table origin es =>
    exact nodup_undeclaredKeys (Toml.distinct_table_iff.mp distinct)
      (fun _ _ _ none => (List.not_mem_nil none).elim) fun _ _ _ => List.nodup_nil
  | _ => exact List.nodup_nil

theorem distinct_elements (distinct : v.Distinct) : ∀ t ∈ elements v, t.Distinct := by
  cases distinct with
  | array each => exact each
  | tables keys values =>
    intro t listed
    obtain ⟨es, here, rfl⟩ := List.mem_map.mp listed
    exact .table (keys es here) (values es here)
  | _ =>
    intro t listed
    cases listed

theorem prefix_of_mem_undeclaredBelow {p : List String} (listed : p ∈ undeclaredBelow k v) :
    [k] <+: p := by
  unfold undeclaredBelow at listed
  split at listed
  · exact (List.prefix_append [k] ["?"]).trans (prefix_of_mem_undeclaredInTable listed)
  · split at listed
    · obtain ⟨t, -, inside⟩ := List.mem_flatMap.mp listed
      exact (List.prefix_append [k] [toString t.2]).trans (prefix_of_mem_undeclaredInTable inside)
    · cases listed

theorem nodup_undeclaredBelow (distinct : v.Distinct) : (undeclaredBelow k v).Nodup := by
  unfold undeclaredBelow
  split
  · exact nodup_undeclaredInTable distinct
  · split
    · have positions : ((elements v).zipIdx.map fun t => toString t.2).Nodup := by
        have numbers : ((elements v).zipIdx.map Prod.snd).Nodup := by
          rw [List.zipIdx_map_snd]
          exact List.nodup_range'
        have spelled := numbers.map toString_injective
        rwa [List.map_map] at spelled
      refine nodup_flatMap_of_prefix [k] positions ?_ ?_
      · intro t _ p inside
        exact prefix_of_mem_undeclaredInTable inside
      · intro t listed
        have here := List.mem_of_getElem? (List.mk_mem_zipIdx_iff_getElem?.mp listed)
        exact nodup_undeclaredInTable (distinct_elements distinct t.1 here)
    · exact List.nodup_nil

theorem nodup_undeclared (distinct : es.Distinct) : (undeclared es).Nodup :=
  nodup_undeclaredKeys distinct (fun _ _ _ => prefix_of_mem_undeclaredBelow)
    fun _ _ => nodup_undeclaredBelow

end EachOnce

/-- Undeclared keys are reported once each and change nothing: the document is read as without
them, and what stands below them does not matter. -/
theorem undeclared_keys_inert {text : String} {es : Entries}
    (parsed : Toml.parse? text = some es) (written : TablesWritten es) :
    (∀ config ignored, ofText? text = some (config, ignored) ↔
      ofTree (declaredOnly es) = some (config, []) ∧
        ignored = (undeclared es).map ".".intercalate) ∧
    (∀ config ignored, ofTree (declaredOnly es) = some (config, ignored) → ignored = []) ∧
    (∀ p, p ∈ undeclared es ↔ IsUndeclared es p) ∧ (undeclared es).Nodup ∧
    ∀ other, TablesWritten other → declaredOnly other = declaredOnly es →
      (ofTree other).map Prod.fst = (ofText? text).map Prod.fst := by
  have tree : ofText? text = ofTree es := by
    rw [ofText?, parsed]
    rfl
  have sheds := ofTree_sheds written
  refine ⟨?_, ?_, fun p => mem_undeclared, nodup_undeclared (Toml.distinct_of_parse? parsed), ?_⟩
  · intro config ignored
    rw [tree]
    exact sheds.full_eq_some_iff
  · intro config ignored given
    exact sheds.silent given
  · intro other other_written same
    rw [tree, sheds.map_fst, (ofTree_sheds other_written).map_fst, same]

def strayText : String :=
  "a = \x7b dev_server = 1 \x7d\n[dev_server]\nb = 1\n" ++
    "[[output_targets]]\ntype = 'www'\ndir = 'd'\nnamespace = 5\n"

def strayTree : Entries := (Toml.parse? strayText).getD []

theorem strayText_read : ofText? strayText =
    some ({ ProjectConfig.default with
      devServer := some ⟨true⟩, targets := [⟨.www, .ofString "d"⟩] },
      ["a", "dev_server.?.b", "output_targets.0.namespace"]) := by
  have is_some : (Toml.parse? strayText).isSome = true := by decide +kernel
  have parsed : Toml.parse? strayText = some strayTree := by
    obtain ⟨es, given⟩ := Option.isSome_iff_exists.mp is_some
    rw [strayTree, given, Option.getD_some]
  have written : TablesWritten strayTree := by decide +kernel
  have spec := (undeclared_keys_inert parsed written).1
  exact (spec _ _).mpr (by decide +kernel)

end HotReload.Config
