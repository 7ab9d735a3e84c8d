import HotReload.Toml.Reader
import Mathlib.Data.List.Nodup
import Mathlib.Data.Nat.Init

namespace HotReload.Toml

inductive Node.Distinct : Node → Prop where
  | string (s : String) : Distinct (.string s)
  | integer (value : Int) : Distinct (.integer value)
  | float (literal : String) : Distinct (.float literal)
  | boolean (b : Bool) : Distinct (.boolean b)
  | datetime (literal : String) : Distinct (.datetime literal)
  | array {items : List Node} : (∀ v ∈ items, Distinct v) → Distinct (.array items)
  | table {origin : Origin} {es : Entries} : (es.map Prod.fst).Nodup →
      (∀ e ∈ es, Distinct e.2) → Distinct (.table origin es)
  | tables {els : List Entries} : (∀ es ∈ els, (es.map Prod.fst).Nodup) →
      (∀ es ∈ els, ∀ e ∈ es, Distinct e.2) → Distinct (.tables els)

structure Entries.Distinct (es : Entries) : Prop where
  keys : (es.map Prod.fst).Nodup
  values : ∀ e ∈ es, e.2.Distinct

variable {es inner : Entries} {k : String} {v : Node} {origin : Origin}

theorem distinct_table_iff : (Node.table origin es).Distinct ↔ es.Distinct := by
  constructor
  · rintro (_ | _ | _ | _ | _ | _ | ⟨keys, values⟩)
    exact ⟨keys, values⟩
  · rintro ⟨keys, values⟩
    exact .table keys values

theorem distinct_tables_iff {els : List Entries} :
    (Node.tables els).Distinct ↔ ∀ es ∈ els, es.Distinct := by
  constructor
  · intro distinct es listed
    cases distinct with
    | tables keys values => exact ⟨keys es listed, values es listed⟩
  · intro each
    exact .tables (fun es listed => (each es listed).keys) fun es listed => (each es listed).values

namespace Entries

theorem Distinct.nil : Distinct [] := ⟨List.nodup_nil, fun _ listed => by cases listed⟩

theorem not_mem_keys_of_get? (fresh : es.get? k = none) : k ∉ es.map Prod.fst := by
  intro listed
  obtain ⟨e, here, rfl⟩ := List.mem_map.mp listed
  rw [get?, Option.map_eq_none_iff, List.find?_eq_none] at fresh
  exact fresh e here (beq_self_eq_true e.1)

theorem mem_of_get? (found : es.get? k = some v) : (k, v) ∈ es := by
  obtain ⟨e, here, rfl⟩ := Option.map_eq_some_iff.mp found
  have named := List.find?_some here
  exact beq_iff_eq.mp named ▸ List.mem_of_find?_eq_some here

theorem Distinct.get? (distinct : es.Distinct) (found : es.get? k = some v) : v.Distinct :=
  distinct.values _ (mem_of_get? found)

theorem Distinct.append (distinct : es.Distinct) (fresh : es.get? k = none)
    (value : v.Distinct) : Distinct (es ++ [(k, v)]) where
  keys := by
    rw [List.map_append]
    refine List.Nodup.append distinct.keys (List.nodup_singleton k) ?_
    intro l here last
    obtain rfl := List.mem_singleton.mp last
    exact not_mem_keys_of_get? fresh here
  values := by
    intro e listed
    rcases List.mem_append.mp listed with before | last
    · exact distinct.values e before
    · obtain rfl := List.mem_singleton.mp last
      exact value

theorem keys_set : (es.set k v).map Prod.fst = es.map Prod.fst := by
  rw [set, List.map_map]
  refine List.map_congr_left fun e _ => ?_
  by_cases same : e.1 = k
  · simp [same]
  · simp [same]

theorem Distinct.set (distinct : es.Distinct) (value : v.Distinct) : (es.set k v).Distinct where
  keys := by
    rw [keys_set]
    exact distinct.keys
  values := by
    intro e listed
    obtain ⟨old, here, rfl⟩ := List.mem_map.mp listed
    split
    · exact value
    · exact distinct.values old here

theorem Distinct.erase (distinct : es.Distinct) : (es.erase k).Distinct where
  keys := (List.filter_sublist.map Prod.fst).nodup distinct.keys
  values := fun e listed => distinct.values e (List.mem_of_mem_filter listed)

theorem Distinct.modify {α : Type} (good : α → Prop) {byDottedKey : Bool}
    {change : Origin → Entries → Option (Entries × α)}
    (keeps : ∀ origin es r, es.Distinct → change origin es = some r → r.1.Distinct ∧ good r.2)
    {path : List String} {r : Entries × α} (distinct : es.Distinct)
    (changed : modify byDottedKey change path origin es = some r) :
    r.1.Distinct ∧ good r.2 := by
  induction path generalizing origin es r with
  | nil => exact keeps origin es r distinct changed
  | cons k path ih =>
    rw [Entries.modify] at changed
    split at changed
    · rename_i fresh
      obtain ⟨below, done, rfl⟩ := Option.map_eq_some_iff.mp changed
      obtain ⟨inside, fine⟩ := ih Distinct.nil done
      exact ⟨distinct.append fresh (distinct_table_iff.mpr inside), fine⟩
    · rename_i found
      obtain ⟨-, entered⟩ := Option.ite_none_right_eq_some.mp changed
      obtain ⟨below, done, rfl⟩ := Option.map_eq_some_iff.mp entered
      obtain ⟨inside, fine⟩ := ih (distinct_table_iff.mp (distinct.get? found)) done
      exact ⟨distinct.set (distinct_table_iff.mpr inside), fine⟩
    · rename_i elements found
      split at changed
      · cases changed
      · rename_i last ends
        have each := distinct_tables_iff.mp (distinct.get? found)
        obtain ⟨below, done, rfl⟩ := Option.map_eq_some_iff.mp changed
        obtain ⟨inside, fine⟩ := ih (each last (List.mem_of_getLast? ends)) done
        refine ⟨distinct.set (distinct_tables_iff.mpr fun es listed => ?_), fine⟩
        rcases List.mem_append.mp listed with before | new
        · exact each es ((List.dropLast_sublist _).subset before)
        · obtain rfl := List.mem_singleton.mp new
          exact inside
    · cases changed

theorem Distinct.define {path : List String} {after : Entries} (distinct : es.Distinct)
    (value : v.Distinct) (defined : define origin es path k v = some after) :
    after.Distinct := by
  obtain ⟨r, done, rfl⟩ := Option.map_eq_some_iff.mp defined
  refine (distinct.modify (fun _ => True) ?_ done).1
  intro origin es r distinct changed
  obtain ⟨free, added⟩ := Option.ite_none_left_eq_some.mp changed
  cases added
  have fresh : es.get? k = none := by
    rw [← Option.not_isSome_iff_eq_none]
    intro there
    exact free (by rw [there, Bool.or_true])
  exact ⟨distinct.append fresh value, trivial⟩

theorem Distinct.ofPairs {pairs : List (List String × Node)} {after : Entries}
    (values : ∀ p ∈ pairs, p.2.Distinct) (made : ofPairs pairs = some after) :
    after.Distinct := by
  unfold Entries.ofPairs at made
  have start : Distinct [] := .nil
  generalize ([] : Entries) = es at made start
  induction pairs generalizing es with
  | nil =>
    cases made
    exact start
  | cons p pairs ih =>
    rw [List.foldlM_cons] at made
    obtain ⟨next, step, rest⟩ := Option.bind_eq_some_iff.mp made
    obtain ⟨value, others⟩ := List.forall_mem_cons.mp values
    split at step
    · cases step
    · exact ih others next rest (start.define value step)

end Entries

section Reading

variable {α β : Type} {n : Nat} {good : α → Prop} {s r : List Char}

def Holds (good : α → Prop) (read : Read α n) : Prop := ∀ p, read = some p → good p.value

theorem Holds.none : Holds good (none : Read α n) := fun _ read => by cases read

theorem Holds.some {p : Parsed α n} (fine : good p.value) : Holds good (some p) := by
  intro q read
  cases read
  exact fine

theorem Holds.bind {x : Option β} {f : β → Read α n} (each : ∀ b, Holds good (f b)) :
    Holds good (x.bind f) := by
  intro p read
  obtain ⟨b, -, taken⟩ := Option.bind_eq_some_iff.mp read
  exact each b p taken

theorem Holds.orElse {x y : Read α n} (first : Holds good x) (second : Holds good y) :
    Holds good (x <|> y) := by
  cases x with
  | none => exact second
  | some p => exact first

/-! ### Values that are no tables -/

theorem fitting_distinct {v : Int} {p : Parsed (List Char) n} :
    Holds Node.Distinct (fitting v p) := by
  unfold fitting
  split
  · exact .some (.integer v)
  · exact .none

theorem readBased_distinct {base : Nat} {bound : s.length ≤ n} :
    Holds Node.Distinct (readBased base s bound) :=
  .bind fun _ => fitting_distinct

theorem readUnsigned_distinct {negative : Bool} {bound : r.length ≤ n} :
    Holds Node.Distinct (readUnsigned s negative r bound) := by
  refine .bind fun whole => .bind fun fraction => .bind fun power => ?_
  split
  · exact fitting_distinct
  · extract_lets digits x
    split
    · exact .none
    · exact .some (.float _)

theorem readSpecial_distinct {bound : s.length ≤ n} :
    Holds Node.Distinct (readSpecial s bound) := by
  unfold readSpecial
  split
  · exact .some (.float _)
  · exact .some (.float _)
  · exact .none

theorem readNumber_distinct {bound : s.length ≤ n} :
    Holds Node.Distinct (readNumber s bound) := by
  unfold readNumber
  split
  · exact readBased_distinct
  · exact readBased_distinct
  · exact readBased_distinct
  · split
    · exact .orElse readUnsigned_distinct readSpecial_distinct
    · exact .orElse readUnsigned_distinct readSpecial_distinct
  · exact .none

theorem readDatetime_distinct {bound : s.length ≤ n} {result : Read Node n}
    (dated : readDatetime s bound = some result) : Holds Node.Distinct result := by
  unfold readDatetime at dated
  split at dated
  · cases dated
    exact .bind fun date => .bind fun time => .some (.datetime _)
  · split at dated
    · cases dated
      exact .bind fun time => .some (.datetime _)
    · cases dated

theorem readScalar_distinct {c : Char} {bound : r.length < n} :
    Holds Node.Distinct (readScalar c r bound) := by
  unfold readScalar
  split
  · intro p read
    obtain ⟨q, -, rfl⟩ := Option.map_eq_some_iff.mp read
    exact .string q.value
  · split
    · exact .some (.boolean true)
    · exact .some (.boolean false)
    · split
      · exact readDatetime_distinct ‹_›
      · exact readNumber_distinct

/-! ### Arrays and tables -/

variable {value : (s : List Char) → Read Node s.length}

theorem readItems_distinct (sound : ∀ s, Holds Node.Distinct (value s)) {done : List Node}
    {bound : s.length ≤ n} (before : ∀ v ∈ done, v.Distinct) :
    Holds (∀ v ∈ ·, v.Distinct) (readItems value done s bound) := by
  fun_induction readItems value done s bound with
  | case2 =>
    exact .some fun v listed => before v (List.mem_reverse.mp listed)
  | case5 done _ _ d r _ _ _ v read _ _ _ ih =>
    exact ih (List.forall_mem_cons.mpr ⟨sound (d :: r) v read, before⟩)
  | case6 done _ _ d r _ _ _ v read =>
    have all := List.forall_mem_cons.mpr ⟨sound (d :: r) v read, before⟩
    exact .some fun w listed => all w (List.mem_reverse.mp listed)
  | _ => exact .none

theorem readPair_distinct (sound : ∀ s, Holds Node.Distinct (value s)) {bound : s.length ≤ n} :
    Holds (·.2.Distinct) (readPair value s bound) := by
  unfold readPair
  split
  · exact .none
  · split
    · split
      · exact .none
      · rename_i v here
        exact .some (sound _ v here)
    · exact .none

theorem readPairs_distinct (sound : ∀ s, Holds Node.Distinct (value s))
    {done : List (List String × Node)} {bound : s.length ≤ n}
    (before : ∀ p ∈ done, p.2.Distinct) :
    Holds (∀ p ∈ ·, p.2.Distinct) (readPairs value done s bound) := by
  fun_induction readPairs value done s bound with
  | case2 done _ _ p read _ _ _ _ ih =>
    have all : ∀ q ∈ p.value :: done, q.2.Distinct :=
      List.forall_mem_cons.mpr ⟨readPair_distinct sound p read, before⟩
    exact ih all
  | case3 done _ _ p read =>
    have all : ∀ q ∈ p.value :: done, q.2.Distinct :=
      List.forall_mem_cons.mpr ⟨readPair_distinct sound p read, before⟩
    exact .some fun q listed => all q (List.mem_reverse.mp listed)
  | _ => exact .none

theorem readBraces_distinct (sound : ∀ s, Holds Node.Distinct (value s)) {bound : s.length ≤ n} :
    Holds Node.Distinct (readBraces value s bound) := by
  unfold readBraces
  split
  · exact .some (distinct_table_iff.mpr Entries.Distinct.nil)
  · intro p read
    obtain ⟨pairs, pairs_read, rest⟩ := Option.bind_eq_some_iff.mp read
    obtain ⟨entries, made, whole⟩ := Option.bind_eq_some_iff.mp rest
    cases whole
    have each := readPairs_distinct sound (fun p listed => by cases listed) pairs pairs_read
    exact distinct_table_iff.mpr (.ofPairs each made)

theorem readValue_distinct (depth : Nat) (s : List Char) :
    Holds Node.Distinct (readValue depth s) := by
  induction depth generalizing s with
  | zero =>
    cases s with
    | nil => exact .none
    | cons c r =>
      simp only [readValue]
      split
      · exact .none
      · split
        · exact .none
        · exact readScalar_distinct
  | succ depth ih =>
    cases s with
    | nil => exact .none
    | cons c r =>
      rw [readValue]
      split
      · intro p read
        obtain ⟨items, items_read, rfl⟩ := Option.map_eq_some_iff.mp read
        have each := readItems_distinct ih (fun v listed => by cases listed) items items_read
        exact .array each
      · split
        · exact readBraces_distinct ih
        · exact readScalar_distinct

end Reading

/-! ### Documents -/

namespace Document

structure Distinct (d : Document) : Prop where
  root : d.root.Distinct
  current : d.current.Distinct

variable {d d' : Document} {path : List String}

theorem distinct_empty : empty.Distinct := ⟨.nil, .nil⟩

theorem Distinct.complete (distinct : d.Distinct) (done : d.complete = some es) :
    es.Distinct := by
  unfold Document.complete at done
  split at done
  · cases done
    exact distinct.current
  · rename_i k _
    obtain ⟨r, changed, rfl⟩ := Option.map_eq_some_iff.mp done
    refine (distinct.root.modify (fun _ => True) ?_ changed).1
    intro origin es r around added
    split at added
    · split at added
      · rename_i fresh
        cases added
        have table : Node.Distinct (.tables [d.current]) := by
          rw [distinct_tables_iff, List.forall_mem_singleton]
          exact distinct.current
        exact ⟨around.append fresh table, trivial⟩
      · rename_i elements found
        cases added
        have before := distinct_tables_iff.mp (around.get? found)
        have table : Node.Distinct (.tables (elements ++ [d.current])) := by
          rw [distinct_tables_iff, List.forall_mem_append, List.forall_mem_singleton]
          exact ⟨before, distinct.current⟩
        exact ⟨around.set table, trivial⟩
      · cases added
    · split at added
      · rename_i fresh
        cases added
        exact ⟨around.append fresh (distinct_table_iff.mpr distinct.current), trivial⟩
      · cases added

theorem Distinct.addValue (distinct : d.Distinct) (value : v.Distinct)
    (added : d.addValue path v = some d') : d'.Distinct := by
  unfold Document.addValue at added
  split at added
  · cases added
  · obtain ⟨es, defined, rfl⟩ := Option.map_eq_some_iff.mp added
    exact ⟨distinct.root, distinct.current.define value defined⟩

theorem Distinct.beginTable (distinct : d.Distinct) (begun : d.beginTable path = some d') :
    d'.Distinct := by
  unfold Document.beginTable at begun
  split at begun
  · rename_i root k complete _
    obtain ⟨r, changed, rfl⟩ := Option.map_eq_some_iff.mp begun
    suffices kept : r.1.Distinct ∧ Entries.Distinct r.2 from ⟨kept.1, kept.2⟩
    refine (distinct.complete complete).modify Entries.Distinct ?_ changed
    intro origin es r around opened
    split at opened
    · cases opened
      exact ⟨around, .nil⟩
    · rename_i found
      cases opened
      exact ⟨around.erase, distinct_table_iff.mp (around.get? found)⟩
    · cases opened
  · cases begun

theorem Distinct.beginElement (distinct : d.Distinct) (begun : d.beginElement path = some d') :
    d'.Distinct := by
  unfold Document.beginElement at begun
  split at begun
  · rename_i root k complete _
    obtain ⟨r, changed, rfl⟩ := Option.map_eq_some_iff.mp begun
    refine ⟨((distinct.complete complete).modify (fun _ => True) ?_ changed).1, .nil⟩
    intro origin es r around opened
    split at opened
    · rename_i fresh
      cases opened
      have none : Node.Distinct (.tables []) := distinct_tables_iff.mpr (List.forall_mem_nil _)
      exact ⟨around.append fresh none, trivial⟩
    · cases opened
      exact ⟨around, trivial⟩
    · cases opened
  · cases begun

end Document

section Lines

variable {n : Nat} {s : List Char} {d : Document}

theorem readHeader_distinct {closing : List Char} {begin : List String → Option Document}
    (begins : ∀ path d, begin path = some d → d.Distinct) {bound : s.length ≤ n} :
    Holds Document.Distinct (readHeader closing begin s bound) := by
  refine .bind fun key => ?_
  split
  · split
    · exact .none
    · intro p read
      obtain ⟨d, begun, rest⟩ := Option.bind_eq_some_iff.mp read
      cases rest
      exact begins key.value d begun
  · exact .none

theorem readLine_distinct (distinct : d.Distinct) (c : Char) (r : List Char) :
    Holds Document.Distinct (readLine d c r) := by
  unfold readLine
  split
  · split
    · exact .none
    · split
      · exact .some distinct
      · exact .none
  · split
    · split
      · exact readHeader_distinct fun _ _ => distinct.beginElement
      · exact readHeader_distinct fun _ _ => distinct.beginTable
    · split
      · exact .none
      · rename_i pair read
        have value := readPair_distinct (readValue_distinct _) pair read
        split
        · exact .none
        · intro p read
          obtain ⟨d', added, rest⟩ := Option.bind_eq_some_iff.mp read
          cases rest
          exact distinct.addValue value added

theorem readDocument_distinct {after : Document} (distinct : d.Distinct)
    (read : readDocument d s = some after) : after.Distinct := by
  fun_induction readDocument d s with
  | case1 =>
    cases read
    exact distinct
  | case2 => cases read
  | case3 d s c r _ p line _ ih => exact ih (readLine_distinct distinct c r p line) read

end Lines

theorem distinct_of_parse? {text : String} (parsed : parse? text = some es) : es.Distinct := by
  obtain ⟨d, read, complete⟩ := Option.bind_eq_some_iff.mp parsed
  exact (readDocument_distinct Document.distinct_empty read).complete complete

end HotReload.Toml
