import HotReload.Config.Schema

/-! The keys of a document that the schema does not declare, and the document without them.
What stands below such a key belongs to it: only the outermost ones count. -/
namespace HotReload.Config

open Toml (Node Entries)

def projectKeys : List String := ["namespace", "log_level", "output_targets", "dev_server"]

def serverKeys : List String := ["hot_reload"]

def targetKeys : List String := ["type", "dir"]

section Tables

variable (declared : List String)

/-- The paths of the keys outside the declared ones, with what is `below` a declared key in its
place. The path given leads to the table. -/
def undeclaredKeys (below : String → Node → List (List String)) (path : List String)
    (es : Entries) : List (List String) :=
  es.flatMap fun e => if e.1 ∈ declared then below e.1 e.2 else [path ++ [e.1]]

def declaredEntries (left : String → Node → Node) (es : Entries) : Entries :=
  (es.filter (·.1 ∈ declared)).map fun e => (e.1, left e.1 e.2)

variable {declared} {below : String → Node → List (List String)} {left : String → Node → Node}
  {path : List String} {k : String} {v : Node} {es : Entries}

theorem undeclaredKeys_of_mem (known : k ∈ declared) :
    undeclaredKeys declared below path ((k, v) :: es) =
      below k v ++ undeclaredKeys declared below path es := by
  rw [undeclaredKeys, List.flatMap_cons, if_pos known]
  rfl

theorem undeclaredKeys_of_not_mem (unknown : k ∉ declared) :
    undeclaredKeys declared below path ((k, v) :: es) =
      (path ++ [k]) :: undeclaredKeys declared below path es := by
  rw [undeclaredKeys, List.flatMap_cons, if_neg unknown]
  rfl

theorem declaredEntries_of_mem (known : k ∈ declared) :
    declaredEntries declared left ((k, v) :: es) =
      (k, left k v) :: declaredEntries declared left es := by
  simp [declaredEntries, known]

theorem declaredEntries_of_not_mem (unknown : k ∉ declared) :
    declaredEntries declared left ((k, v) :: es) = declaredEntries declared left es := by
  simp [declaredEntries, unknown]

variable (declared)

def undeclaredInTable (path : List String) : Node → List (List String)
  | .table _ es => undeclaredKeys declared (fun _ _ => []) path es
  | _ => []

def declaredTable : Node → Node
  | .table origin es => .table origin (declaredEntries declared (fun _ v => v) es)
  | v => v

end Tables

def elements : Node → List Node
  | .array vs => vs
  | .tables els => els.map (.table .header)
  | _ => []

def undeclaredBelow (k : String) (v : Node) : List (List String) :=
  if k = "dev_server" then undeclaredInTable serverKeys [k, "?"] v
  else if k = "output_targets" then
    (elements v).zipIdx.flatMap fun t => undeclaredInTable targetKeys [k, toString t.2] t.1
  else []

def declaredElements : Node → Node
  | .array vs => .array (vs.map (declaredTable targetKeys))
  | .tables els => .tables (els.map (declaredEntries targetKeys fun _ v => v))
  | v => v

def declaredBelow (k : String) (v : Node) : Node :=
  if k = "dev_server" then declaredTable serverKeys v
  else if k = "output_targets" then declaredElements v
  else v

/-- The paths of the outermost undeclared keys, in the order of the document. An optional
section shows in a path as a question mark, and an element of a list as its position. -/
def undeclared (es : Entries) : List (List String) :=
  undeclaredKeys projectKeys undeclaredBelow [] es

/-- A key that the schema does not declare, and that stands below no other such key. -/
inductive IsUndeclared (es : Entries) : List String → Prop where
  | top {k : String} {v : Node} : (k, v) ∈ es → k ∉ projectKeys → IsUndeclared es [k]
  | server {origin : Toml.Origin} {inner : Entries} {k : String} {v : Node} :
      ("dev_server", .table origin inner) ∈ es → (k, v) ∈ inner → k ∉ serverKeys →
      IsUndeclared es ["dev_server", "?", k]
  | target {list : Node} {i : Nat} {origin : Toml.Origin} {inner : Entries} {k : String}
      {v : Node} : ("output_targets", list) ∈ es →
      (elements list)[i]? = some (.table origin inner) → (k, v) ∈ inner → k ∉ targetKeys →
      IsUndeclared es ["output_targets", toString i, k]

def declaredOnly (es : Entries) : Entries := declaredEntries projectKeys declaredBelow es

def isTable : Node → Bool
  | .table _ _ => true
  | _ => false

def TablesWritten (es : Entries) : Prop :=
  ∀ e ∈ es, (e.1 = "dev_server" → isTable e.2 = true) ∧
    (e.1 = "output_targets" → ∀ t ∈ elements e.2, isTable t = true)

instance (es : Entries) : Decidable (TablesWritten es) :=
  inferInstanceAs (Decidable (∀ e ∈ es, (e.1 = "dev_server" → isTable e.2 = true) ∧
    (e.1 = "output_targets" → ∀ t ∈ elements e.2, isTable t = true)))

end HotReload.Config
