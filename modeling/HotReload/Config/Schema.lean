import HotReload.Config.Basic
import HotReload.Toml.Tree

/-! What a configuration file may say.
A section is a table, or an array of its values in declared order. Keys that a section does
not declare are skipped together with everything below them, but reported by their paths, in
the order of the document. -/
namespace HotReload.Config

open Toml (Node Entries)

abbrev Reading (α : Type) := Option (α × List String)

structure Field (δ : Type) where
  name : String
  read : List String → Node → δ → Reading δ

structure Section (δ α : Type) where
  fields : List (Field δ)
  blank : δ
  finish : δ → Option α

namespace Section

variable {δ α : Type}

def readEntries (fields : List (Field δ)) (path : List String) : Entries → δ → Reading δ
  | [], draft => some (draft, [])
  | (k, v) :: es, draft =>
    match fields.find? (·.name == k) with
    | none =>
      (readEntries fields path es draft).map fun r =>
        (r.1, ".".intercalate (path ++ [k]) :: r.2)
    | some f =>
      match f.read (path ++ [k]) v draft with
      | none => none
      | some (draft, skipped) =>
        (readEntries fields path es draft).map fun r => (r.1, skipped ++ r.2)

/-- Reads values in the order of the fields. Missing ones are left blank and superfluous ones
are ignored. -/
def readItems (path : List String) : Nat → List (Field δ) → List Node → δ → Reading δ
  | i, f :: fs, v :: vs, draft =>
    match f.read (path ++ [toString i]) v draft with
    | none => none
    | some (draft, skipped) =>
      (readItems path (i + 1) fs vs draft).map fun r => (r.1, skipped ++ r.2)
  | _, _, _, draft => some (draft, [])

/-- The name under which a date shows its text where a table is due. -/
def dateKey : String := "$__toml_private_datetime"

/-- Reads a section from a node. A date counts as a table with one undeclared key. -/
def read (sec : Section δ α) (path : List String) (v : Node) : Reading α :=
  let draft := match v with
    | .table _ es => readEntries sec.fields path es sec.blank
    | .datetime t => readEntries sec.fields path [(dateKey, .string t)] sec.blank
    | .array vs => readItems path 0 sec.fields vs sec.blank
    | .tables els => readItems path 0 sec.fields (els.map (.table .header)) sec.blank
    | _ => none
  draft.bind fun d => (sec.finish d.1).map fun a => (a, d.2)

end Section

def readEach {α : Type} (item : List String → Node → Reading α) (path : List String) :
    Nat → List Node → Reading (List α)
  | _, [] => some ([], [])
  | i, v :: vs =>
    match item (path ++ [toString i]) v with
    | none => none
    | some (a, skipped) =>
      (readEach item path (i + 1) vs).map fun r => (a :: r.1, skipped ++ r.2)

def readList {α : Type} (item : List String → Node → Reading α) (path : List String) :
    Node → Reading (List α)
  | .array vs => readEach item path 0 vs
  | .tables els => readEach item path 0 (els.map (.table .header))
  | _ => none

def isBare : Node → Bool
  | .table _ [] | .array [] => true
  | _ => false

/-- The name of one of several choices: a string, or a table that has the name as its only
key, with nothing below. -/
def choice? : Node → Option String
  | .string s => some s
  | .table _ [(k, v)] => if isBare v then some k else none
  | _ => none

def string? : Node → Option String
  | .string s => some s
  | _ => none

def boolean? : Node → Option Bool
  | .boolean b => some b
  | _ => none

def plain {δ α : Type} (name : String) (value? : Node → Option α) (put : δ → α → δ) : Field δ :=
  ⟨name, fun _ v draft => (value? v).map fun a => (put draft a, [])⟩

def LogLevel.ofName? (s : String) : Option LogLevel :=
  if s = "info" then some .info else if s = "debug" then some .debug else none

def devServer : Section DevServer DevServer where
  fields := [plain "hot_reload" boolean? fun _ b => ⟨b⟩]
  blank := ⟨true⟩
  finish := some

def outputTarget : Section (Option OutputKind × Option Path) OutputTarget where
  fields := [
    plain "type" choice? fun d s => (some (OutputKind.ofName s), d.2),
    plain "dir" string? fun d s => (d.1, some (Path.ofString s))]
  blank := (none, none)
  finish := fun d => d.1.bind fun kind => d.2.map fun dir => ⟨kind, dir⟩

def project : Section ProjectConfig ProjectConfig where
  fields := [
    plain "namespace" string? fun c s => { c with title := some s },
    plain "log_level" (fun v => (choice? v).bind LogLevel.ofName?) fun c l =>
      { c with logLevel := l },
    ⟨"output_targets", fun path v c =>
      (readList outputTarget.read path v).map fun r => ({ c with targets := r.1 }, r.2)⟩,
    ⟨"dev_server", fun path v c =>
      (devServer.read (path ++ ["?"]) v).map fun r => ({ c with devServer := some r.1 }, r.2)⟩]
  blank := .default
  finish := some

def ofTree (es : Entries) : Reading ProjectConfig := project.read [] (.table .header es)

end HotReload.Config
