import HotReload.Payload

namespace HotReload.Payload

/-- One part is set. A part that is set again loses its earlier value. -/
inductive Call where
  | components (tags : Option (List String))
  | styles (map : Option StyleMap)
  | stylesheets (urls : Option (List String))
deriving Repr, DecidableEq

def call (p : Payload) : Call → Payload
  | .components tags => p.withComponents tags
  | .styles map => p.withStyles map
  | .stylesheets urls => p.withStylesheets urls

def ofCalls (calls : List Call) : Payload := calls.foldl call nothing

namespace Call

def components? : Call → Option (Option (List String))
  | .components tags => some tags
  | _ => none

def styles? : Call → Option (Option StyleMap)
  | .styles map => some map
  | _ => none

def stylesheets? : Call → Option (Option (List String))
  | .stylesheets urls => some urls
  | _ => none

end Call

def lastGiven {α : Type} (given? : Call → Option (Option α)) (calls : List Call) :
    Option (Option α) := (calls.filterMap given?).getLast?

structure Lists (p : Payload) (parts : List (String × Nat)) : Prop where
  order : (parts.map Prod.fst).Sublist ["component", "inline style", "stylesheet"]
  components : ∀ n, ("component", n) ∈ parts ↔ ∃ tags, p.components = some tags ∧ tags.length = n
  styles : ∀ n, ("inline style", n) ∈ parts ↔ ∃ m, p.styles = some m ∧ m.entries.length = n
  stylesheets : ∀ n, ("stylesheet", n) ∈ parts ↔
    ∃ urls, p.stylesheets = some urls ∧ urls.length = n

def phrase (part : String × Nat) : String :=
  toString part.2 ++ " " ++ part.1 ++ if part.2 = 1 then "" else "s"

end HotReload.Payload
