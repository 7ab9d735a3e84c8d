import HotReload.BuildContext
import HotReload.Json.Printer
import HotReload.Json.Record
import HotReload.Module
import HotReload.Payload

namespace HotReload

def optionalMember (name : String) (v : Option Json.Value) : List (String × Json.Value) :=
  (v.map fun v => (name, v)).toList

def Path.toJson (p : Path) : Json.Value := .string p.display

def Path.listToJson (ps : List Path) : Json.Value := .array (ps.map Path.toJson)

def StyleMap.toJson (m : StyleMap) : Json.Value :=
  .object (m.entries.map fun e => (e.1, .string e.2))

def Module.toJson (m : Module) : Json.Value :=
  .object (("sourcePath", m.source.toJson) ::
    optionalMember "compiledOutputPath" (m.output.map Path.toJson) ++
    ("localImports", Path.listToJson m.imports) ::
    optionalMember "cmpMeta" (m.tag.map fun t => .object [("tagName", .string t)]))

def BuildContext.toJson (c : BuildContext) : Json.Value :=
  .object (optionalMember "filesChanged" (c.changed.map Path.listToJson) ++
    ("filesWritten", Path.listToJson c.written) ::
    optionalMember "stylesUpdated" (c.styles.map StyleMap.toJson) ++
    [("isRebuild", .bool c.isRebuild)])

def Payload.toJson (p : Payload) : Json.Value :=
  .object (optionalMember "componentsUpdated" (p.components.map Json.Value.strings) ++
    optionalMember "stylesUpdated" (p.styles.map StyleMap.toJson) ++
    optionalMember "externalStylesUpdated" (p.stylesheets.map Json.Value.strings))

def Payload.text (p : Payload) : String := p.toJson.compactText

def Payload.render (p : Option Payload) (pretty : Bool) : String :=
  let v := match p with
    | none => Json.Value.null
    | some p => p.toJson
  if pretty then v.prettyText else v.compactText

namespace Json

def readPath : Reader Path := fun s => (readString s).map (Parsed.map Path.ofString)

def readStyles : Reader StyleMap := fun s =>
  (readPairs readString s).map (Parsed.map StyleMap.ofPairs)

def field {δ α : Type} (name : String) (read : Reader α) (put : δ → α → δ) : Field δ :=
  ⟨name, fun draft s => (read s).map (Parsed.map (put draft))⟩

def componentRecord : Record (Option String) String where
  fields := [field "tagName" readString fun _ t => some t]
  blank := none
  finish := id

structure ModuleDraft where
  source : Option Path
  output : Option Path
  imports : List Path
  tag : Option String

def moduleRecord : Record ModuleDraft Module where
  fields := [
    field "sourcePath" readPath fun d p => { d with source := some p },
    field "compiledOutputPath" (readOptional readPath) fun d p => { d with output := p },
    field "localImports" (readList readPath) fun d ps => { d with imports := ps },
    field "cmpMeta" (readOptional componentRecord.read) fun d t => { d with tag := t }]
  blank := ⟨none, none, [], none⟩
  finish := fun d => d.source.map fun p => ⟨p, d.output, d.imports, d.tag⟩

def contextRecord : Record BuildContext BuildContext where
  fields := [
    field "filesChanged" (readOptional (readList readPath)) fun c ps => { c with changed := ps },
    field "filesWritten" (readList readPath) fun c ps => { c with written := ps },
    field "stylesUpdated" (readOptional readStyles) fun c m => { c with styles := m },
    field "isRebuild" readBool fun c b => { c with isRebuild := b }]
  blank := .initial
  finish := some

end Json

def BuildContext.ofText (text : String) : Except Json.Fault BuildContext :=
  Json.readWhole Json.contextRecord.read text.toList

end HotReload
