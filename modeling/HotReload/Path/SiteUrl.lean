import HotReload.Path.Basic

namespace HotReload.Path

def Component.urlSegment? : Component → Option String
  | .name n => some (Utf8.decodeLossy n)
  | .parent => some ".."
  | .root | .current => none

def siteUrl (p : Path) : String :=
  match p.components.filterMap Component.urlSegment? with
  | [] => "/"
  | ss => String.join (ss.map ("/" ++ ·))

end HotReload.Path
