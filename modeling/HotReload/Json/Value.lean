namespace HotReload.Json

inductive Value where
  | null
  | bool (b : Bool)
  | string (s : String)
  | array (items : List Value)
  | object (members : List (String × Value))
deriving Repr, Inhabited

def Value.strings (ss : List String) : Value := .array (ss.map .string)

end HotReload.Json
