/-! What the program writes: texts on two streams, in the order in which they are written.
The standard output carries payloads for the transport and nothing else; all that is meant
for people goes to the error stream. -/
namespace HotReload

inductive Output where
  | out (text : String)
  | err (text : String)
deriving Repr, DecidableEq

namespace Output

def text : Output → String
  | .out text | .err text => text

def standard (outputs : List Output) : String :=
  String.join (outputs.map fun
    | .out text => text
    | .err _ => "")

def errors (outputs : List Output) : String :=
  String.join (outputs.map fun
    | .out _ => ""
    | .err text => text)

end Output
end HotReload
