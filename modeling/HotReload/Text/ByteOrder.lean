import HotReload.Text.Utf8

namespace HotReload.ByteOrder

def le (a b : String) : Bool := decide (Utf8.encode a ≤ Utf8.encode b)

def lt (a b : String) : Bool := decide (Utf8.encode a < Utf8.encode b)

def sort (texts : List String) : List String := texts.mergeSort le

/-- Adds a text to an ascending list without repetitions. -/
def insert (t : String) : List String → List String
  | [] => [t]
  | u :: us => if t = u then u :: us else if lt t u then t :: u :: us else u :: insert t us

end HotReload.ByteOrder
