set_option autoImplicit false

/-!
# Renderings

A value as it writes itself: piece by piece, and perhaps failing after the last one.
-/
namespace GeneratorKit

structure Rendering where
  pieces : List String
  fails : Bool

namespace Rendering

def of (pieces : List String) : Rendering := ⟨pieces, false⟩

def text (r : Rendering) : String := String.join r.pieces

end Rendering

end GeneratorKit
