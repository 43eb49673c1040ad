import Interpolation.Text.Utf8

/-!
# Looking up the value of a key

A lookup gives each key a value or none. Laying one lookup over another asks the upper one first.
-/

namespace Interpolation

abbrev Lookup := Text → Option Text

namespace Lookup

def overlay (upper lower : Lookup) : Lookup :=
  fun key => (upper key).or (lower key)

@[simp] theorem overlay_apply (upper lower : Lookup) (key : Text) :
    overlay upper lower key = (upper key).or (lower key) := rfl

end Lookup

end Interpolation
