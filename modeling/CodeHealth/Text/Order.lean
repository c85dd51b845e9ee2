/-!
# Order of texts

Texts are ordered by their characters, the first difference first.
-/

namespace CodeHealth.Text

/-- Texts in increasing order. -/
def sorted (texts : List String) : List String :=
  texts.mergeSort fun a b => a ≤ b

end CodeHealth.Text
