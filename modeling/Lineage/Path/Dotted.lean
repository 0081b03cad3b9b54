import Lineage.Fault
import Lineage.Text.Blank

set_option autoImplicit false

/-!
# Paths from dotted text

## Main definitions

* `Lineage.Path.parse`: the path of a dotted text, the inverse of `Path.render` on chains of labels
  that are not blank, hold no dot and have no blank ends.
* `Lineage.Path.labels`: the steps of a path, or a fault where it branches.
-/

namespace Lineage.Path

/-- The path of a text of labels with dots between them. Blank ends are dropped, also of each
label; nothing or a lone dot is the root; a blank label is refused. -/
def parse (text : String) : Outcome Path :=
  let trimmed := Text.strip text
  if trimmed = "" ∨ trimmed = "." then .ok root
  else
    let labels := (Text.splitAt '.' trimmed).map Text.strip
    if labels.any (· = "") then .error (.invalidInput ("malformed path '" ++ trimmed ++ "'"))
    else .ok (ofLabels labels)

/-- The steps of a path that does not branch. -/
def labels (p : Path) : Outcome (List String) :=
  Outcome.ofOption (.ambiguousPath p) p.steps?

end Lineage.Path
