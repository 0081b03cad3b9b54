import Lineage.Transform.Basic

set_option autoImplicit false

/-!
# Substitution into transforms

## Main definitions

* `Lineage.Transform.compose`: put transforms in the place of variables; a step is set on top of
  them.
* `Lineage.Transform.composition`: a transform applied to the results of others.
-/

namespace Lineage.Transform

mutual

/-- Put arguments in the place of the variables of a transform. A variable without an argument
stays; a composition is entered, except for its head; a step is applied to the arguments. -/
def compose (arguments : List Transform) (named : Dict Transform) : Transform → Transform
  | .variable h position => (position.find? arguments named).getD (.variable h position)
  | .composed h head inner innerNamed =>
    .composed (Transform.named h.name) head (composeAll arguments named inner)
      (composeNamed arguments named innerNamed)
  | .step h content =>
    .composed (Transform.named "composed") (.step h content) arguments named

/-- Substitute into a list of transforms. -/
def composeAll (arguments : List Transform) (named : Dict Transform) :
    List Transform → List Transform
  | [] => []
  | t :: rest => compose arguments named t :: composeAll arguments named rest

/-- Substitute into named transforms. -/
def composeNamed (arguments : List Transform) (named : Dict Transform) :
    List (String × Transform) → List (String × Transform)
  | [] => []
  | (n, t) :: rest => (n, compose arguments named t) :: composeNamed arguments named rest

end

/-- A transform applied to the results of others; into a composition they are substituted. -/
def composition (t : Transform) (arguments : List Transform) (named : Dict Transform) : Transform :=
  if t.isComposed then t.compose arguments named
  else .composed (Transform.named "composed") t arguments named

end Lineage.Transform
