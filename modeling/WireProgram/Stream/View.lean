/-
**Views: how a stream of bytes is reached.**

A view is a root, or a view over another view. It names the cells that hold the state of its layers;
which layer lies over which never changes, so it is part of the view itself.

* `View` and the name of its type, `View.typeName`;
* `View.depth`, the number of layers.
-/

import WireProgram.Fault

namespace WireProgram

/-- A view of a stream. The numbers are those of the cells that hold the state of a layer. -/
inductive View where
  /-- A root over a raw input, read in one of the two ways. -/
  | source (execution : Execution) (cell : Nat)
  /-- A root over bytes that are all there. -/
  | cursor (cell : Nat)
  /-- At most so many bytes of another view. -/
  | take (cell : Nat) (parent : View)
  /-- The bytes of another view, run through a codec. -/
  | transformed (cell : Nat) (parent : View)
  deriving DecidableEq, Inhabited

/-- The type name of a view, as messages and reports give it. -/
def View.typeName : View → String
  | .source execution _ => execution.sourceName
  | .cursor _ => "Cursor"
  | .take _ _ => "Take"
  | .transformed _ _ => "TransformedStream"

/-- The number of layers of a view. -/
def View.depth : View → Nat
  | .source _ _ | .cursor _ => 1
  | .take _ parent | .transformed _ parent => parent.depth + 1

end WireProgram
