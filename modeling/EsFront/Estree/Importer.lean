/-
Reading one value after another.

An importer reads nodes and keeps its state from one to the next: the numbers that
it has given out, the comments, and how many nodes it is inside of. The depth is
counted up when a node is entered and down again when it is left, also when the node
is refused. (`Import.node` has the depth that is left as an argument instead.)
-/
import EsFront.Estree.Import

namespace EsFront

/-- A step of the import that counts how many nodes it is inside of. -/
abbrev NestedImport := ExceptT ImportError (StateT Nat (StateM ImportState))

namespace Import

/-- A step inside one more node: the depth is counted up for it and down again, whether
it succeeds or not. -/
def inside {α : Type} (step : NestedImport α) : NestedImport α := ExceptT.mk do
  modifyThe Nat (· + 1)
  let result ← step.run
  modifyThe Nat (· - 1)
  return result

/-- A node, refused when the depth has reached the limit. The first argument bounds the
recursion; it does not run out if it and the depth are more than the limit. -/
def nestedNode (file : Option String) : Nat → Json → NestedImport AnyNode
  | 0, _ => throw (.nestingTooDeep depthLimit)
  | fuel + 1, raw => do
    let kind ← liftM (kindOf file raw)
    let depth ← getThe Nat
    if depthLimit ≤ depth then throw (.nestingTooDeep depthLimit)
    else inside (nodeOfKind file (nestedNode file fuel) kind raw)

end Import

/-- Reads nodes one after the other. -/
structure Importer where
  file : Option String
  state : ImportState
  /-- The number of nodes that are being read. -/
  depth : Nat
deriving DecidableEq, Repr, Inhabited

namespace Importer

def start (file : Option String) : Importer := ⟨file, .start, 0⟩

/-- Reads a node: what comes of it, and the importer for the next one. -/
def node (importer : Importer) (raw : Json) : Except ImportError AnyNode × Importer :=
  let ((result, depth), state) :=
    ((Import.nestedNode importer.file (Import.depthLimit + 1) raw).run.run importer.depth).run
      importer.state
  (result, { importer with state, depth })

/-- The importer after some values. -/
def after (importer : Importer) (raws : List Json) : Importer :=
  raws.foldl (fun importer raw => (importer.node raw).2) importer

end Importer

end EsFront
