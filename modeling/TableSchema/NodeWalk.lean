import TableSchema.ColumnType

/-!
# Walking a type

A type is walked from the top, each node before the nodes below it and these in the order of
their slots.  A walk can be told to stop at the first node of some kind; it then has seen that
node and all nodes before it.  A walk that is not stopped sees every node and measures how deep
the type goes.
-/

namespace TableSchema

mutual

/-- All nodes of a type in the order of the walk, itself first. -/
def ColumnType.nodes : ColumnType → List ColumnType
  | .primitive p => [.primitive p]
  | .struct fields => .struct fields :: Field.nodesBelow fields
  | .list id type optional => .list id type optional :: type.nodes
  | .map keyId key valueId value optional =>
    .map keyId key valueId value optional :: (key.nodes ++ value.nodes)

/-- The nodes of the types of some fields, field by field. -/
def Field.nodesBelow : List Field → List ColumnType
  | [] => []
  | ⟨_, _, type, _, _⟩ :: fields => type.nodes ++ Field.nodesBelow fields

end

mutual

/-- How many levels of slots lie below a node: none without slots, else one more than below the
deepest slot. -/
def ColumnType.depth : ColumnType → Nat
  | .primitive _ => 0
  | .struct fields => Field.depthBelow fields
  | .list _ type _ => type.depth + 1
  | .map _ key _ value _ => max key.depth value.depth + 1

/-- The levels of some fields: none without fields. -/
def Field.depthBelow : List Field → Nat
  | [] => 0
  | ⟨_, _, type, _, _⟩ :: fields => max (type.depth + 1) (Field.depthBelow fields)

end

/-- What a walk saw, and how it ended. -/
structure NodeWalk where
  /-- The nodes in the order in which they were met. -/
  seen : List ColumnType
  /-- The depth of the type, or the kind of node that stopped the walk. -/
  outcome : Except Kind Nat

namespace ColumnType

/-- The walk of `root`, stopped by the first node of kind `stop` if there is such a kind. -/
def walk (root : ColumnType) (stop : Option Kind) : NodeWalk :=
  match root.nodes.dropWhile fun t => stop ≠ some t.kind with
  | [] => ⟨root.nodes, .ok root.depth⟩
  | last :: _ =>
    ⟨(root.nodes.takeWhile fun t => stop ≠ some t.kind) ++ [last], .error last.kind⟩

/-- The walk begins with the type itself. -/
theorem head?_nodes (t : ColumnType) : t.nodes.head? = some t := by
  cases t <;> simp [nodes]

/-- A walk that nothing stops sees every node. -/
theorem walk_none (t : ColumnType) : t.walk none = ⟨t.nodes, .ok t.depth⟩ := by
  have h (ts : List ColumnType) :
      ts.dropWhile (fun s => (none : Option Kind) ≠ some s.kind) = [] := by
    induction ts <;> simp_all
  simp only [walk, h]

end ColumnType
end TableSchema
