/-!
Directed graphs with nodes and arcs in insertion order. Nodes are known by their index. Whether a
path leads from one node to another is decided by growing the set of reached nodes, one round for
every node; the topological order lists nodes by depth-first search, oldest arcs first.
-/

namespace ElasticJob

structure Arc (ε : Type) where
  source : Nat
  target : Nat
  label : ε
  deriving DecidableEq

structure Digraph (ν ε : Type) where
  nodes : List ν
  arcs : List (Arc ε)
  deriving DecidableEq

namespace Digraph

variable {ν ε : Type}

def empty : Digraph ν ε := ⟨[], []⟩

def addNode (graph : Digraph ν ε) (node : ν) : Digraph ν ε :=
  { graph with nodes := graph.nodes ++ [node] }

def addArc (graph : Digraph ν ε) (source target : Nat) (label : ε) : Digraph ν ε :=
  { graph with arcs := graph.arcs ++ [⟨source, target, label⟩] }

def successors (graph : Digraph ν ε) (node : Nat) : List Nat :=
  (graph.arcs.filter fun arc => arc.source = node).map Arc.target

def reachArc (reached : List Nat) (arc : Arc ε) : List Nat :=
  if arc.source ∈ reached ∧ arc.target ∉ reached then reached ++ [arc.target] else reached

def grow (graph : Digraph ν ε) (reached : List Nat) : List Nat :=
  graph.arcs.foldl reachArc reached

def rounds (graph : Digraph ν ε) : Nat → List Nat → List Nat
  | 0, reached => reached
  | count + 1, reached => rounds graph count (graph.grow reached)

def hasPath (graph : Digraph ν ε) (source target : Nat) : Bool :=
  (graph.rounds graph.nodes.length [source]).contains target

/-- Appends the nodes below a node and then the node itself, each unless it is there already. The
bound is on the depth of the search. -/
def visit (graph : Digraph ν ε) : Nat → List Nat → Nat → List Nat
  | 0, finished, _ => finished
  | depth + 1, finished, node =>
      if node ∈ finished then finished
      else (graph.successors node).foldl (graph.visit depth) finished ++ [node]

/-- Nodes in reverse order of finishing. -/
def depthOrder (graph : Digraph ν ε) : List Nat :=
  ((List.range graph.nodes.length).foldl (graph.visit (graph.nodes.length + 1)) []).reverse

def isForward (order : List Nat) (arc : Arc ε) : Bool :=
  order.idxOf arc.source < order.idxOf arc.target

def backward? (graph : Digraph ν ε) (order : List Nat) : Option Nat :=
  (graph.arcs.find? fun arc => !isForward order arc).map Arc.source

end Digraph

end ElasticJob
