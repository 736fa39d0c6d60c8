import Std.Data.HashMap
import RdfMapping.Term
/-!
Graphs of described nodes. A node has an identifier and statements, each a predicate
with an object, in the order in which they were made; the nodes stand in the order
in which they were first used as a subject. An index gives the position of each
node.
-/

namespace RdfMapping

inductive NodeTerm where
  | iri (iri : String)
  | blank (id : String)
  | literal (value : String) (datatype language : Option String)
  deriving DecidableEq, Repr

namespace NodeTerm

def ofId (id : String) : NodeTerm :=
  if Term.blankMark.toList.isPrefixOf id.toList then .blank id else .iri id

def plain (value : String) : NodeTerm := .literal value none none

def iri? : NodeTerm → Option String
  | .iri text => some text
  | _ => none

def id? : NodeTerm → Option String
  | .iri text => some text
  | .blank text => some text
  | .literal .. => none

/-- What a term says as text: a literal its value, an IRI itself. -/
def text? : NodeTerm → Option String
  | .iri text => some text
  | .blank _ => none
  | .literal value _ _ => some value

end NodeTerm

structure Node where
  id : String
  statements : List (String × NodeTerm)
  deriving DecidableEq, Repr

structure Graph where
  nodes : Array Node
  /-- The position of each node by its identifier. -/
  index : Std.HashMap String Nat

namespace Graph

def empty : Graph := ⟨#[], ∅⟩

/-- The graph with a node of an identifier, a new one at the end if it has none. -/
def ensure (graph : Graph) (id : String) : Graph :=
  if graph.index.contains id then graph
  else
    { nodes := graph.nodes.push ⟨id, []⟩
      index := graph.index.insert id graph.nodes.size }

def add (graph : Graph) (subject predicate : String) (object : NodeTerm) : Graph :=
  let grown := graph.ensure subject
  match grown.index[subject]? with
  | none => grown
  | some position =>
      { grown with
        nodes := grown.nodes.modify position fun node =>
          { node with statements := node.statements ++ [(predicate, object)] } }

def ofStatements (statements : List (String × String × NodeTerm)) : Graph :=
  statements.foldl (fun graph s => graph.add s.1 s.2.1 s.2.2) empty

def size (graph : Graph) : Nat := graph.nodes.size

def node? (graph : Graph) (id : String) : Option Node :=
  graph.index[id]?.bind fun position => graph.nodes[position]?

def objects (graph : Graph) (id predicate : String) : List NodeTerm :=
  match graph.node? id with
  | some node => (node.statements.filter (·.1 = predicate)).map Prod.snd
  | none => []

def object? (graph : Graph) (id predicate : String) : Option NodeTerm :=
  (graph.objects id predicate).head?

end Graph

end RdfMapping
