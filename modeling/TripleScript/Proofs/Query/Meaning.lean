import Mathlib.Data.List.GetD
import TripleScript.Proofs.Lists
import TripleScript.Proofs.Store.Order
import TripleScript.Statement.Basic

/-!
# What a query asks for

This is the meaning of a query as its text gives it, without slots, plans and
scans. A query leaves some nodes open: those of its variables, each of which
stands for one node wherever it occurs, and those of its wildcards, each of
which stands for a node of its own. An `Unknown` is one of them.

An assignment gives every unknown of the query a node, and it is a solution
for a set of triples if it turns every pattern into a triple of the set
(`SelectStatement.Holds`). A pattern without unknowns is a condition on the
set alone. The row of a solution has its nodes in the columns asked for
(`SelectStatement.Assignment.row`).
-/

namespace TripleScript

/-- **What a query leaves open**: a variable, or the wildcard at one position
of one pattern. -/
inductive Unknown where
  /-- A variable, without its question mark. -/
  | var (name : String)
  /-- A wildcard, by the number of its pattern and its position there. -/
  | wildcard (pattern position : ℕ)
deriving DecidableEq

/-- The unknown that a term is, at a position of a pattern. -/
def Term.unknown? (pattern position : ℕ) : Term → Option Unknown
  | node _ => none
  | var name => some (.var name)
  | wildcard => some (.wildcard pattern position)

/-- The node of a term, when every unknown has one. -/
def Term.value (σ : Unknown → Node) (pattern position : ℕ) : Term → Node
  | node n => n
  | var name => σ (.var name)
  | wildcard => σ (.wildcard pattern position)

/-- The unknowns of a pattern from left to right, one for each position that
has one. -/
def TriplePattern.unknowns (pattern : ℕ) (p : TriplePattern) : List Unknown :=
  (p.subject.unknown? pattern 0).toList ++ (p.predicate.unknown? pattern 1).toList
    ++ (p.object.unknown? pattern 2).toList

/-- **The triple of a pattern**, when every unknown has a node. -/
def TriplePattern.value (σ : Unknown → Node) (pattern : ℕ) (p : TriplePattern) : Triple :=
  ⟨p.subject.value σ pattern 0, p.predicate.value σ pattern 1, p.object.value σ pattern 2⟩

/-- The unknowns of some patterns of which the first has number `start`, one
for each position that has one. -/
def appearances (start : ℕ) (ps : List TriplePattern) : List Unknown :=
  (ps.zipIdx start).flatMap fun (p, i) => p.unknowns i

namespace SelectStatement

variable {q : SelectStatement}

/-- The unknowns of a query, in the order in which they first appear. -/
def unknowns (q : SelectStatement) : List Unknown :=
  (appearances 0 q.patterns).eraseDups

/-- An assignment of nodes to the unknowns of a query. -/
def Assignment (q : SelectStatement) : Type :=
  {u // u ∈ q.unknowns} → Node

/-- The node of an unknown; what is not an unknown of the query has the
default one. -/
def Assignment.node (σ : q.Assignment) (u : Unknown) : Node :=
  if h : u ∈ q.unknowns then σ ⟨u, h⟩ else default

/-- **An assignment is a solution** for a set of triples if it turns every
pattern into one of them. -/
def Holds (q : SelectStatement) (S : Finset Triple) (σ : q.Assignment) : Prop :=
  ∀ p ∈ q.patterns.zipIdx, p.1.value σ.node p.2 ∈ S

/-- The unknown of each column. -/
def columns (q : SelectStatement) : List Unknown :=
  match q.projection with
  | .all => q.unknowns
  | .vars names => names.map .var

/-- **The row of an assignment**: its nodes in the columns. -/
def Assignment.row (σ : q.Assignment) : List Node :=
  q.columns.map σ.node

theorem nodup_unknowns (q : SelectStatement) : q.unknowns.Nodup :=
  nodup_eraseDups _

/-! ## Assignments as lists -/

namespace Assignment

/-- The nodes of an assignment, in the order of the unknowns. -/
def nodes (σ : q.Assignment) : List Node :=
  q.unknowns.map σ.node

/-- The assignment of some nodes to the unknowns in their order. -/
def ofNodes (q : SelectStatement) (ρ : List Node) : q.Assignment :=
  fun u => ρ.getD (q.unknowns.idxOf u.1) default

@[simp] theorem length_nodes (σ : q.Assignment) : σ.nodes.length = q.unknowns.length :=
  List.length_map _

/-- An assignment is given by its nodes. -/
@[simp] theorem ofNodes_nodes (σ : q.Assignment) : ofNodes q σ.nodes = σ := by
  funext u
  obtain ⟨u, hu⟩ := u
  have hlt : q.unknowns.idxOf u < q.unknowns.length := List.idxOf_lt_length_of_mem hu
  rw [ofNodes, nodes, List.getD_eq_getElem _ _ (by rwa [List.length_map]), List.getElem_map,
    List.getElem_idxOf hlt, node, dif_pos hu]

/-- The node that some nodes assign to an unknown stands at its place. -/
theorem node_ofNodes (ρ : List Node) {i : ℕ} {u : Unknown} (h : q.unknowns[i]? = some u) :
    (ofNodes q ρ).node u = ρ.getD i default := by
  obtain ⟨hi, rfl⟩ := List.getElem?_eq_some_iff.mp h
  rw [node, dif_pos (List.getElem_mem hi), ofNodes, q.nodup_unknowns.idxOf_getElem i hi]

/-- As many nodes as there are unknowns are the nodes of their assignment. -/
theorem nodes_ofNodes {ρ : List Node} (h : ρ.length = q.unknowns.length) :
    (ofNodes q ρ).nodes = ρ := by
  refine List.ext_getElem (by rw [length_nodes, h]) fun i hi hi' => ?_
  have hu := List.getElem?_eq_getElem (h ▸ hi')
  simp only [nodes, List.getElem_map, node_ofNodes ρ hu, List.getD_eq_getElem _ _ hi']

end Assignment

end SelectStatement

end TripleScript
