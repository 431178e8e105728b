import Lisplet.Expr.Basic
/-!
# Depth and size of an expression

How deeply lists are nested and how many atoms and lists there are.  `depth` and `nodes` say it by recursion on the
tree.  `shape` finds both in one walk that keeps the lists still to be visited in a worklist, so that trees nested far
deeper than a call stack can be measured too; `shape_eq` says that it finds the same numbers.
-/
namespace Lisplet
namespace Expr

mutual

/-- How many lists lie around the deepest atom; an empty list counts as one. -/
def depth : Expr → Nat
  | .list items => 1 + depthItems items
  | _ => 0

def depthItems : List Expr → Nat
  | [] => 0
  | e :: rest => max e.depth (depthItems rest)

end

mutual

def nodes : Expr → Nat
  | .list items => 1 + nodesItems items
  | _ => 1

def nodesItems : List Expr → Nat
  | [] => 0
  | e :: rest => e.nodes + nodesItems rest

end

theorem nodes_pos : ∀ e : Expr, 0 < e.nodes
  | .num _ | .keyword _ | .symbol _ => by simp [nodes]
  | .list items => by rw [nodes]; omega

structure Shape where
  depth : Nat
  nodes : Nat
  deriving DecidableEq

/-- Lists still to be walked, each with the depth at which its items lie. -/
abbrev Worklist := List (Nat × List Expr)

namespace Worklist

/-- How many steps a walk may still take. -/
def weight : Worklist → Nat
  | [] => 0
  | (_, items) :: rest => 2 * nodesItems items + 1 + weight rest

def depth : Worklist → Nat
  | [] => 0
  | (_, []) :: rest => depth rest
  | (level, e :: more) :: rest => max (level + depthItems (e :: more)) (depth rest)

def nodes : Worklist → Nat
  | [] => 0
  | (_, items) :: rest => nodesItems items + nodes rest

end Worklist

def walk (seen : Shape) (work : Worklist) : Shape :=
  match work with
  | [] => seen
  | (_, []) :: rest => walk seen rest
  | (level, e :: more) :: rest =>
    match e with
    | .list items =>
      walk ⟨max seen.depth (level + 1), seen.nodes + 1⟩ ((level + 1, items) :: (level, more) :: rest)
    | .num _ | .keyword _ | .symbol _ => walk ⟨max seen.depth level, seen.nodes + 1⟩ ((level, more) :: rest)
termination_by work.weight
decreasing_by all_goals simp only [Worklist.weight, nodesItems, nodes]; omega

/-- **Depth and size in one walk**, without a call stack as deep as the tree. -/
def shape (e : Expr) : Shape :=
  walk ⟨0, 0⟩ [(0, [e])]

theorem Worklist.depth_cons (level : Nat) (e : Expr) (more : List Expr) (rest : Worklist) :
    Worklist.depth ((level, e :: more) :: rest) =
      max (level + e.depth) (Worklist.depth ((level, more) :: rest)) := by
  cases more with
  | nil => simp [Worklist.depth, depthItems]
  | cons f more => simp only [Worklist.depth, depthItems]; omega

theorem Worklist.depth_list (level : Nat) (items : List Expr) (rest : Worklist) :
    max (level + 1) (Worklist.depth ((level + 1, items) :: rest)) =
      max (level + (Expr.list items).depth) (Worklist.depth rest) := by
  cases items with
  | nil => simp [Worklist.depth, Expr.depth, depthItems]
  | cons f more => simp only [Worklist.depth, Expr.depth]; omega

theorem walk_eq (seen : Shape) (work : Worklist) :
    walk seen work = ⟨max seen.depth work.depth, seen.nodes + work.nodes⟩ := by
  fun_induction walk seen work with
  | case1 seen => simp [Worklist.depth, Worklist.nodes]
  | case2 seen level rest ih => simp [ih, Worklist.depth, Worklist.nodes, nodesItems]
  | case3 seen level more rest items ih =>
    have hd := Worklist.depth_list level items ((level, more) :: rest)
    rw [ih, Worklist.depth_cons]
    simp only [Worklist.nodes, nodesItems, nodes, Shape.mk.injEq]
    omega
  | case4 seen level more rest n ih =>
    rw [ih, Worklist.depth_cons]
    simp only [Worklist.nodes, nodesItems, nodes, depth, Shape.mk.injEq]
    omega
  | case5 seen level more rest k ih =>
    rw [ih, Worklist.depth_cons]
    simp only [Worklist.nodes, nodesItems, nodes, depth, Shape.mk.injEq]
    omega
  | case6 seen level more rest name ih =>
    rw [ih, Worklist.depth_cons]
    simp only [Worklist.nodes, nodesItems, nodes, depth, Shape.mk.injEq]
    omega

theorem shape_eq (e : Expr) : e.shape = ⟨e.depth, e.nodes⟩ := by
  rw [shape, walk_eq]
  simp [Worklist.depth, Worklist.nodes, depthItems, nodesItems]

end Expr
end Lisplet
