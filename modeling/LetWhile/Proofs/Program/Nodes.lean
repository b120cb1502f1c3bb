import LetWhile.Proofs.Program.Drawn

/-!
# The expressions in a program

All expressions of a program, with those inside other expressions and in the bodies of function
literals (`Block.nodes`).
-/

namespace LetWhile

variable {P : Type}

mutual

/-- An expression and the expressions in it. -/
def Expr.nodes : Expr P → List (Expr P)
  | .boolean value span => [.boolean value span]
  | .number value span => [.number value span]
  | .string value span => [.string value span]
  | .symbol name span => [.symbol name span]
  | .operation op args span => .operation op args span :: Expr.allNodes args
  | .call callee args span => .call callee args span :: (callee.nodes ++ Expr.allNodes args)
  | .function params body span => .function params body span :: body.nodes

/-- Several expressions and the expressions in them. -/
def Expr.allNodes : List (Expr P) → List (Expr P)
  | [] => []
  | expr :: rest => expr.nodes ++ Expr.allNodes rest

/-- The expressions in a statement. -/
def Stmt.nodes : Stmt P → List (Expr P)
  | .declare _ _ value _ | .assign _ value _ | .returnValue value _ | .expression value _ =>
    value.nodes
  | .branch condition yes no _ => condition.nodes ++ (yes.nodes ++ no.nodes)
  | .loop condition body _ => condition.nodes ++ body.nodes
  | .returnVoid _ => []

/-- The expressions in several statements. -/
def Stmt.allNodes : List (Stmt P) → List (Expr P)
  | [] => []
  | stmt :: rest => stmt.nodes ++ Stmt.allNodes rest

/-- The expressions in a block. -/
def Block.nodes : Block P → List (Expr P)
  | .mk stmts _ => Stmt.allNodes stmts

end

section
variable {word : Kind → String → Prop} {node : Expr P}

mutual

/-- The expressions in an expression are drawn from the words that it is drawn from. -/
theorem Expr.Drawn.of_mem_nodes : ∀ {expr : Expr P}, expr.Drawn word → node ∈ expr.nodes →
    node.Drawn word
  | .boolean .., h, hmem | .number .., h, hmem | .string .., h, hmem | .symbol .., h, hmem => by
    cases List.mem_singleton.1 hmem
    exact h
  | .operation .., h, hmem => by
    rcases List.mem_cons.1 hmem with rfl | hmem
    · exact h
    · exact Expr.AllDrawn.of_mem_allNodes h.2.2 hmem
  | .call .., h, hmem => by
    rcases List.mem_cons.1 hmem with rfl | hmem
    · exact h
    rcases List.mem_append.1 hmem with hmem | hmem
    · exact Expr.Drawn.of_mem_nodes h.1 hmem
    · exact Expr.AllDrawn.of_mem_allNodes h.2 hmem
  | .function .., h, hmem => by
    rcases List.mem_cons.1 hmem with rfl | hmem
    · exact h
    · exact Block.Drawn.of_mem_nodes h.2 hmem

/-- Each node of expressions that are drawn from words is drawn from them. -/
theorem Expr.AllDrawn.of_mem_allNodes : ∀ {exprs : List (Expr P)}, Expr.AllDrawn word exprs →
    node ∈ Expr.allNodes exprs → node.Drawn word
  | [], _, hmem => by cases hmem
  | _ :: _, h, hmem => by
    rcases List.mem_append.1 hmem with hmem | hmem
    · exact Expr.Drawn.of_mem_nodes h.1 hmem
    · exact Expr.AllDrawn.of_mem_allNodes h.2 hmem

/-- Each node of a statement that is drawn from words is drawn from them. -/
theorem Stmt.Drawn.of_mem_nodes : ∀ {stmt : Stmt P}, stmt.Drawn word → node ∈ stmt.nodes →
    node.Drawn word
  | .declare .., h, hmem => Expr.Drawn.of_mem_nodes h.2.2 hmem
  | .assign .., h, hmem => Expr.Drawn.of_mem_nodes h.2 hmem
  | .branch .., h, hmem => by
    rcases List.mem_append.1 hmem with hmem | hmem
    · exact Expr.Drawn.of_mem_nodes h.1 hmem
    rcases List.mem_append.1 hmem with hmem | hmem
    · exact Block.Drawn.of_mem_nodes h.2.1 hmem
    · exact Block.Drawn.of_mem_nodes h.2.2 hmem
  | .loop .., h, hmem => by
    rcases List.mem_append.1 hmem with hmem | hmem
    · exact Expr.Drawn.of_mem_nodes h.1 hmem
    · exact Block.Drawn.of_mem_nodes h.2 hmem
  | .returnValue .., h, hmem => Expr.Drawn.of_mem_nodes h hmem
  | .returnVoid _, _, hmem => by cases hmem
  | .expression .., h, hmem => Expr.Drawn.of_mem_nodes h hmem

/-- Each node of statements that are drawn from words is drawn from them. -/
theorem Stmt.AllDrawn.of_mem_allNodes : ∀ {stmts : List (Stmt P)}, Stmt.AllDrawn word stmts →
    node ∈ Stmt.allNodes stmts → node.Drawn word
  | [], _, hmem => by cases hmem
  | _ :: _, h, hmem => by
    rcases List.mem_append.1 hmem with hmem | hmem
    · exact Stmt.Drawn.of_mem_nodes h.1 hmem
    · exact Stmt.AllDrawn.of_mem_allNodes h.2 hmem

/-- The expressions in a program are drawn from the words that it is drawn from. -/
theorem Block.Drawn.of_mem_nodes : ∀ {block : Block P}, block.Drawn word → node ∈ block.nodes →
    node.Drawn word
  | .mk .., h, hmem => Stmt.AllDrawn.of_mem_allNodes h hmem

end

end

end LetWhile
