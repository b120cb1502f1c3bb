import LetWhile.Proofs.Outline.Slices
import LetWhile.Proofs.Program.Nodes
import LetWhile.Proofs.Tree.Edges
import Mathlib.Data.List.Induction

/-!
# Where operations are read from

Each operation in a program is spelled by a slice of its trees that begins and ends where the
operation does, but for parentheses around its first and last operands (`Expr.LocatedIn`). Reading
preserves this (`Reader.Locates`). The operations that a chain is folded into are spelled by its
fronts, which are cut as the chain is (`Reader.foldlM_readLink_located`).
-/

namespace LetWhile

variable {P : Type}

open LetWhile.Tree (Slice Begins Ends)

/-! ## Located operations -/

/-- A slice of some trees spells an expression that begins and ends where the slice does, and the
slice is not all in one group. -/
def Expr.LocatedIn (root : List (Tree P)) (expr : Expr P) : Prop :=
  ∃ part token, Slice part root ∧ .leaf token ∈ part ∧ SpellsExpr part expr ∧
    Begins expr.span.start part ∧ Ends expr.span.stop part

/-- The operations among some expressions are located in some trees. -/
def OperationsIn (root : List (Tree P)) (exprs : List (Expr P)) : Prop :=
  ∀ op args span, .operation op args span ∈ exprs →
    Expr.LocatedIn root (.operation op args span)

namespace OperationsIn
variable {root : List (Tree P)} {exprs more : List (Expr P)} {expr : Expr P}

/-- No expressions have no operations to locate. -/
theorem nil : OperationsIn root [] := fun _ _ _ h => by cases h

/-- One more expression must be located only if it is an operation. -/
theorem cons (h : (∃ op args span, expr = .operation op args span) → expr.LocatedIn root)
    (hexprs : OperationsIn root exprs) : OperationsIn root (expr :: exprs) := by
  intro op args span hmem
  rcases List.mem_cons.1 hmem with rfl | hmem
  · exact h ⟨op, args, span, rfl⟩
  · exact hexprs op args span hmem

/-- The operations of two lists are located if those of both are. -/
theorem append (h : OperationsIn root exprs) (hmore : OperationsIn root more) :
    OperationsIn root (exprs ++ more) :=
  fun op args span hmem => (List.mem_append.1 hmem).elim (h op args span) (hmore op args span)

/-- The operations in expressions are located if those of each expression are. -/
theorem allNodes (h : ∀ expr ∈ exprs, OperationsIn root expr.nodes) :
    OperationsIn root (Expr.allNodes exprs) := by
  induction exprs with
  | nil => exact .nil
  | cons expr rest ih =>
    obtain ⟨hexpr, hrest⟩ := List.forall_mem_cons.1 h
    exact hexpr.append (ih hrest)

/-- The operations in statements are located if those of each statement are. -/
theorem stmts {stmts : List (Stmt P)} (h : ∀ stmt ∈ stmts, OperationsIn root stmt.nodes) :
    OperationsIn root (Stmt.allNodes stmts) := by
  induction stmts with
  | nil => exact .nil
  | cons stmt rest ih =>
    obtain ⟨hstmt, hrest⟩ := List.forall_mem_cons.1 h
    exact hstmt.append (ih hrest)

end OperationsIn

/-- An expression begins and ends where a slice does, and its operations are located in the trees
around the slice. -/
structure Expr.ReadFrom (root part : List (Tree P)) (expr : Expr P) : Prop where
  begins : Begins expr.span.start part
  ends : Ends expr.span.stop part
  operations : OperationsIn root expr.nodes

/-! ## Reading -/

open Outcome

namespace Reader

/-- The readings one level deeper locate the operations that they find in slices of some trees. -/
structure Locates (root : List (Tree P)) (inner : Reader P) : Prop where
  expr : ∀ origin trees, Slice trees root →
    (inner.expr origin trees).Yields (Expr.ReadFrom root trees)
  block : ∀ outline, outline.SlicesOf root →
    (inner.block outline).Yields fun block => OperationsIn root block.nodes

variable {inner : Reader P} {root trees : List (Tree P)}

/-- What is read from a token begins and ends where the token does. -/
theorem readToken_located (token : Token P) :
    (readToken token).Yields (Expr.ReadFrom root [.leaf token]) := by
  have hleaf {expr : Expr P} (hnodes : expr.nodes = [expr]) (hspan : expr.span = token.span)
      (hexpr : ¬ ∃ op args span, expr = .operation op args span) :
      expr.ReadFrom root [.leaf token] :=
    ⟨hspan ▸ Tree.begins_cons (.leaf token) [], hspan ▸ Tree.ends_snoc [] (.leaf token),
      hnodes ▸ .cons (fun h => absurd h hexpr) .nil⟩
  unfold readToken
  split
  · exact .ok (hleaf rfl rfl nofun)
  · exact .ok (hleaf rfl rfl nofun)
  · split
    · exact .ok (hleaf rfl rfl nofun)
    · exact .error _
  · exact .ok (hleaf rfl rfl nofun)
  · exact .error _

/-- What is read from a tree begins and ends in it, and its operations are located. -/
theorem readPrimary_located (hi : inner.Locates root) {tree : Tree P} (h : Slice [tree] root) :
    (inner.readPrimary tree).Yields (Expr.ReadFrom root [tree]) := by
  unfold readPrimary
  split
  · exact readToken_located _
  · rename_i children span
    exact (hi.expr _ _ (h.of_group (.head _))).mono fun expr hexpr =>
      ⟨hexpr.begins.group span, hexpr.ends.group span, hexpr.operations⟩
  · exact .error _

/-- A prefix operation is located in the slice that it is read from, and so are those in its
operand. -/
theorem readPrefixed_located (hd : inner.Decides) (hi : inner.Locates root) {token : Token P}
    (hk : token.kind = .operator) {rest : List (Tree P)} (h : Slice (.leaf token :: rest) root) :
    (inner.readPrefixed token rest).Yields (Expr.ReadFrom root (.leaf token :: rest)) := by
  have hrest : Slice rest root := .trans (.here (List.suffix_cons _ _).isInfix) h
  unfold readPrefixed
  split
  · exact .error _
  · rename_i op ho
    intro expr hexpr
    obtain ⟨operand, hoperand, hexpr⟩ := Outcome.bind_eq_ok.1 hexpr
    cases hexpr
    have hspells := (spellsExpr_prefixed_iff hk).2
      ⟨op, ho, operand, (hd.expr _ rest).yields operand hoperand, rfl⟩
    obtain ⟨-, hends, hoperations⟩ := hi.expr _ rest hrest operand hoperand
    have hbegins : Begins token.span.start (.leaf token :: rest) := Tree.begins_cons (.leaf token) rest
    have hends : Ends operand.span.stop (.leaf token :: rest) := hends.append [.leaf token]
    refine ⟨hbegins, hends, .cons (fun _ => ?_) (hoperations.append .nil)⟩
    exact ⟨_, token, h, .head _, hspells, hbegins, hends⟩

/-- The operations in a callee and its arguments are located. -/
theorem readCall_located (hi : inner.Locates root) {callee : Tree P} {args : Region P}
    (h : Slice [callee, .group .paren args.trees args.span] root) :
    (inner.readCall callee args).Yields
      (Expr.ReadFrom root [callee, .group .paren args.trees args.span]) := by
  have hcallee : Slice [callee] root := .trans (.here ⟨[], _, rfl⟩) h
  have hargs : Slice args.trees root := h.of_group (.tail _ (.head _))
  have hvalues : ((Tree.commaParts args.trees).mapM (inner.expr args.span.start)).Yields
      (∀ value ∈ ·, OperationsIn root value.nodes) := .mapM fun part hpart =>
    (hi.expr _ part (.trans (.here (Tree.isInfix_of_mem_commaParts hpart)) hargs)).mono
      fun _ hvalue => hvalue.operations
  exact (readPrimary_located hi hcallee).bind fun function hfunction =>
    hvalues.bind fun values hvalues => .ok ⟨Tree.begins_cons callee _, Tree.ends_snoc [callee] _,
      .cons (by rintro ⟨_, _, _, ⟨⟩⟩) (hfunction.operations.append (.allNodes hvalues))⟩

/-- The operations in the body of a function literal are located. -/
theorem readFunction_located (hroot : Tree.AllSpelled root) (hi : inner.Locates root)
    {params body : Region P} {arrow : Tree P}
    (h : Slice [.group .paren params.trees params.span, arrow,
      .group .brace body.trees body.span] root) :
    (inner.readFunction params body).Yields
      (Expr.ReadFrom root [.group .paren params.trees params.span, arrow,
        .group .brace body.trees body.span]) := by
  have hbody : Slice body.trees root := h.of_group (.tail _ (.tail _ (.head _)))
  have houtline : (Outline.ofRegion body).Yields (Outline.Block.SlicesOf root) :=
    fun _ houtline => Outline.ofRegion_slicesOf hroot hbody houtline
  refine Yields.bind (p := fun _ => True) (fun _ _ => trivial) fun names _ =>
    houtline.bind fun outline hslices => (hi.block outline hslices).bind fun block hblock =>
      .ok ⟨Tree.begins_cons _ _, Tree.ends_snoc [_, _] _, .cons (by rintro ⟨_, _, _, ⟨⟩⟩) hblock⟩

/-- Folding the links of a chain from the left locates the operations. The induction is from the last
link on, since what is folded before it is read from a front of the chain that is cut alike. -/
theorem foldlM_readLink_located (hd : inner.Decides) (hi : inner.Locates root) {power : Nat}
    (origin : P) (operand : List (Tree P)) (links : List (Chain.Link P)) {trees : List (Tree P)}
    (hcuts : Chain.Cuts power true trees operand links) (h : Slice trees root)
    (hfirst : ¬ Chain.AtOperator trees) :
    Yields (Expr.ReadFrom root trees) (do
      let first ← inner.expr origin operand
      links.foldlM inner.readLink first) := by
  induction links using List.reverseRecOn generalizing trees with
  | nil =>
    cases hcuts with
    | operand => exact (hi.expr _ _ h).bind fun first hfirst => .ok hfirst
  | append_singleton links link ih =>
    intro expr hexpr
    have hjoined := (foldlM_readLink_decides hd hcuts rfl origin id).yields expr hexpr
    obtain ⟨front, token, rfl, hk, hfront⟩ := hcuts.of_concat
    have hhead : ¬ Chain.AtOperator front := by
      intro hat
      exact hfirst (hat.append (Chain.isKind_operator_leaf hk))
    have hslice : Slice front root := .trans (.here (List.prefix_append front _).isInfix) h
    have hoperand : Slice link.operand root :=
      .trans (.here ⟨front ++ [.leaf token], [], by simp⟩) h
    -- The last link makes the operation: what is folded before it is its left operand.
    obtain ⟨first, hread, hfold⟩ := Outcome.bind_eq_ok.1 hexpr
    rw [List.foldlM_append] at hfold
    obtain ⟨left, hleft, hlast⟩ := Outcome.bind_eq_ok.1 hfold
    obtain ⟨node, hnode, hexpr⟩ := Outcome.bind_eq_ok.1 hlast
    obtain ⟨right, hright, hnode⟩ := Outcome.bind_eq_ok.1 hnode
    cases hexpr
    have hspells : SpellsExpr (front ++ .leaf token :: link.operand) expr := by
      cases front with
      | nil => exact absurd trivial hhead
      | cons tree rest =>
        have htree : tree.isKind .operator = false := Bool.eq_false_iff.2 hhead
        exact spellsExpr_iff.2 ((Climb.joined_iff htree hcuts.atLeast).2 hjoined)
    cases hnode
    have hleft := ih hfront hslice hhead left (Outcome.bind_eq_ok.2 ⟨first, hread, hleft⟩)
    have hright := hi.expr _ _ hoperand right hright
    have hbegins : Begins left.span.start (front ++ .leaf token :: link.operand) :=
      hleft.begins.append _
    have hends : Ends right.span.stop (front ++ .leaf token :: link.operand) :=
      (hright.ends.append [.leaf token]).append front
    refine ⟨hbegins, hends, .cons (fun _ => ?_)
      (hleft.operations.append (hright.operations.append .nil))⟩
    exact ⟨_, token, h, by simp, hspells, hbegins, hends⟩

/-- The operations of a chain are located: each spells a front of the slice that the operator
is in. -/
theorem readChain_located (hd : inner.Decides) (hi : inner.Locates root) (origin : P)
    (h : Slice trees root) (hfirst : ¬ Chain.AtOperator trees) :
    (inner.readChain origin trees).Yields (Expr.ReadFrom root trees) := by
  unfold readChain
  simp only
  split
  · split
    · exact .error _
    · exact .error _
  · rename_i power hlowest
    exact foldlM_readLink_located hd hi _ _ _ (Chain.cut_cuts (Chain.atLeast_lowestPower? hlowest)) h
      hfirst

/-- One level of reading locates operations if the levels below do. -/
theorem readSlice_located (hroot : Tree.AllSpelled root) (hd : inner.Decides)
    (hi : inner.Locates root) (origin : P) (h : Slice trees root) :
    (inner.readSlice origin trees).Yields (Expr.ReadFrom root trees) := by
  unfold readSlice
  split
  · exact .error _
  · exact readPrimary_located hi h
  · rename_i first rest _
    split
    · rename_i token htoken
      obtain ⟨rfl, hk⟩ := Tree.token?_eq_some_iff.1 htoken
      exact readPrefixed_located hd hi hk h
    · rename_i htoken
      split
      · rename_i callee args hshape
        obtain ⟨-, htrees⟩ := shapeOf_eq_call hshape
        rw [htrees] at h ⊢
        exact readCall_located hi h
      · rename_i params body hshape
        obtain ⟨arrow, -, htrees⟩ := shapeOf_eq_function hshape
        rw [htrees] at h ⊢
        exact readFunction_located hroot hi h
      · refine readChain_located hd hi origin h fun hat => ?_
        obtain ⟨token, rfl, hk⟩ := Chain.isKind_operator_eq_true_iff.1 hat
        exact absurd (Tree.token?_eq_some_iff.2 ⟨rfl, hk⟩) (by rw [htoken]; exact nofun)

/-- The operations in a statement are located in the trees that its outline has slices of. -/
theorem readStmt_located (hi : inner.Locates root) {outline : Outline.Stmt P}
    (h : outline.SlicesOf root) :
    (inner.readStmt outline).Yields fun stmt => OperationsIn root stmt.nodes := by
  unfold readStmt
  split
  · exact Yields.bind (p := fun _ => True) (fun _ _ => trivial) fun _ _ =>
      (hi.expr _ _ h).bind fun _ hvalue => .ok hvalue.operations
  · exact (hi.expr _ _ h).bind fun _ hvalue => .ok hvalue.operations
  · exact (hi.expr _ _ h.1).bind fun _ hcondition => (hi.block _ h.2.1).bind fun _ hyes =>
      (hi.block _ h.2.2).bind fun _ hno => .ok (hcondition.operations.append (hyes.append hno))
  · exact (hi.expr _ _ h.1).bind fun _ hcondition => (hi.block _ h.2).bind fun _ hbody =>
      .ok (hcondition.operations.append hbody)
  · exact (hi.expr _ _ h).bind fun _ hvalue => .ok hvalue.operations
  · exact .ok .nil
  · exact (hi.expr _ _ h).bind fun _ hvalue => .ok hvalue.operations

/-- One level of reading blocks locates operations if the levels below do. -/
theorem readBlock_located (hi : inner.Locates root) {outline : Outline.Block P}
    (h : outline.SlicesOf root) :
    (inner.readBlock outline).Yields fun block => OperationsIn root block.nodes := by
  cases outline with
  | mk outlines span =>
    exact (Yields.mapM fun stmt hstmt =>
      readStmt_located hi (Outline.Stmt.allSlicesOf_iff.1 h stmt hstmt)).bind fun _ hstmts =>
        .ok (.stmts hstmts)

/-- Operations are located whatever the budget. -/
theorem ofBudget_locates (hroot : Tree.AllSpelled root) (limit budget : Nat) :
    (ofBudget (P := P) limit budget).Locates root := by
  induction budget with
  | zero => exact ⟨fun _ _ _ => .error _, fun _ _ => .error _⟩
  | succ budget ih =>
    have hd := ofBudget_decides (P := P) limit budget
    exact ⟨fun origin _ h => readSlice_located hroot hd ih origin h, fun _ h => readBlock_located ih h⟩

end Reader

/-- The operations in a program are located in the trees of its tokens. -/
theorem Block.ofTokens_located {limit : Nat} {origin : P} {tokens : List (Token P)}
    {program : Block P} (hs : ∀ token ∈ tokens, token.Spelled)
    (h : Block.ofTokens limit origin tokens = .ok program) :
    ∃ region, nest limit origin tokens = .ok region ∧ OperationsIn region.trees program.nodes := by
  obtain ⟨region, hregion, h⟩ := Outcome.bind_eq_ok.1 h
  obtain ⟨outline, houtline, h⟩ := Outcome.bind_eq_ok.1 h
  have hroot : Tree.AllSpelled region.trees := Tree.holds_of_nest hregion hs
  have hslices := Outline.ofRegion_slicesOf hroot (.here (List.infix_refl _)) houtline
  exact ⟨region, hregion, (Reader.ofBudget_locates hroot limit limit).block outline hslices _ h⟩

end LetWhile
