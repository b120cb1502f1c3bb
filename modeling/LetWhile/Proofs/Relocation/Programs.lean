import LetWhile.Program.OfTrees
import LetWhile.Proofs.Relocation.Outlines

/-!
# Relocating programs

Reading hands positions on, at every level (`Reader.ofBudget_relocates`), so what is read of a list
of tokens does not depend on where the tokens stand but for the positions of its nodes and of its
faults (`Block.ofTokens_relocate`).
-/

namespace LetWhile

variable {P Q : Type}

open Outcome

/-! ## Programs at another place -/

mutual

/-- An expression at another place. -/
def Expr.map (f : P → Q) : Expr P → Expr Q
  | .boolean value span => .boolean value (span.map f)
  | .number value span => .number value (span.map f)
  | .string value span => .string value (span.map f)
  | .symbol name span => .symbol name (span.map f)
  | .operation op args span => .operation op (Expr.mapAll f args) (span.map f)
  | .call callee args span => .call (callee.map f) (Expr.mapAll f args) (span.map f)
  | .function params body span => .function params (body.map f) (span.map f)

/-- A list of expressions at another place. -/
def Expr.mapAll (f : P → Q) : List (Expr P) → List (Expr Q)
  | [] => []
  | expr :: rest => expr.map f :: Expr.mapAll f rest

/-- A statement at another place. -/
def Stmt.map (f : P → Q) : Stmt P → Stmt Q
  | .declare name type value span => .declare name type (value.map f) (span.map f)
  | .assign name value span => .assign name (value.map f) (span.map f)
  | .branch condition yes no span =>
    .branch (condition.map f) (yes.map f) (no.map f) (span.map f)
  | .loop condition body span => .loop (condition.map f) (body.map f) (span.map f)
  | .returnValue value span => .returnValue (value.map f) (span.map f)
  | .returnVoid span => .returnVoid (span.map f)
  | .expression value span => .expression (value.map f) (span.map f)

/-- A list of statements at another place. -/
def Stmt.mapAll (f : P → Q) : List (Stmt P) → List (Stmt Q)
  | [] => []
  | stmt :: rest => stmt.map f :: Stmt.mapAll f rest

/-- A block at another place. -/
def Block.map (f : P → Q) : Block P → Block Q
  | .mk stmts span => .mk (Stmt.mapAll f stmts) (span.map f)

end

/-- Expressions are moved one by one. -/
@[simp]
theorem Expr.mapAll_eq_map (f : P → Q) (exprs : List (Expr P)) :
    Expr.mapAll f exprs = exprs.map (Expr.map f) := by
  induction exprs with
  | nil => rfl
  | cons expr rest ih => rw [Expr.mapAll, ih, List.map_cons]

/-- Statements are moved one by one. -/
@[simp]
theorem Stmt.mapAll_eq_map (f : P → Q) (stmts : List (Stmt P)) :
    Stmt.mapAll f stmts = stmts.map (Stmt.map f) := by
  induction stmts with
  | nil => rfl
  | cons stmt rest ih => rw [Stmt.mapAll, ih, List.map_cons]

/-- Statements are moved in front of others as by themselves. -/
theorem Stmt.mapAll_append (f : P → Q) (stmts more : List (Stmt P)) :
    Stmt.mapAll f (stmts ++ more) = Stmt.mapAll f stmts ++ Stmt.mapAll f more := by
  simp

/-- The statements of a moved block are the moved statements. -/
theorem Block.stmts_map (f : P → Q) (block : Block P) :
    (block.map f).stmts = Stmt.mapAll f block.stmts := by
  cases block
  rfl

/-- A moved expression has the moved span. -/
@[simp]
theorem Expr.span_map (f : P → Q) (expr : Expr P) : (expr.map f).span = expr.span.map f := by
  cases expr <;> simp [Expr.map, Expr.span]

section
variable {R : Type} (f : P → Q) (g : Q → R)

/-- A span that is moved twice is moved by both functions at once. -/
theorem Span.map_map (span : Span P) : (span.map f).map g = span.map (g ∘ f) := rfl

mutual

/-- An expression that is moved twice is moved by both functions at once. -/
theorem Expr.map_map : ∀ expr : Expr P, (expr.map f).map g = expr.map (g ∘ f)
  | .boolean .. | .number .. | .string .. | .symbol .. => rfl
  | .operation op args span => by
    simp only [Expr.map, Span.map_map, Expr.mapAll_mapAll args]
  | .call callee args span => by
    simp only [Expr.map, Span.map_map, callee.map_map, Expr.mapAll_mapAll args]
  | .function params body span => by simp only [Expr.map, Span.map_map, body.map_map]

/-- Expressions that are moved twice are moved by both functions at once. -/
theorem Expr.mapAll_mapAll : ∀ exprs : List (Expr P),
    Expr.mapAll g (Expr.mapAll f exprs) = Expr.mapAll (g ∘ f) exprs
  | [] => rfl
  | expr :: rest => by simp only [Expr.mapAll, expr.map_map, Expr.mapAll_mapAll rest]

/-- A statement that is moved twice is moved by both functions at once. -/
theorem Stmt.map_map : ∀ stmt : Stmt P, (stmt.map f).map g = stmt.map (g ∘ f)
  | .declare name type value span => by simp only [Stmt.map, Span.map_map, value.map_map]
  | .assign name value span => by simp only [Stmt.map, Span.map_map, value.map_map]
  | .branch condition yes no span => by
    simp only [Stmt.map, Span.map_map, condition.map_map, yes.map_map, no.map_map]
  | .loop condition body span => by
    simp only [Stmt.map, Span.map_map, condition.map_map, body.map_map]
  | .returnValue value span => by simp only [Stmt.map, Span.map_map, value.map_map]
  | .returnVoid _ => rfl
  | .expression value span => by simp only [Stmt.map, Span.map_map, value.map_map]

/-- Statements that are moved twice are moved by both functions at once. -/
theorem Stmt.mapAll_mapAll : ∀ stmts : List (Stmt P),
    Stmt.mapAll g (Stmt.mapAll f stmts) = Stmt.mapAll (g ∘ f) stmts
  | [] => rfl
  | stmt :: rest => by simp only [Stmt.mapAll, stmt.map_map, Stmt.mapAll_mapAll rest]

/-- Moving a program twice is moving it once. -/
theorem Block.map_map : ∀ block : Block P, (block.map f).map g = block.map (g ∘ f)
  | .mk stmts span => by simp only [Block.map, Span.map_map, Stmt.mapAll_mapAll stmts]

end

end

/-! ## Types -/

/-- Trees that are no type are a fault at the moved front of them, with the same text. -/
theorem Ty.invalid_map (f : P → Q) (origin : P) (trees : List (Tree P)) :
    (⟨.invalidType (Tree.render trees), Tree.startOr origin trees⟩ : Fault P).map f =
      ⟨.invalidType (Tree.render (trees.map (Tree.map f))),
        Tree.startOr (f origin) (trees.map (Tree.map f))⟩ := by
  simp [Fault.map]

/-- Moved trees are read as the same type, or fail at the moved place. -/
theorem Ty.ofTrees_relocate (f : P → Q) (limit : Nat) : ∀ (budget : Nat) (origin : P)
    (trees : List (Tree P)), (Ty.ofTrees limit budget origin trees).relocate f id =
      Ty.ofTrees limit budget (f origin) (trees.map (Tree.map f))
  | 0, origin, trees => by simp [Ty.ofTrees, Fault.map]
  | _ + 1, origin, [] | _ + 1, origin, [.group .brace _ _] | _ + 1, origin, .leaf _ :: _ :: _
  | _ + 1, origin, .group .brace _ _ :: _ :: _ | _ + 1, origin, [.group .paren _ _, _] =>
    congrArg Except.error (Ty.invalid_map f origin _)
  | budget + 1, origin, [.leaf token] => by
    have hinvalid := Ty.invalid_map f origin [.leaf token]
    simp only [List.map_cons, List.map_nil, Tree.map_leaf, Ty.ofTrees] at hinvalid ⊢
    by_cases hk : token.kind = .typeName
    · rw [if_pos hk, if_pos (show (token.map f).kind = .typeName from hk)]
      rfl
    · rw [if_neg hk, if_neg (show ¬ (token.map f).kind = .typeName from hk)]
      exact congrArg Except.error hinvalid
  | budget + 1, origin, [.group .paren children span] => by
    simp only [List.map_cons, List.map_nil, Tree.map_group, Ty.ofTrees]
    exact Ty.ofTrees_relocate f limit budget span.start children
  | budget + 1, origin, .group .paren params span :: arrow :: tree :: rest => by
    have hinvalid := Ty.invalid_map f origin (.group .paren params span :: arrow :: tree :: rest)
    simp only [List.map_cons, Tree.map_group, Ty.ofTrees, Tree.isKind_map] at hinvalid ⊢
    split
    · have hparams := relocate_mapM (Tree.commaParts params)
        fun part => Ty.ofTrees_relocate f limit budget span.start part
      rw [List.map_id_fun, ← Tree.commaParts_map] at hparams
      refine relocate_bind hparams fun types => ?_
      rw [Tree.span_map]
      have hresult := Ty.ofTrees_relocate f limit budget arrow.span.stop (tree :: rest)
      exact relocate_bind hresult fun result => rfl
    · exact congrArg Except.error hinvalid

/-! ## Chains -/

namespace Chain

/-- A link at another place. -/
def Link.map (f : P → Q) (link : Link P) : Link Q :=
  ⟨link.op, link.span.map f, link.operand.map (Tree.map f)⟩

/-- A moved tree is the joint of a chain if the tree is, and the token of it is moved. -/
theorem joint?_map (f : P → Q) (bound : Bool) (tree : Tree P) :
    joint? bound (tree.map f) = (joint? bound tree).map (Token.map f) := by
  unfold joint?
  split
  · rfl
  · exact Tree.token?_map f .operator tree

/-- The joints of moved trees are the moved joints. -/
theorem joints_map (f : P → Q) (bound : Bool) (trees : List (Tree P)) :
    joints bound (trees.map (Tree.map f)) = (joints bound trees).map (Token.map f) := by
  induction trees generalizing bound with
  | nil => rfl
  | cons tree rest ih =>
    rw [List.map_cons, joints, joints, joint?_map, Tree.isKind_map, ih, List.map_append]
    cases joint? bound tree <;> rfl

/-- How strongly operators bind does not depend on where they stand. -/
theorem lowestPower?_map (f : P → Q) (tokens : List (Token P)) :
    lowestPower? (tokens.map (Token.map f)) = lowestPower? tokens := by
  unfold lowestPower?
  rw [List.filterMap_map]
  rfl

/-- A chain of moved trees is cut at the same joints. -/
theorem cut_map (f : P → Q) (power : Nat) (bound : Bool) (trees : List (Tree P)) :
    cut power bound (trees.map (Tree.map f)) =
      ((cut power bound trees).1.map (Tree.map f), (cut power bound trees).2.map (Link.map f)) := by
  induction trees generalizing bound with
  | nil => rfl
  | cons tree rest ih =>
    rw [List.map_cons]
    unfold cut
    rw [Tree.isKind_map, ih, joint?_map]
    cases joint? bound tree with
    | none => rfl
    | some token =>
      simp only [Option.map_some, Option.bind_some]
      have : operatorOf? power (token.map f) = operatorOf? power token := rfl
      rw [this]
      cases operatorOf? power token <;> rfl

end Chain

/-! ## One level -/

namespace Reader

/-- Two readers hand positions on alike. -/
structure Relocates (f : P → Q) (inner : Reader P) (inner' : Reader Q) : Prop where
  expr : ∀ origin trees,
    (inner.expr origin trees).relocate f (Expr.map f) =
      inner'.expr (f origin) (trees.map (Tree.map f))
  type : ∀ origin trees,
    (inner.type origin trees).relocate f id = inner'.type (f origin) (trees.map (Tree.map f))
  block : ∀ outline,
    (inner.block outline).relocate f (Block.map f) = inner'.block (outline.map f)

variable {f : P → Q} {inner : Reader P} {inner' : Reader Q}

/-- A moved token is read as the moved expression. -/
theorem readToken_relocate (f : P → Q) (token : Token P) :
    (readToken token).relocate f (Expr.map f) = readToken (token.map f) := by
  unfold readToken
  simp only [Token.map]
  split
  · simp [Expr.map]
  · simp [Expr.map]
  · cases Text.integerOf token.text <;> simp [Expr.map, Fault.map, Span.map]
  · simp [Expr.map]
  · simp [Fault.map, Span.map]

/-- A moved primary is read as the moved expression, if what is in its parentheses is. -/
theorem readPrimary_relocate (h : Relocates f inner inner') (tree : Tree P) :
    (inner.readPrimary tree).relocate f (Expr.map f) = inner'.readPrimary (tree.map f) := by
  cases tree with
  | leaf token =>
    rw [Tree.map_leaf]
    exact readToken_relocate f token
  | group bracket children span =>
    cases bracket with
    | paren =>
      rw [Tree.map_group]
      exact h.expr span.start children
    | brace =>
      have := Tree.text_map f (.group .brace children span)
      rw [Tree.map_group] at this ⊢
      simp only [readPrimary, relocate_error]
      rw [this]
      rfl

/-- A prefix operator in front of moved trees is read as the moved call. -/
theorem readPrefixed_relocate (h : Relocates f inner inner') (token : Token P)
    (rest : List (Tree P)) : (inner.readPrefixed token rest).relocate f (Expr.map f) =
      inner'.readPrefixed (token.map f) (rest.map (Tree.map f)) := by
  unfold readPrefixed
  simp only [Token.map]
  cases PrefixOp.ofSymbol? token.text with
  | none => rfl
  | some op =>
    refine relocate_bind (h.expr token.span.stop rest) fun operand => ?_
    simp [Expr.map, Span.through, Span.map]

/-- A call of moved trees is read as the moved call. -/
theorem readCall_relocate (h : Relocates f inner inner') (callee : Tree P) (args : Region P) :
    (inner.readCall callee args).relocate f (Expr.map f) =
      inner'.readCall (callee.map f) (args.map f) := by
  unfold readCall
  refine relocate_bind (readPrimary_relocate h callee) fun function => ?_
  simp only [Region.map, Tree.commaParts_map]
  refine relocate_bind (relocate_mapM _ fun part => h.expr args.span.start part) fun values => ?_
  simp [Expr.map, Span.through, Span.map]

/-- Names of parameters are read alike from moved trees. -/
theorem parameterName_relocate (f : P → Q) (origin : P) (part : List (Tree P)) :
    (parameterName origin part).relocate f id =
      parameterName (f origin) (part.map (Tree.map f)) := by
  cases part with
  | nil => rfl
  | cons tree rest =>
    have := Tree.render_map f (tree :: rest)
    rw [List.map_cons] at this ⊢
    simp only [parameterName, Tree.token?_map, this]
    cases tree.token? .identifier with
    | none => simp [Fault.map, Span.map]
    | some token => cases rest <;> simp [Fault.map, Span.map, Token.map]

/-- A function literal of moved trees is read as the moved function. -/
theorem readFunction_relocate (h : Relocates f inner inner') (params body : Region P) :
    (inner.readFunction params body).relocate f (Expr.map f) =
      inner'.readFunction (params.map f) (body.map f) := by
  unfold readFunction
  have hnames := relocate_mapM (Tree.commaParts params.trees)
    fun part => parameterName_relocate f params.span.start part
  rw [List.map_id_fun] at hnames
  simp only [Region.map, Tree.commaParts_map]
  refine relocate_bind hnames fun names =>
    relocate_bind (Outline.ofRegion_relocate f body) fun outline =>
      relocate_bind (h.block outline) fun block => ?_
  simp [Expr.map, Span.through, Span.map]

/-- A link of a moved chain is joined to what is left of it as the moved call. -/
theorem readLink_relocate (h : Relocates f inner inner') (left : Expr P) (link : Chain.Link P) :
    (inner.readLink left link).relocate f (Expr.map f) =
      inner'.readLink (left.map f) (link.map f) := by
  unfold readLink
  refine relocate_bind (h.expr link.span.stop link.operand) fun right => ?_
  simp [Expr.map, Span.through, Span.map, Chain.Link.map]

/-- A moved chain of operators is read as the moved expression. -/
theorem readChain_relocate (h : Relocates f inner inner') (origin : P) (trees : List (Tree P)) :
    (inner.readChain origin trees).relocate f (Expr.map f) =
      inner'.readChain (f origin) (trees.map (Tree.map f)) := by
  unfold readChain
  simp only [Chain.joints_map, Chain.lowestPower?_map, Chain.cut_map, Tree.startOr_map]
  cases Chain.lowestPower? (Chain.joints true trees) with
  | none =>
    cases Chain.joints true trees with
    | nil => simp [unrecognised, Fault.map]
    | cons token tokens => simp [unknownOperator, Fault.map, Token.map, Span.map]
  | some power =>
    exact relocate_bind (h.expr _ _) fun first =>
      relocate_foldlM _ (readLink_relocate h) first

/-- A shape at another place. -/
def Shape.map (f : P → Q) : Shape P → Shape Q
  | call callee args => call (callee.map f) (args.map f)
  | function params body => function (params.map f) (body.map f)
  | chain => chain

/-- A tree can be called wherever it stands. -/
theorem isCallable_map (f : P → Q) (tree : Tree P) :
    isCallable (tree.map f) = isCallable tree := by
  simp [isCallable]

/-- Moved trees have the same shape, with its parts moved. -/
theorem shapeOf_map (f : P → Q) (trees : List (Tree P)) :
    shapeOf (trees.map (Tree.map f)) = (shapeOf trees).map f := by
  match trees with
  | [] | [_] | _ :: _ :: _ :: _ :: _ => rfl
  | [callee, args] =>
    simp only [List.map_cons, List.map_nil, shapeOf, isCallable_map, Tree.region?_map]
    cases args.region? .paren with
    | none => rfl
    | some args =>
      simp only [Option.map_some]
      cases isCallable callee <;> rfl
  | [params, arrow, body] =>
    simp only [List.map_cons, List.map_nil, shapeOf, Tree.region?_map, Tree.isKind_map]
    cases params.region? .paren with
    | none => rfl
    | some params =>
      cases body.region? .brace with
      | none => rfl
      | some body =>
        simp only [Option.map_some]
        split <;> rfl

/-- A moved slice is read as the moved expression. The cases are those of the shapes of slices. -/
theorem readSlice_relocate (h : Relocates f inner inner') (origin : P) (trees : List (Tree P)) :
    (inner.readSlice origin trees).relocate f (Expr.map f) =
      inner'.readSlice (f origin) (trees.map (Tree.map f)) := by
  match trees with
  | [] => rfl
  | [tree] => exact readPrimary_relocate h tree
  | first :: second :: rest =>
    have hshape := shapeOf_map f (first :: second :: rest)
    have hchain := readChain_relocate h origin (first :: second :: rest)
    simp only [List.map_cons] at hshape hchain
    simp only [List.map_cons, readSlice, Tree.token?_map, hshape]
    cases first.token? .operator with
    | some token => exact readPrefixed_relocate h token (second :: rest)
    | none =>
      cases shapeOf (first :: second :: rest) with
      | call callee args => exact readCall_relocate h callee args
      | function params body => exact readFunction_relocate h params body
      | chain => exact hchain

/-- A moved outline of a statement is read as the moved statement. -/
theorem readStmt_relocate (h : Relocates f inner inner') (outline : Outline.Stmt P) :
    (inner.readStmt outline).relocate f (Stmt.map f) = inner'.readStmt (outline.map f) := by
  cases outline with
  | declare name type value span =>
    exact relocate_bind (h.type span.start type) fun type =>
      relocate_bind (h.expr span.stop value) fun value => rfl
  | assign name value span => exact relocate_bind (h.expr span.stop value) fun value => rfl
  | branch condition yes no span =>
    exact relocate_bind (h.expr condition.span.start condition.trees) fun condition =>
      relocate_bind (h.block yes) fun yes => relocate_bind (h.block no) fun no => rfl
  | loop condition body span =>
    exact relocate_bind (h.expr condition.span.start condition.trees) fun condition =>
      relocate_bind (h.block body) fun body => rfl
  | returnValue value span => exact relocate_bind (h.expr span.stop value) fun value => rfl
  | returnVoid span => rfl
  | expression value span => exact relocate_bind (h.expr span.start value) fun value => rfl

/-- A moved outline of a block is read as the moved block. -/
theorem readBlock_relocate (h : Relocates f inner inner') (outline : Outline.Block P) :
    (inner.readBlock outline).relocate f (Block.map f) = inner'.readBlock (outline.map f) := by
  cases outline with
  | mk outlines span =>
    rw [Outline.Block.map_mk]
    refine relocate_bind (relocate_mapM outlines (readStmt_relocate h)) fun stmts => ?_
    rw [relocate_ok, Block.map, Stmt.mapAll_eq_map]
    rfl

/-- Reading hands positions on at every level. -/
theorem ofBudget_relocates (f : P → Q) (limit budget : Nat) :
    Relocates f (ofBudget limit budget) (ofBudget limit budget) := by
  induction budget with
  | zero =>
    refine ⟨fun origin trees => ?_, Ty.ofTrees_relocate f limit 0, fun outline => ?_⟩
    · simp [ofBudget, Expr.ofTrees, Fault.map]
    · simp [ofBudget, Block.ofOutline, Fault.map, Span.map]
  | succ budget ih =>
    exact ⟨readSlice_relocate ih, Ty.ofTrees_relocate f limit (budget + 1),
      readBlock_relocate ih⟩

end Reader

/-- What a list of tokens spells does not depend on where the tokens stand. -/
theorem Block.ofTokens_relocate (f : P → Q) (limit : Nat) (origin : P) (tokens : List (Token P)) :
    (Block.ofTokens limit origin tokens).relocate f (Block.map f) =
      Block.ofTokens limit (f origin) (tokens.map (Token.map f)) :=
  relocate_bind (nest_relocate f limit origin tokens) fun region =>
    relocate_bind (Outline.ofRegion_relocate f region) fun outline =>
      (Reader.ofBudget_relocates f limit limit).block outline

end LetWhile
