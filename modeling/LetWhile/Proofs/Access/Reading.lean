import LetWhile.Proofs.Access.Chains
import LetWhile.Proofs.Access.Nesting
import LetWhile.Proofs.Access.Outlining
import LetWhile.Proofs.Program.Decision
import LetWhile.Proofs.Scanning.Words

/-!
# Reading by indices

The form of a slice is told from its length and from the trees at the indices that this length
allows. The value of a string literal is the part of its text between the quotes, which is cut out
by byte offsets: they are in range since a string literal has two quotes, of one byte each
(`Kind.Admits`). So tokens that look like those of a source are read as a program without going out
of range (`Indexed.ofTokens_gives`).
-/

namespace LetWhile

namespace Indexed
variable {P : Type}

open Text (utf8Size)

/-- How slices and blocks are read one level deeper. The position locates an empty slice. -/
structure Reader (P : Type) where
  expr : P → List (Tree P) → Indexed P (Expr P)
  type : P → List (Tree P) → Indexed P Ty
  block : Outline.Block P → Indexed P (Block P)

namespace Reader

/-! ## Expressions -/

/-- The fault of a slice that has the form of no expression. -/
def unrecognised (elements : List (Tree P)) : Indexed P (Fault P) := do
  let first ← access (element elements 0)
  pure ⟨.unrecognisedExpression (Tree.render elements), first.span.start⟩

/-- The value of a string literal. -/
def unquoted (literal : String) : Indexed P String := do
  let stop ← access (difference (utf8Size literal.toList) 1)
  let front ← access (textTo literal.toList stop)
  let inner ← access (textFrom front 1)
  pure (String.ofList (Text.unescapeQuotes inner))

/-- The expression that a single token is. -/
def readToken (token : Token P) : Indexed P (Expr P) :=
  match token.kind with
  | .identifier | .boolean | .number => ofOutcome (LetWhile.Reader.readToken token)
  | .string => do
    let value ← unquoted token.text
    pure (.string value token.span)
  | _ => do
    let fault ← unrecognised [.leaf token]
    throw fault

/-- The expression that a single tree is: a token, or an expression in parentheses. -/
def readPrimary (inner : Reader P) (tree : Tree P) : Indexed P (Expr P) :=
  match tree with
  | .leaf token => readToken token
  | .group .paren children span => inner.expr span.start children
  | .group .brace _ _ => do
    let fault ← unrecognised [tree]
    throw fault

/-- A prefix operator applied to the rest of its slice. -/
def readPrefixed (inner : Reader P) (token : Token P) (rest : List (Tree P)) :
    Indexed P (Expr P) :=
  match PrefixOp.ofSymbol? token.text with
  | none => throw (LetWhile.Reader.unknownOperator token)
  | some op => do
    let operand ← inner.expr token.span.stop rest
    pure (.operation (.prefixed op) [operand] (token.span.through operand.span))

/-- A call. -/
def readCall (inner : Reader P) (callee : Tree P) (args : Region P) : Indexed P (Expr P) := do
  let function ← inner.readPrimary callee
  let values ← (Tree.commaParts args.trees).mapM (inner.expr args.span.start)
  pure (.call function values (callee.span.through args.span))

/-- A function literal. -/
def readFunction (inner : Reader P) (params body : Region P) : Indexed P (Expr P) := do
  let names ← ofOutcome
    ((Tree.commaParts params.trees).mapM (LetWhile.Reader.parameterName params.span.start))
  let outline ← outlineRegion body
  let block ← inner.block outline
  pure (.function names block (params.span.through body.span))

/-- The expression that continues `left` with the operand after a split. The operand ends where the
next split is. -/
def readLink (inner : Reader P) (elements : List (Tree P)) (splits : List (Nat × BinaryOp))
    (left : Expr P) (split : (Nat × BinaryOp) × Nat) : Indexed P (Expr P) := do
  let stop := (splits[split.2 + 1]?.map Prod.fst).getD elements.length
  let operand ← access (slice elements (split.1.1 + 1) stop)
  let joint ← access (element elements split.1.1)
  let right ← inner.expr joint.span.stop operand
  pure (.operation (.binary split.1.2) [left, right] (left.span.through right.span))

/-- A chain of binary operators, cut at those of lowest power and folded from the left. -/
def readChain (inner : Reader P) (elements : List (Tree P)) : Indexed P (Expr P) := do
  let joints ← joints elements
  match Chain.lowestPower? (joints.map Prod.fst) with
  | none =>
    match joints with
    | [] => do
      let fault ← unrecognised elements
      throw fault
    | (token, _) :: _ => throw (LetWhile.Reader.unknownOperator token)
  | some power => do
    let splits := splitsOf power joints
    let first ← access (element splits 0)
    let operand ← access (sliceTo elements first.1)
    let head ← access (element elements 0)
    let left ← inner.expr head.span.start operand
    splits.zipIdx.foldlM (readLink inner elements splits) left

/-- The shape of a slice that does not begin with an operator. -/
def shapeOf (elements : List (Tree P)) : Indexed P (LetWhile.Reader.Shape P) :=
  if elements.length = 2 then do
    let callee ← access (element elements 0)
    let args ← access (element elements 1)
    pure (LetWhile.Reader.shapeOf [callee, args])
  else if elements.length = 3 then do
    let arrow ← access (element elements 1)
    let params ← access (element elements 0)
    let body ← access (element elements 2)
    pure (LetWhile.Reader.shapeOf [params, arrow, body])
  else pure .chain

/-- The expression that a slice spells. -/
def readSlice (inner : Reader P) (origin : P) (elements : List (Tree P)) : Indexed P (Expr P) :=
  if elements.length = 0 then throw ⟨.emptyExpression, origin⟩
  else if elements.length = 1 then do
    let only ← access (element elements 0)
    inner.readPrimary only
  else do
    let first ← access (element elements 0)
    match first.token? .operator with
    | some token => do
      let rest ← access (sliceFrom elements 1)
      inner.readPrefixed token rest
    | none => do
      let shape ← shapeOf elements
      match shape with
      | .call callee args => inner.readCall callee args
      | .function params body => inner.readFunction params body
      | .chain => inner.readChain elements

/-! ## Statements -/

/-- The statement that an outlined statement stands for. -/
def readStmt (inner : Reader P) : Outline.Stmt P → Indexed P (Stmt P)
  | .declare name type value span => do
    let type ← inner.type span.start type
    let value ← inner.expr span.stop value
    pure (.declare name type value span)
  | .assign name value span => do
    let value ← inner.expr span.stop value
    pure (.assign name value span)
  | .branch condition yes no span => do
    let condition ← inner.expr condition.span.start condition.trees
    let yes ← inner.block yes
    let no ← inner.block no
    pure (.branch condition yes no span)
  | .loop condition body span => do
    let condition ← inner.expr condition.span.start condition.trees
    let body ← inner.block body
    pure (.loop condition body span)
  | .returnValue value span => do
    let value ← inner.expr span.stop value
    pure (.returnValue value span)
  | .returnVoid span => pure (.returnVoid span)
  | .expression value span => do
    let value ← inner.expr span.start value
    pure (.expression value span)

/-- The block that an outlined block stands for. -/
def readBlock (inner : Reader P) (outline : Outline.Block P) : Indexed P (Block P) := do
  let stmts ← outline.stmts.mapM inner.readStmt
  pure (.mk stmts outline.span)

/-! ## All levels -/

/-- The readings with a budget of levels out of `limit`. -/
def ofBudget (limit : Nat) : Nat → Reader P
  | 0 =>
    { expr := fun origin trees => throw ⟨.nestingTooDeep limit, Tree.startOr origin trees⟩
      type := fun origin trees => ofOutcome (Ty.ofTrees limit 0 origin trees)
      block := fun outline => throw ⟨.nestingTooDeep limit, outline.span.start⟩ }
  | budget + 1 =>
    { expr := (ofBudget limit budget).readSlice
      type := fun origin trees => ofOutcome (Ty.ofTrees limit (budget + 1) origin trees)
      block := (ofBudget limit budget).readBlock }

end Reader

/-- The program that a list of tokens spells, with brackets and readings nested at most `limit`
deep. `origin` locates the program of no tokens. -/
def ofTokens (limit : Nat) (origin : P) (tokens : List (Token P)) : Indexed P (Block P) := do
  let region ← nest limit origin tokens
  let outline ← outlineRegion region
  (Reader.ofBudget limit limit).block outline

/-! ## In range -/

/-- A reader that goes by indices stays in range on what tokens look like, and reads what another
reader does. -/
structure Reader.Gives (indexed : Reader P) (reader : LetWhile.Reader P) : Prop where
  expr : ∀ origin trees, Tree.Holds (Token.Drawn Kind.Admits) trees →
    (indexed.expr origin trees).Gives (reader.expr origin trees)
  type : ∀ origin trees, (indexed.type origin trees).Gives (reader.type origin trees)
  block : ∀ outline, outline.Drawn Kind.Admits →
    (indexed.block outline).Gives (reader.block outline)

namespace Reader
variable {indexed : Reader P} {reader : LetWhile.Reader P}

/-- The front of a slice that is no expression is in range, if the slice is not empty. -/
theorem unrecognised_gives (origin : P) (tree : Tree P) (rest : List (Tree P)) :
    (unrecognised (tree :: rest)).Gives
      (.ok (LetWhile.Reader.unrecognised origin (tree :: rest))) :=
  .access_bind rfl (.pure _)

/-- A lone tree that is no expression is reported at its start. -/
theorem unrecognised_gives_lone (tree : Tree P) :
    (unrecognised [tree]).Gives (.ok ⟨.unrecognisedExpression tree.text, tree.span.start⟩) := by
  rw [← Tree.render_singleton]
  exact .access_bind rfl (.pure _)

/-- The quotes of a string literal are there to be taken off. -/
theorem unquoted_gives {literal : String} (h : Kind.string.Admits literal) :
    (unquoted (P := P) literal).Gives (.ok (Text.unquoted literal)) := by
  obtain ⟨body, hbody⟩ := h
  have hsize : difference (utf8Size ('"' :: (body ++ ['"']))) 1 =
      some (utf8Size ('"' :: body)) := by
    rw [← List.cons_append, Text.utf8Size_append]
    exact difference_add_right _ (utf8Size ['"'])
  unfold unquoted Text.unquoted
  rw [hbody, List.drop_succ_cons, List.drop_zero, List.dropLast_concat]
  refine .access_bind hsize (.access_bind (textTo_append ('"' :: body) ['"']) ?_)
  exact .access_bind (textFrom_append ['"'] body) (.pure _)

/-- A token is read in range: a string token is at least two quotes long. -/
theorem readToken_gives {token : Token P} (h : token.Drawn Kind.Admits) :
    (readToken token).Gives (LetWhile.Reader.readToken token) := by
  unfold Token.Drawn at h
  unfold readToken
  cases hk : token.kind with
  | identifier | boolean | number => exact .ofOutcome _
  | string =>
    rw [hk] at h
    rw [LetWhile.Reader.readToken, hk]
    exact (unquoted_gives h).bind_ok (.pure _)
  | _ =>
    rw [LetWhile.Reader.readToken, hk]
    exact (unrecognised_gives_lone (.leaf token)).bind_ok (.throw _)

/-- A primary is read in range. -/
theorem readPrimary_gives (hi : indexed.Gives reader) {tree : Tree P}
    (h : Tree.Holds (Token.Drawn Kind.Admits) [tree]) :
    (indexed.readPrimary tree).Gives (reader.readPrimary tree) := by
  cases tree with
  | leaf token => exact readToken_gives (Tree.holds_leaf.1 h)
  | group bracket children span =>
    cases bracket with
    | paren => exact hi.expr _ _ (Tree.holds_group.1 h)
    | brace => exact (unrecognised_gives_lone _).bind_ok (.throw _)

/-- A prefix operation is read in range. -/
theorem readPrefixed_gives (hi : indexed.Gives reader) (token : Token P) {rest : List (Tree P)}
    (h : Tree.Holds (Token.Drawn Kind.Admits) rest) :
    (indexed.readPrefixed token rest).Gives (reader.readPrefixed token rest) := by
  unfold readPrefixed LetWhile.Reader.readPrefixed
  cases PrefixOp.ofSymbol? token.text with
  | none => exact .throw _
  | some op => exact (hi.expr _ _ h).bind fun operand _ => .pure _

/-- A call is read in range. -/
theorem readCall_gives (hi : indexed.Gives reader) {callee : Tree P} {args : Region P}
    (hcallee : Tree.Holds (Token.Drawn Kind.Admits) [callee])
    (hargs : Tree.Holds (Token.Drawn Kind.Admits) args.trees) :
    (indexed.readCall callee args).Gives (reader.readCall callee args) :=
  (readPrimary_gives hi hcallee).bind fun _ _ =>
    (Gives.mapM fun part hpart =>
      hi.expr _ part (hargs.of_slice (Tree.isInfix_of_mem_commaParts hpart))).bind fun _ _ =>
        .pure _

/-- A function literal is read in range. -/
theorem readFunction_gives (hi : indexed.Gives reader) (params : Region P) {body : Region P}
    (hbody : Tree.Holds (Token.Drawn Kind.Admits) body.trees) :
    (indexed.readFunction params body).Gives (reader.readFunction params body) :=
  (Gives.ofOutcome _).bind fun _ _ => (outlineRegion_gives body).bind fun outline houtline =>
    (hi.block outline (Outline.ofRegion_drawn Kind.admits_wellSpelled hbody houtline)).bind
      fun _ _ => .pure _

/-- A link of a chain is read in range: its operand lies between its cut and the next one. -/
theorem readLink_gives (hi : indexed.Gives reader) {before rest next : List (Tree P)}
    {tree : Tree P} {op : BinaryOp} {splits done : List (Nat × BinaryOp)} {links : List (Chain.Link P)}
    (h : CutAt (before.length + 1) rest splits next links)
    (hdrawn : Tree.Holds (Token.Drawn Kind.Admits) rest) (left : Expr P) :
    (indexed.readLink (before ++ tree :: rest) (done ++ (before.length, op) :: splits) left
      ((before.length, op), done.length)).Gives (reader.readLink left ⟨op, tree.span, next⟩) := by
  have hnext : (done ++ (before.length, op) :: splits)[done.length + 1]? = splits[0]? := by
    rw [List.getElem?_append_right (Nat.le_add_right _ _), Nat.add_sub_cancel_left,
      List.getElem?_cons_succ]
  have hslice := CutAt.slice_operand (before ++ [tree])
    (by rw [List.length_append]; exact h)
  rw [List.append_assoc, List.length_append, ← hnext] at hslice
  refine .access_bind hslice (.access_bind (element_append before rest tree) ?_)
  exact (hi.expr _ _ (hdrawn.of_slice h.operand_isPrefix.isInfix)).bind fun _ _ => .pure _

/-- From a split on, a chain is folded as its links say. -/
theorem foldlM_readLink_gives (hi : indexed.Gives reader) {index : Nat}
    {trees operand : List (Tree P)} {splits : List (Nat × BinaryOp)} {links : List (Chain.Link P)}
    (h : CutAt index trees splits operand links)
    (hdrawn : Tree.Holds (Token.Drawn Kind.Admits) trees) :
    ∀ (before : List (Tree P)) (done : List (Nat × BinaryOp)) (left : Expr P),
      before.length = index →
        ((splits.zipIdx done.length).foldlM
          (indexed.readLink (before ++ trees) (done ++ splits)) left).Gives
          (links.foldlM reader.readLink left) := by
  induction h with
  | operand => exact fun _ _ left _ => .pure left
  | @link index operand rest next tree op splits links h ih =>
    rintro before done left rfl
    have hrest := (Tree.holds_cons.1 (Tree.holds_append.1 hdrawn).2).2
    rw [← List.length_append] at h ih ⊢
    rw [← List.append_assoc, List.zipIdx_cons, List.foldlM_cons, List.foldlM_cons]
    refine (readLink_gives hi h hrest left).bind fun chain _ => ?_
    have hmore := ih hrest (before ++ operand ++ [tree])
      (done ++ [((before ++ operand).length, op)]) chain (List.length_append ..)
    simpa only [List.append_assoc, List.cons_append, List.nil_append, List.length_append,
      List.length_cons, List.length_nil] using hmore

/-- A chain is read in range. The first cut exists where the trees have an operator of the lowest
power. -/
theorem readChain_gives (hi : indexed.Gives reader) (origin : P) {tree : Tree P}
    {rest : List (Tree P)} (h : Tree.Holds (Token.Drawn Kind.Admits) (tree :: rest)) :
    (indexed.readChain (tree :: rest)).Gives (reader.readChain origin (tree :: rest)) := by
  refine (joints_gives tree rest).bind_ok ?_
  have hcut := fun power => cutAt_splits power 0 true (tree :: rest)
  unfold LetWhile.Reader.readChain
  rw [← jointsFrom_fst 0]
  generalize jointsFrom 0 true (tree :: rest) = joints at hcut ⊢
  simp only
  cases hlowest : Chain.lowestPower? (joints.map Prod.fst) with
  | none =>
    cases joints with
    | nil => exact (unrecognised_gives origin tree rest).bind_ok (.throw _)
    | cons joint more => exact .throw _
  | some power =>
    obtain ⟨first, hfirst, hoperand⟩ := (hcut power).first (splitsOf_ne_nil hlowest)
    refine .access_bind hfirst (.access_bind hoperand (.access_bind rfl ?_))
    refine (hi.expr _ _ (h.of_slice (hcut power).operand_isPrefix.isInfix)).bind fun left _ => ?_
    exact foldlM_readLink_gives hi (hcut power) h [] [] left rfl

/-- The shape of a slice is found in range. -/
theorem shapeOf_gives (elements : List (Tree P)) :
    (shapeOf elements).Gives (.ok (LetWhile.Reader.shapeOf elements)) := by
  rcases elements with _ | ⟨first, _ | ⟨second, _ | ⟨third, _ | ⟨fourth, rest⟩⟩⟩⟩
  · exact .pure _
  · exact .pure _
  · exact .access_bind rfl (.access_bind rfl (.pure _))
  · exact .access_bind rfl (.access_bind rfl (.access_bind rfl (.pure _)))
  · rw [shapeOf, if_neg (by simp), if_neg (by simp)]
    exact .pure _

/-- One level of reading expressions stays in range. -/
theorem readSlice_gives (hi : indexed.Gives reader) (origin : P) {trees : List (Tree P)}
    (h : Tree.Holds (Token.Drawn Kind.Admits) trees) :
    (indexed.readSlice origin trees).Gives (reader.readSlice origin trees) := by
  rcases trees with _ | ⟨first, _ | ⟨second, rest⟩⟩
  · exact .throw _
  · exact .access_bind rfl (readPrimary_gives hi h)
  · rw [readSlice, if_neg (by simp), if_neg (by simp)]
    refine .access_bind rfl ?_
    unfold LetWhile.Reader.readSlice
    simp only
    cases first.token? .operator with
    | some token =>
      refine .access_bind (sliceFrom_append [first] (second :: rest)) ?_
      exact readPrefixed_gives hi token (Tree.holds_cons.1 h).2
    | none =>
      refine (shapeOf_gives _).bind_ok ?_
      cases hshape : LetWhile.Reader.shapeOf (first :: second :: rest) with
      | call callee args =>
        obtain ⟨-, ht⟩ := LetWhile.Reader.shapeOf_eq_call hshape
        rw [ht] at h
        obtain ⟨hcallee, hargs⟩ := Tree.holds_cons.1 h
        exact readCall_gives hi hcallee (Tree.holds_group.1 hargs)
      | function params body =>
        obtain ⟨arrow, -, ht⟩ := LetWhile.Reader.shapeOf_eq_function hshape
        rw [ht] at h
        obtain ⟨-, h⟩ := Tree.holds_cons.1 h
        obtain ⟨-, hbody⟩ := Tree.holds_cons.1 h
        exact readFunction_gives hi params (Tree.holds_group.1 hbody)
      | chain => exact readChain_gives hi origin h

/-- A statement is read in range. -/
theorem readStmt_gives (hi : indexed.Gives reader) {outline : Outline.Stmt P}
    (h : outline.Drawn Kind.Admits) :
    (indexed.readStmt outline).Gives (reader.readStmt outline) := by
  cases outline with
  | declare name type value span =>
    exact (hi.type _ _).bind fun _ _ => (hi.expr _ _ h.2.2).bind fun _ _ => .pure _
  | assign name value span => exact (hi.expr _ _ h.2).bind fun _ _ => .pure _
  | branch condition yes no span =>
    exact (hi.expr _ _ h.1).bind fun _ _ => (hi.block _ h.2.1).bind fun _ _ =>
      (hi.block _ h.2.2).bind fun _ _ => .pure _
  | loop condition body span =>
    exact (hi.expr _ _ h.1).bind fun _ _ => (hi.block _ h.2).bind fun _ _ => .pure _
  | returnValue value span => exact (hi.expr _ _ h).bind fun _ _ => .pure _
  | returnVoid span => exact .pure _
  | expression value span => exact (hi.expr _ _ h).bind fun _ _ => .pure _

/-- A block is read in range. -/
theorem readBlock_gives (hi : indexed.Gives reader) {outline : Outline.Block P}
    (h : outline.Drawn Kind.Admits) :
    (indexed.readBlock outline).Gives (reader.readBlock outline) := by
  cases outline with
  | mk outlines span =>
    exact (Gives.mapM fun stmt hstmt =>
      readStmt_gives hi (Outline.Stmt.AllDrawn.of_mem h hstmt)).bind fun _ _ => .pure _

/-- With any budget, reading stays in range. -/
theorem ofBudget_gives (limit budget : Nat) :
    (ofBudget (P := P) limit budget).Gives (LetWhile.Reader.ofBudget limit budget) := by
  induction budget with
  | zero => exact ⟨fun _ _ _ => .throw _, fun _ _ => .ofOutcome _, fun _ _ => .throw _⟩
  | succ budget ih =>
    exact ⟨fun origin _ h => readSlice_gives ih origin h, fun _ _ => .ofOutcome _,
      fun _ h => readBlock_gives ih h⟩

end Reader

/-- Tokens that look like those of a source are read as a program without going out of range. -/
theorem ofTokens_gives (limit : Nat) (origin : P) {tokens : List (Token P)}
    (h : ∀ token ∈ tokens, token.Drawn Kind.Admits) :
    (ofTokens limit origin tokens).Gives (Block.ofTokens limit origin tokens) :=
  (nest_gives limit origin tokens).bind fun region hregion =>
    (outlineRegion_gives region).bind fun outline houtline =>
      (Reader.ofBudget_gives limit limit).block outline
        (Outline.ofRegion_drawn Kind.admits_wellSpelled (Tree.holds_of_nest hregion h) houtline)

end Indexed

end LetWhile
