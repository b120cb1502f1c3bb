import LetWhile.Outline.OfTrees
import LetWhile.Program.Basic
import LetWhile.Program.Chain
import LetWhile.Text.Numeral
import LetWhile.Text.Quoted
import LetWhile.Tree.Nesting
import LetWhile.Ty.OfTrees

/-!
# Reading programs

Outlined statements become statements by reading their slices as expressions and types. Readings
nest: an expression in parentheses, an operand, a type or a block is read one level deeper, and a
budget bounds the levels. What happens at one level is defined over a `Reader`, which holds the
readings one level deeper; `Expr.ofTrees` and `Block.ofOutline` tie the knot by recursion on the
budget.
-/

namespace LetWhile

/-- How slices and blocks are read one level deeper. The position locates an empty slice. -/
structure Reader (P : Type) where
  expr : P → List (Tree P) → Outcome P (Expr P)
  type : P → List (Tree P) → Outcome P Ty
  block : Outline.Block P → Outcome P (Block P)

namespace Reader
variable {P : Type}

/-! ## Expressions -/

/-- The fault of a slice that has the form of no expression. -/
def unrecognised (origin : P) (trees : List (Tree P)) : Fault P :=
  ⟨.unrecognisedExpression (Tree.render trees), Tree.startOr origin trees⟩

/-- The fault of an operator that is not known where it stands. -/
def unknownOperator (token : Token P) : Fault P := ⟨.unknownOperator token.text, token.span.start⟩

/-- The expression that a single token is. -/
def readToken (token : Token P) : Outcome P (Expr P) :=
  match token.kind with
  | .identifier => .ok (.symbol token.text token.span)
  | .boolean => .ok (.boolean (token.text == "true") token.span)
  | .number =>
    match Text.integerOf token.text with
    | some value => .ok (.number value token.span)
    | none => .error ⟨.invalidNumber token.text, token.span.start⟩
  | .string => .ok (.string (Text.unquoted token.text) token.span)
  | _ => .error ⟨.unrecognisedExpression token.text, token.span.start⟩

/-- The expression that a single tree is: a token, or an expression in parentheses. -/
def readPrimary (inner : Reader P) (tree : Tree P) : Outcome P (Expr P) :=
  match tree with
  | .leaf token => readToken token
  | .group .paren children span => inner.expr span.start children
  | .group .brace _ span => .error ⟨.unrecognisedExpression tree.text, span.start⟩

/-- A prefix operator applied to the rest of its slice. -/
def readPrefixed (inner : Reader P) (token : Token P) (rest : List (Tree P)) :
    Outcome P (Expr P) :=
  match PrefixOp.ofSymbol? token.text with
  | none => .error (unknownOperator token)
  | some op => do
    let operand ← inner.expr token.span.stop rest
    .ok (.operation (.prefixed op) [operand] (token.span.through operand.span))

/-- A call. -/
def readCall (inner : Reader P) (callee : Tree P) (args : Region P) : Outcome P (Expr P) := do
  let function ← inner.readPrimary callee
  let values ← (Tree.commaParts args.trees).mapM (inner.expr args.span.start)
  .ok (.call function values (callee.span.through args.span))

/-- The name of a parameter, which is one part of a parameter list. -/
def parameterName (origin : P) : List (Tree P) → Outcome P String
  | [] => .error ⟨.invalidParameters ",", origin⟩
  | tree :: rest =>
    match tree.token? .identifier, rest with
    | some token, [] => .ok token.text
    | _, _ => .error ⟨.invalidParameters (Tree.render (tree :: rest)), tree.span.start⟩

/-- A function literal. -/
def readFunction (inner : Reader P) (params body : Region P) : Outcome P (Expr P) := do
  let names ← (Tree.commaParts params.trees).mapM (parameterName params.span.start)
  let outline ← Outline.ofRegion body
  let block ← inner.block outline
  .ok (.function names block (params.span.through body.span))

/-- The expression that continues `left` with one more link of a chain. -/
def readLink (inner : Reader P) (left : Expr P) (link : Chain.Link P) : Outcome P (Expr P) := do
  let right ← inner.expr link.span.stop link.operand
  .ok (.operation (.binary link.op) [left, right] (left.span.through right.span))

/-- A chain of binary operators, cut at those of lowest power and folded from the left. -/
def readChain (inner : Reader P) (origin : P) (trees : List (Tree P)) : Outcome P (Expr P) :=
  let joints := Chain.joints true trees
  match Chain.lowestPower? joints with
  | none =>
    match joints with
    | [] => .error (unrecognised origin trees)
    | token :: _ => .error (unknownOperator token)
  | some power => do
    let (operand, links) := Chain.cut power true trees
    let first ← inner.expr (Tree.startOr origin trees) operand
    links.foldlM inner.readLink first

/-- What a slice of at least two trees looks like when it does not begin with an operator. -/
inductive Shape (P : Type)
  | call (callee : Tree P) (args : Region P)
  | function (params body : Region P)
  | chain

/-- Whether a tree can be called without more parentheses: it is a name or in parentheses. -/
def isCallable (tree : Tree P) : Bool :=
  tree.isKind .identifier || (tree.region? .paren).isSome

/-- The shape of a slice. -/
def shapeOf : List (Tree P) → Shape P
  | [callee, args] =>
    match args.region? .paren with
    | some args => if isCallable callee then .call callee args else .chain
    | none => .chain
  | [params, arrow, body] =>
    match params.region? .paren, body.region? .brace with
    | some params, some body => if arrow.isKind .lambdaArrow then .function params body else .chain
    | _, _ => .chain
  | _ => .chain

/-- The expression that a slice spells. -/
def readSlice (inner : Reader P) (origin : P) (trees : List (Tree P)) : Outcome P (Expr P) :=
  match trees with
  | [] => .error ⟨.emptyExpression, origin⟩
  | [tree] => inner.readPrimary tree
  | first :: rest =>
    match first.token? .operator with
    | some token => inner.readPrefixed token rest
    | none =>
      match shapeOf trees with
      | .call callee args => inner.readCall callee args
      | .function params body => inner.readFunction params body
      | .chain => inner.readChain origin trees

/-! ## Statements -/

/-- The statement that an outlined statement stands for. -/
def readStmt (inner : Reader P) : Outline.Stmt P → Outcome P (Stmt P)
  | .declare name type value span => do
    let type ← inner.type span.start type
    let value ← inner.expr span.stop value
    .ok (.declare name type value span)
  | .assign name value span => do
    let value ← inner.expr span.stop value
    .ok (.assign name value span)
  | .branch condition yes no span => do
    let condition ← inner.expr condition.span.start condition.trees
    let yes ← inner.block yes
    let no ← inner.block no
    .ok (.branch condition yes no span)
  | .loop condition body span => do
    let condition ← inner.expr condition.span.start condition.trees
    let body ← inner.block body
    .ok (.loop condition body span)
  | .returnValue value span => do
    let value ← inner.expr span.stop value
    .ok (.returnValue value span)
  | .returnVoid span => .ok (.returnVoid span)
  | .expression value span => do
    let value ← inner.expr span.start value
    .ok (.expression value span)

/-- The block that an outlined block stands for. -/
def readBlock (inner : Reader P) (outline : Outline.Block P) : Outcome P (Block P) := do
  let stmts ← outline.stmts.mapM inner.readStmt
  .ok (.mk stmts outline.span)

end Reader

/-! ## All levels -/

variable {P : Type}

mutual

/-- The expression that a slice spells, read with a budget of levels out of `limit`. `origin`
locates an empty slice. -/
def Expr.ofTrees (limit : Nat) : Nat → P → List (Tree P) → Outcome P (Expr P)
  | 0, origin, trees => .error ⟨.nestingTooDeep limit, Tree.startOr origin trees⟩
  | budget + 1, origin, trees =>
    Reader.readSlice
      ⟨Expr.ofTrees limit budget, Ty.ofTrees limit budget, Block.ofOutline limit budget⟩
      origin trees

/-- The block that an outlined block stands for, read with a budget of levels out of `limit`. -/
def Block.ofOutline (limit : Nat) : Nat → Outline.Block P → Outcome P (Block P)
  | 0, outline => .error ⟨.nestingTooDeep limit, outline.span.start⟩
  | budget + 1, outline =>
    Reader.readBlock
      ⟨Expr.ofTrees limit budget, Ty.ofTrees limit budget, Block.ofOutline limit budget⟩ outline

end

/-- The readings with a budget of levels out of `limit`. -/
def Reader.ofBudget (limit budget : Nat) : Reader P :=
  ⟨Expr.ofTrees limit budget, Ty.ofTrees limit budget, Block.ofOutline limit budget⟩

/-- The program that a list of tokens spells, with brackets and readings nested at most `limit`
deep. `origin` locates the program of no tokens. -/
def Block.ofTokens (limit : Nat) (origin : P) (tokens : List (Token P)) : Outcome P (Block P) := do
  let region ← nest limit origin tokens
  let outline ← Outline.ofRegion region
  Block.ofOutline limit limit outline

end LetWhile
