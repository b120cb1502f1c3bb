import LetWhile.Program.OfTrees
import LetWhile.Proofs.Parser.Basic

/-!
# Reading with a parser

Expressions, types, statements and blocks are read here as in `Reader`, but over a parser, whose
counter alone decides how deep a reading goes. A `Reader` has a budget of levels instead, and yields
a fault when that is used up. Here the calls can be followed for any number of levels
(`Calls.upTo`), and a call that is not followed does not return. So it has to be proved that the
calls return at all. They do when they are followed for more levels than are left to the parser,
with what is read when the budget is the levels that are left, and the parser survives them
(`Parser.survives_readings`).
-/

namespace LetWhile

/-- How slices and blocks are read one level further inside. -/
structure Calls where
  expr : Position → List (Tree Position) → Parsing (Expr Position)
  type : Position → List (Tree Position) → Parsing Ty
  block : Outline.Block Position → Parsing (Block Position)

namespace Calls

/-! ## One level -/

/-- The expression that a single tree is. -/
def readPrimary (inner : Calls) (tree : Tree Position) : Parsing (Expr Position) :=
  match tree with
  | .leaf token => liftM (Reader.readToken token)
  | .group .paren children span => inner.expr span.start children
  | .group .brace _ span => throw ⟨.unrecognisedExpression tree.text, span.start⟩

/-- A prefix operator applied to the rest of its slice. -/
def readPrefixed (inner : Calls) (token : Token Position) (rest : List (Tree Position)) :
    Parsing (Expr Position) :=
  match PrefixOp.ofSymbol? token.text with
  | none => throw (Reader.unknownOperator token)
  | some op => do
    let operand ← inner.expr token.span.stop rest
    pure (.operation (.prefixed op) [operand] (token.span.through operand.span))

/-- A call. -/
def readCall (inner : Calls) (callee : Tree Position) (args : Region Position) :
    Parsing (Expr Position) := do
  let function ← inner.readPrimary callee
  let values ← (Tree.commaParts args.trees).mapM (inner.expr args.span.start)
  pure (.call function values (callee.span.through args.span))

/-- A function literal. -/
def readFunction (inner : Calls) (params body : Region Position) : Parsing (Expr Position) := do
  let names ← liftM ((Tree.commaParts params.trees).mapM (Reader.parameterName params.span.start))
  let outline ← liftM (Outline.ofRegion body)
  let block ← inner.block outline
  pure (.function names block (params.span.through body.span))

/-- The expression that continues `left` with one more link of a chain. -/
def readLink (inner : Calls) (left : Expr Position) (link : Chain.Link Position) :
    Parsing (Expr Position) := do
  let right ← inner.expr link.span.stop link.operand
  pure (.operation (.binary link.op) [left, right] (left.span.through right.span))

/-- A chain of binary operators, cut at those of lowest power and folded from the left. -/
def readChain (inner : Calls) (origin : Position) (trees : List (Tree Position)) :
    Parsing (Expr Position) :=
  let joints := Chain.joints true trees
  match Chain.lowestPower? joints with
  | none =>
    match joints with
    | [] => throw (Reader.unrecognised origin trees)
    | token :: _ => throw (Reader.unknownOperator token)
  | some power => do
    let (operand, links) := Chain.cut power true trees
    let first ← inner.expr (Tree.startOr origin trees) operand
    links.foldlM inner.readLink first

/-- The expression that a slice spells. -/
def readSlice (inner : Calls) (origin : Position) (trees : List (Tree Position)) :
    Parsing (Expr Position) :=
  match trees with
  | [] => throw ⟨.emptyExpression, origin⟩
  | [tree] => inner.readPrimary tree
  | first :: rest =>
    match first.token? .operator with
    | some token => inner.readPrefixed token rest
    | none =>
      match Reader.shapeOf trees with
      | .call callee args => inner.readCall callee args
      | .function params body => inner.readFunction params body
      | .chain => inner.readChain origin trees

/-- The type that a slice spells. -/
def readType (inner : Calls) (origin : Position) (trees : List (Tree Position)) : Parsing Ty :=
  let invalid : Parsing Ty := throw ⟨.invalidType (Tree.render trees), Tree.startOr origin trees⟩
  match trees with
  | [.leaf token] => if token.kind = .typeName then pure (.name token.text) else invalid
  | [.group .paren children span] => inner.type span.start children
  | .group .paren params span :: arrow :: tree :: rest =>
    if arrow.isKind .arrow then do
      let params ← (Tree.commaParts params).mapM (inner.type span.start)
      let result ← inner.type arrow.span.stop (tree :: rest)
      pure (.function params result)
    else invalid
  | _ => invalid

/-- The statement that an outlined statement stands for. -/
def readStmt (inner : Calls) : Outline.Stmt Position → Parsing (Stmt Position)
  | .declare name type value span => do
    let type ← inner.type span.start type
    let value ← inner.expr span.stop value
    pure (.declare name type value span)
  | .assign name value span => do
    let value ← inner.expr span.stop value
    pure (.assign name value span)
  | .branch condition yes no span => do
    let condition ← inner.expr condition.span.start condition.trees
    let yes ← inner.block yes
    let no ← inner.block no
    pure (.branch condition yes no span)
  | .loop condition body span => do
    let condition ← inner.expr condition.span.start condition.trees
    let body ← inner.block body
    pure (.loop condition body span)
  | .returnValue value span => do
    let value ← inner.expr span.stop value
    pure (.returnValue value span)
  | .returnVoid span => pure (.returnVoid span)
  | .expression value span => do
    let value ← inner.expr span.start value
    pure (.expression value span)

/-- The block that an outlined block stands for. -/
def readBlock (inner : Calls) (outline : Outline.Block Position) : Parsing (Block Position) := do
  let stmts ← outline.stmts.mapM inner.readStmt
  pure (.mk stmts outline.span)

/-- The program that the tokens of a file spell. -/
def ofTokens (calls : Calls) (tokens : List (Token Position)) : Parsing (Block Position) := do
  let parser ← Parser.current
  let region ← liftM (nest parser.limit parser.start tokens)
  let outline ← liftM (Outline.ofRegion region)
  calls.block outline

/-! ## Any number of levels -/

/-- The calls, followed for a number of levels. A call that is further inside never returns. -/
def upTo : Nat → Calls
  | 0 => ⟨fun _ _ => Parser.never, fun _ _ => Parser.never, fun _ => Parser.never⟩
  | levels + 1 =>
    { expr origin trees :=
        Parser.nested (Tree.startOr origin trees) ((upTo levels).readSlice origin trees)
      type origin trees :=
        Parser.nested (Tree.startOr origin trees) ((upTo levels).readType origin trees)
      block outline := Parser.nested outline.span.start ((upTo levels).readBlock outline) }

end Calls

namespace Parser
variable {parser : Parser}

/-! ## One level is survived -/

/-- A parser survives the calls, which come to what a reader says. -/
structure SurvivesCalls (parser : Parser) (calls : Calls) (reader : Reader Position) : Prop where
  expr : ∀ origin trees, parser.Survives (calls.expr origin trees) (reader.expr origin trees)
  type : ∀ origin trees, parser.Survives (calls.type origin trees) (reader.type origin trees)
  block : ∀ outline, parser.Survives (calls.block outline) (reader.block outline)

namespace SurvivesCalls
variable {inner : Calls} {reader : Reader Position}

/-- A parser survives a primary. -/
theorem readPrimary (h : parser.SurvivesCalls inner reader) (tree : Tree Position) :
    parser.Survives (inner.readPrimary tree) (reader.readPrimary tree) := by
  rcases tree with token | ⟨_ | _, children, span⟩
  · exact .ofOutcome _
  · exact h.expr _ _
  · exact .throw _

/-- A parser survives a prefix operation. -/
theorem readPrefixed (h : parser.SurvivesCalls inner reader) (token : Token Position)
    (rest : List (Tree Position)) :
    parser.Survives (inner.readPrefixed token rest) (reader.readPrefixed token rest) := by
  unfold Calls.readPrefixed Reader.readPrefixed
  cases PrefixOp.ofSymbol? token.text with
  | none => exact .throw _
  | some op => exact (h.expr _ _).bind fun _ => .pure _

/-- A parser survives a call. -/
theorem readCall (h : parser.SurvivesCalls inner reader) (callee : Tree Position)
    (args : Region Position) :
    parser.Survives (inner.readCall callee args) (reader.readCall callee args) :=
  (h.readPrimary callee).bind fun _ => (Survives.mapM (h.expr _) _).bind fun _ => .pure _

/-- A parser survives a function literal. -/
theorem readFunction (h : parser.SurvivesCalls inner reader) (params body : Region Position) :
    parser.Survives (inner.readFunction params body) (reader.readFunction params body) :=
  (Survives.ofOutcome _).bind fun _ => (Survives.ofOutcome _).bind fun _ =>
    (h.block _).bind fun _ => .pure _

/-- A parser survives a link of a chain. -/
theorem readLink (h : parser.SurvivesCalls inner reader) (left : Expr Position)
    (link : Chain.Link Position) :
    parser.Survives (inner.readLink left link) (reader.readLink left link) :=
  (h.expr _ _).bind fun _ => .pure _

/-- A parser survives a chain. -/
theorem readChain (h : parser.SurvivesCalls inner reader) (origin : Position)
    (trees : List (Tree Position)) :
    parser.Survives (inner.readChain origin trees) (reader.readChain origin trees) := by
  unfold Calls.readChain Reader.readChain
  simp only
  cases Chain.lowestPower? (Chain.joints true trees) with
  | none =>
    cases Chain.joints true trees with
    | nil => exact .throw _
    | cons token rest => exact .throw _
  | some power => exact (h.expr _ _).bind fun first => Survives.foldlM h.readLink _ first

/-- A parser survives a slice of any shape. -/
theorem readSlice (h : parser.SurvivesCalls inner reader) (origin : Position)
    (trees : List (Tree Position)) :
    parser.Survives (inner.readSlice origin trees) (reader.readSlice origin trees) := by
  rcases trees with _ | ⟨first, _ | ⟨second, rest⟩⟩
  · exact .throw _
  · exact h.readPrimary first
  · unfold Calls.readSlice Reader.readSlice
    simp only
    cases first.token? .operator with
    | some token => exact h.readPrefixed token _
    | none =>
      cases Reader.shapeOf (first :: second :: rest) with
      | call callee args => exact h.readCall callee args
      | function params body => exact h.readFunction params body
      | chain => exact h.readChain origin _

/-- A parser survives a type. -/
theorem readType {limit budget : Nat}
    (h : parser.SurvivesCalls inner (Reader.ofBudget limit budget)) (origin : Position)
    (trees : List (Tree Position)) :
    parser.Survives (inner.readType origin trees) (Ty.ofTrees limit (budget + 1) origin trees) := by
  rcases trees with _ | ⟨token | ⟨_ | _, children, span⟩, _ | ⟨arrow, _ | ⟨tree, rest⟩⟩⟩
  · exact .throw _
  · simp only [Calls.readType, Ty.ofTrees]
    split
    · exact .pure _
    · exact .throw _
  · exact .throw _
  · exact .throw _
  · exact h.type _ _
  · exact .throw _
  · simp only [Calls.readType, Ty.ofTrees]
    split
    · exact (Survives.mapM (h.type _) _).bind fun _ => (h.type _ _).bind fun _ => .pure _
    · exact .throw _
  · exact .throw _
  · exact .throw _
  · exact .throw _

/-- A parser survives a statement. -/
theorem readStmt (h : parser.SurvivesCalls inner reader) (outline : Outline.Stmt Position) :
    parser.Survives (inner.readStmt outline) (reader.readStmt outline) := by
  cases outline with
  | declare name type value span =>
    exact (h.type _ _).bind fun _ => (h.expr _ _).bind fun _ => .pure _
  | assign name value span => exact (h.expr _ _).bind fun _ => .pure _
  | branch condition yes no span =>
    exact (h.expr _ _).bind fun _ => (h.block yes).bind fun _ => (h.block no).bind fun _ => .pure _
  | loop condition body span =>
    exact (h.expr _ _).bind fun _ => (h.block body).bind fun _ => .pure _
  | returnValue value span => exact (h.expr _ _).bind fun _ => .pure _
  | returnVoid span => exact .pure _
  | expression value span => exact (h.expr _ _).bind fun _ => .pure _

/-- A parser survives a block. -/
theorem readBlock (h : parser.SurvivesCalls inner reader) (outline : Outline.Block Position) :
    parser.Survives (inner.readBlock outline) (reader.readBlock outline) :=
  (Survives.mapM h.readStmt _).bind fun _ => .pure _

end SurvivesCalls

/-! ## All levels are survived -/

/-- The readings with the levels that are left to a parser. -/
def reader (parser : Parser) : Reader Position :=
  Reader.ofBudget parser.limit (parser.limit - parser.depth)

/-- A parser within its limit survives calls that are followed for more levels than are left to
it. -/
theorem survives_upTo {levels : Nat} (h : parser.depth ≤ parser.limit)
    (hlevels : parser.limit - parser.depth < levels) :
    parser.SurvivesCalls (.upTo levels) parser.reader := by
  induction levels generalizing parser with
  | zero => exact absurd hlevels (Nat.not_lt_zero _)
  | succ levels ih =>
    obtain hfull | hopen := Nat.eq_or_lt_of_le h
    · have hnone : parser.reader = Reader.ofBudget parser.limit 0 := by
        rw [reader, hfull, Nat.sub_self]
      have hclosed : parser.limit ≤ parser.depth := Nat.le_of_eq hfull.symm
      rw [hnone]
      exact ⟨fun _ _ => .refused hclosed _ _, fun _ _ => .refused hclosed _ _,
        fun _ => .refused hclosed _ _⟩
    · -- Inside a level, one level less is left, and the calls are followed for one level less.
      have hleft : parser.limit - parser.depth = parser.limit - (parser.depth + 1) + 1 := by omega
      have hinside : parser.deeper.depth ≤ parser.deeper.limit := hopen
      have hinner : parser.deeper.SurvivesCalls (.upTo levels) parser.deeper.reader :=
        ih hinside (by simp only [deeper]; omega)
      rw [reader, hleft]
      exact ⟨fun origin trees => .nested hopen _ (hinner.readSlice origin trees),
        fun origin trees => .nested hopen _ (hinner.readType origin trees),
        fun outline => .nested hopen _ (hinner.readBlock outline)⟩

/-- A parser within its limit survives the reading of a program. -/
theorem Survives.ofTokens {levels : Nat} (h : parser.depth ≤ parser.limit)
    (hlevels : parser.limit - parser.depth < levels) (tokens : List (Token Position)) :
    parser.Survives ((Calls.upTo levels).ofTokens tokens) (do
      let region ← nest parser.limit parser.start tokens
      let outline ← Outline.ofRegion region
      parser.reader.block outline) :=
  .current_bind <| (Survives.ofOutcome _).bind fun _ => (Survives.ofOutcome _).bind fun outline =>
    (survives_upTo h hlevels).block outline

/-- What a parser answers to the tokens of a file, with calls followed for a number of levels. -/
def answer (parser : Parser) (levels : Nat) (tokens : List (Token Position)) :
    Option (Outcome Position (Block Position)) :=
  Prod.fst <$> run ((Calls.upTo levels).ofTokens tokens) ⟨parser, []⟩

/-- What a parser answers to several lists of tokens, one after another. -/
def answers (parser : Parser) (levels : Nat) (inputs : List (List (Token Position))) :
    Option (List (Outcome Position (Block Position))) :=
  Prod.fst <$> StateT.run (attempts (Calls.upTo levels).ofTokens inputs) ⟨parser, []⟩

section
variable {file : String} {limit levels : Nat}

/-- A fresh parser survives the tokens of a program, and comes to the program. -/
theorem fresh_survives (h : limit < levels) (tokens : List (Token Position)) :
    (fresh file limit).Survives ((Calls.upTo levels).ofTokens tokens)
      (Block.ofTokens limit ⟨0, file⟩ tokens) :=
  .ofTokens (Nat.zero_le limit) h tokens

/-- A fresh parser answers tokens with the program, if it may go as deep as its limit and one level
more. -/
theorem fresh_answer (h : limit < levels) (tokens : List (Token Position)) :
    (fresh file limit).answer levels tokens = some (Block.ofTokens limit ⟨0, file⟩ tokens) := by
  obtain ⟨states, hrun, -⟩ := fresh_survives h tokens []
  rw [answer, hrun]
  rfl

/-- A parser that is used again and again answers as fresh ones would. -/
theorem fresh_answers (h : limit < levels) (inputs : List (List (Token Position))) :
    (fresh file limit).answers levels inputs =
      some (inputs.map (Block.ofTokens limit ⟨0, file⟩)) := by
  obtain ⟨after, hrun⟩ := Survives.attempts (fresh_survives h) inputs []
  rw [answers, hrun]
  rfl

end

/-- A parser survives its faults. Within its limit, it is after each reading what it was before, at
fault or not, and on the way it keeps its file and its limit and is never deeper than the limit. The
readings return, with what is read when the budget is the levels that are left, as soon as calls are
followed for more levels than that. So a new parser answers to several programs, one after another,
what a new parser answers to each of them. -/
theorem survives_readings (parser : Parser) (h : parser.depth ≤ parser.limit) (levels : Nat)
    (hlevels : parser.limit - parser.depth < levels) :
    (∀ origin trees,
      parser.Survives ((Calls.upTo levels).expr origin trees) (parser.reader.expr origin trees)) ∧
    (∀ origin trees,
      parser.Survives ((Calls.upTo levels).type origin trees) (parser.reader.type origin trees)) ∧
    (∀ outline,
      parser.Survives ((Calls.upTo levels).readStmt outline) (parser.reader.readStmt outline)) ∧
    (∀ outline,
      parser.Survives ((Calls.upTo levels).block outline) (parser.reader.block outline)) ∧
    (∀ tokens,
      parser.Survives ((Calls.upTo levels).ofTokens tokens) (do
        let region ← nest parser.limit parser.start tokens
        let outline ← Outline.ofRegion region
        parser.reader.block outline)) ∧
    ∀ file limit inputs, limit < levels →
      (fresh file limit).answers levels inputs =
        inputs.mapM ((fresh file limit).answer levels) ∧
      (fresh file limit).answers levels inputs =
        some (inputs.map (Block.ofTokens limit ⟨0, file⟩)) := by
  have hcalls := survives_upTo h hlevels
  refine ⟨hcalls.expr, hcalls.type, hcalls.readStmt, hcalls.block, .ofTokens h hlevels, ?_⟩
  intro file limit inputs hlimit
  refine ⟨?_, fresh_answers hlimit inputs⟩
  rw [fresh_answers hlimit, funext (fresh_answer hlimit)]
  exact (List.mapM_pure (m := Option)).symm

/-- With one level left, a name in parentheses is too deep, and the parser survives it. A new parser
reads an empty program after one that is at fault. -/
theorem survives_readings_parens :
    (⟨"f", 1, 2⟩ : Parser).depth ≤ (⟨"f", 1, 2⟩ : Parser).limit ∧ 2 - 1 < 2 ∧ 1 < 2 ∧
      (⟨"f", 1, 2⟩ : Parser).Survives
        ((Calls.upTo 2).expr ⟨0, "f"⟩
          [.group .paren [.leaf ⟨.identifier, "x", ⟨⟨1, "f"⟩, ⟨2, "f"⟩⟩⟩] ⟨⟨0, "f"⟩, ⟨3, "f"⟩⟩])
        (.error ⟨.nestingTooDeep 2, ⟨1, "f"⟩⟩) ∧
      (fresh "f" 1).answers 2 [[⟨.opening .paren, "(", ⟨⟨0, "f"⟩, ⟨1, "f"⟩⟩⟩], []] =
        some [.error ⟨.unclosedBracket "(", ⟨0, "f"⟩⟩, .ok (.mk [] ⟨⟨0, "f"⟩, ⟨0, "f"⟩⟩)] := by
  have hsurvives := survives_readings ⟨"f", 1, 2⟩ (by decide) 2 (by decide)
  refine ⟨by decide, by decide, by decide, hsurvives.1 ⟨0, "f"⟩ _, ?_⟩
  have hempty : Block.ofTokens 1 (⟨0, "f"⟩ : Position) [] =
      .ok (.mk [] ⟨⟨0, "f"⟩, ⟨0, "f"⟩⟩) := by
    show (Outline.ofTrees []).map _ >>= _ = _
    rw [Outline.ofTrees_nil]
    rfl
  rw [(hsurvives.2.2.2.2.2 "f" 1 _ (by decide)).2, List.map_cons, List.map_singleton, hempty]
  rfl

end Parser

end LetWhile
