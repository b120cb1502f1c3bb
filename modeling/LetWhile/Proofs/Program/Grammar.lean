import LetWhile.Outline.OfTrees
import LetWhile.Proofs.Program.Climbing
import LetWhile.Program.OfTrees
import Mathlib.Data.List.Forall2

/-!
# The grammar of types, expressions and programs

What slices of trees spell, without a budget of nested readings and without an order of attempts. An
expression is what a climb reads off its whole slice (`SpellsExpr`), and its operands are literals,
names, expressions in parentheses, calls and function literals (`SpellsOperand`). Statements and
blocks are spelled by outlines.
-/

namespace LetWhile

variable {P : Type}

/-- A slice spells a type. -/
inductive SpellsType : List (Tree P) → Ty → Prop
  | name {token : Token P} :
    token.kind = .typeName → SpellsType [.leaf token] (.name token.text)
  | paren {children : List (Tree P)} {span : Span P} {type : Ty} :
    SpellsType children type → SpellsType [.group .paren children span] type
  | function {params rest : List (Tree P)} {span : Span P} {arrow : Tree P} {types : List Ty}
      {result : Ty} :
    arrow.isKind .arrow = true → rest ≠ [] →
    List.Forall₂ SpellsType (Tree.commaParts params) types → SpellsType rest result →
    SpellsType (.group .paren params span :: arrow :: rest) (.function types result)

/-- A part of a parameter list spells a name. -/
inductive SpellsParameter : List (Tree P) → String → Prop
  | name {token : Token P} :
    token.kind = .identifier → SpellsParameter [.leaf token] token.text

mutual

/-- A slice spells an expression: a climb that takes all operators reads it off the whole slice. -/
inductive SpellsExpr : List (Tree P) → Expr P → Prop
  | climb {trees : List (Tree P)} {expr : Expr P} :
    Climb SpellsOperand 0 none trees expr [] → SpellsExpr trees expr

/-- A run of trees that are no operators spells an operand. -/
inductive SpellsOperand : List (Tree P) → Expr P → Prop
  | symbol {token : Token P} :
    token.kind = .identifier → SpellsOperand [.leaf token] (.symbol token.text token.span)
  | boolean {token : Token P} :
    token.kind = .boolean →
    SpellsOperand [.leaf token] (.boolean (token.text == "true") token.span)
  | number {token : Token P} {value : Int} :
    token.kind = .number → Text.integerOf token.text = some value →
    SpellsOperand [.leaf token] (.number value token.span)
  | string {token : Token P} :
    token.kind = .string →
    SpellsOperand [.leaf token] (.string (Text.unquoted token.text) token.span)
  | paren {children : List (Tree P)} {span : Span P} {expr : Expr P} :
    SpellsExpr children expr → SpellsOperand [.group .paren children span] expr
  | call {callee : Tree P} {args : List (Tree P)} {span : Span P} {function : Expr P}
      {values : List (Expr P)} :
    Reader.isCallable callee = true → SpellsOperand [callee] function →
    List.Forall₂ SpellsExpr (Tree.commaParts args) values →
    SpellsOperand [callee, .group .paren args span]
      (.call function values (callee.span.through span))
  | function {params body : List (Tree P)} {paramsSpan bodySpan : Span P} {arrow : Tree P}
      {names : List String} {outline : Outline.Block P} {block : Block P} :
    arrow.isKind .lambdaArrow = true →
    List.Forall₂ SpellsParameter (Tree.commaParts params) names →
    Outline.ofRegion ⟨body, bodySpan⟩ = .ok outline → SpellsBlock outline block →
    SpellsOperand [.group .paren params paramsSpan, arrow, .group .brace body bodySpan]
      (.function names block (paramsSpan.through bodySpan))

/-- An outlined statement spells a statement. -/
inductive SpellsStmt : Outline.Stmt P → Stmt P → Prop
  | declare {name : String} {signature trees : List (Tree P)} {span : Span P} {type : Ty}
      {value : Expr P} :
    SpellsType signature type → SpellsExpr trees value →
    SpellsStmt (.declare name signature trees span) (.declare name type value span)
  | assign {name : String} {trees : List (Tree P)} {span : Span P} {value : Expr P} :
    SpellsExpr trees value → SpellsStmt (.assign name trees span) (.assign name value span)
  | branch {region : Region P} {yesOutline noOutline : Outline.Block P} {span : Span P}
      {condition : Expr P} {yes no : Block P} :
    SpellsExpr region.trees condition → SpellsBlock yesOutline yes → SpellsBlock noOutline no →
    SpellsStmt (.branch region yesOutline noOutline span) (.branch condition yes no span)
  | loop {region : Region P} {outline : Outline.Block P} {span : Span P} {condition : Expr P}
      {body : Block P} :
    SpellsExpr region.trees condition → SpellsBlock outline body →
    SpellsStmt (.loop region outline span) (.loop condition body span)
  | returnValue {trees : List (Tree P)} {span : Span P} {value : Expr P} :
    SpellsExpr trees value → SpellsStmt (.returnValue trees span) (.returnValue value span)
  | returnVoid {span : Span P} : SpellsStmt (.returnVoid span) (.returnVoid span)
  | expression {trees : List (Tree P)} {span : Span P} {value : Expr P} :
    SpellsExpr trees value → SpellsStmt (.expression trees span) (.expression value span)

/-- An outlined block spells a block. -/
inductive SpellsBlock : Outline.Block P → Block P → Prop
  | block {outlines : List (Outline.Stmt P)} {stmts : List (Stmt P)} {span : Span P} :
    List.Forall₂ SpellsStmt outlines stmts → SpellsBlock (.mk outlines span) (.mk stmts span)

end

end LetWhile
