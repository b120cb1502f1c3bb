import LetWhile.Proofs.Outline.Shapes
import LetWhile.Proofs.Scanning.Spelling

/-!
# Statements put together again

`AssemblesAll` says which trees statements are put together from: the tokens that belong to the
shape of each statement, with its slices and blocks between them. What is outlined can be put
together again to the trees it was read from (`Outline.assemblesAll_of_ofTrees`), and separable
statements, in whose slices nothing ends them too soon, are outlined again as they were
(`Outline.outlinedAll_of_assemblesAll`). Both together are `Outline.ofTrees_assemblesAll`.
-/

namespace LetWhile

variable {P : Type}

/-! ## Assembled statements -/

/-- A span runs from the first of some trees to the last. -/
def Tree.Spanned (span : Span P) (trees : List (Tree P)) : Prop :=
  ∃ first last, trees.head? = some first ∧ trees.getLast? = some last ∧
    span = first.span.through last.span

namespace Outline

section
variable (fits : Span P → List (Tree P) → Prop)

mutual

/-- The trees that a statement is put together from. -/
inductive Assembles : Stmt P → List (Tree P) → Prop
  | declare {name : String} {type value : List (Tree P)} {span : Span P}
      {first target colon equals last : Tree P} :
    first.IsToken (.keyword .letWord) "let" → target.IsToken .identifier name →
    colon.IsToken .colon ":" → equals.IsToken .operator "=" → last.IsToken .semicolon ";" →
    Assembles (.declare name type value span)
      (first :: target :: colon :: (type ++ equals :: (value ++ [last])))
  | assign {name : String} {value : List (Tree P)} {span : Span P} {target equals last : Tree P} :
    target.IsToken .identifier name → equals.IsToken .operator "=" → last.IsToken .semicolon ";" →
    Assembles (.assign name value span) (target :: equals :: (value ++ [last]))
  | branch {condition : Region P} {yes no : List (Stmt P)} {yesSpan noSpan span : Span P}
      {first otherwise : Tree P} {yesTrees noTrees : List (Tree P)} :
    first.IsToken (.keyword .ifWord) "if" → otherwise.IsToken (.keyword .elseWord) "else" →
    AssemblesAll yes yesTrees → AssemblesAll no noTrees →
    Assembles (.branch condition (.mk yes yesSpan) (.mk no noSpan) span)
      [first, .group .paren condition.trees condition.span, .group .brace yesTrees yesSpan,
        otherwise, .group .brace noTrees noSpan]
  | loop {condition : Region P} {body : List (Stmt P)} {bodySpan span : Span P} {first : Tree P}
      {bodyTrees : List (Tree P)} :
    first.IsToken (.keyword .whileWord) "while" → AssemblesAll body bodyTrees →
    Assembles (.loop condition (.mk body bodySpan) span)
      [first, .group .paren condition.trees condition.span, .group .brace bodyTrees bodySpan]
  | returnValue {value : List (Tree P)} {span : Span P} {first last : Tree P} :
    first.IsToken (.keyword .returnWord) "return" → last.IsToken .semicolon ";" →
    Assembles (.returnValue value span) (first :: (value ++ [last]))
  | returnVoid {span : Span P} {first last : Tree P} :
    first.IsToken (.keyword .returnWord) "return" → last.IsToken .semicolon ";" →
    Assembles (.returnVoid span) [first, last]
  | expression {value : List (Tree P)} {span : Span P} {last : Tree P} :
    last.IsToken .semicolon ";" → Assembles (.expression value span) (value ++ [last])

/-- The trees that statements are put together from, one after another, where the span of each has
to fit its trees. A lone tree at the end is a statement without a semicolon. -/
inductive AssemblesAll : List (Stmt P) → List (Tree P) → Prop
  | nil : AssemblesAll [] []
  | lone {tree : Tree P} {span : Span P} :
    fits span [tree] → AssemblesAll [.expression [tree] span] [tree]
  | cons {stmt : Stmt P} {rest : List (Stmt P)} {trees more : List (Tree P)} :
    Assembles stmt trees → fits stmt.span trees → AssemblesAll rest more →
    AssemblesAll (stmt :: rest) (trees ++ more)

end

end

/-- The value of a declaration stands among the trees of the declaration. -/
theorem declared_isInfix {first target colon equals last : Tree P} {type value : List (Tree P)} :
    value <:+: first :: target :: colon :: (type ++ equals :: (value ++ [last])) := by
  have hequals : value <:+: equals :: (value ++ [last]) := List.infix_append' [_] _ _
  have htype := hequals.trans (List.suffix_append type _).isInfix
  exact htype.trans (List.suffix_append [first, target, colon] _).isInfix

mutual

/-- Nothing in the slices of a statement ends them too soon, or makes them begin another
statement. -/
def Stmt.Separable : Stmt P → Prop
  | .declare _ type value _ =>
    (∀ tree ∈ type, tree.isOperator "=" = false) ∧ ∀ tree ∈ value, tree.isKind .semicolon = false
  | .assign _ value _ => ∀ tree ∈ value, tree.isKind .semicolon = false
  | .branch _ yes no _ => yes.Separable ∧ no.Separable
  | .loop _ body _ => body.Separable
  | .returnValue value _ => value ≠ [] ∧ ∀ tree ∈ value, tree.isKind .semicolon = false
  | .returnVoid _ => True
  | .expression value _ =>
    value ≠ [] ∧ (∀ tree ∈ value, tree.isKind .semicolon = false) ∧
      (∀ first ∈ value.head?, ∀ word ∈ [Keyword.letWord, .ifWord, .whileWord, .returnWord],
        first.isKind (.keyword word) = false) ∧
      ∀ second ∈ value[1]?, second.isOperator "=" = false

/-- The statements of a block are separable. -/
def Block.Separable : Block P → Prop
  | .mk stmts _ => Stmt.AllSeparable stmts

/-- Several statements are separable. -/
def Stmt.AllSeparable : List (Stmt P) → Prop
  | [] => True
  | stmt :: rest => stmt.Separable ∧ Stmt.AllSeparable rest

end

mutual

/-- A statement with one span in place of its own and of those of the statements in it. -/
def Stmt.withSpan (span : Span P) : Stmt P → Stmt P
  | .declare name type value _ => .declare name type value span
  | .assign name value _ => .assign name value span
  | .branch condition yes no _ => .branch condition (yes.withSpan span) (no.withSpan span) span
  | .loop condition body _ => .loop condition (body.withSpan span) span
  | .returnValue value _ => .returnValue value span
  | .returnVoid _ => .returnVoid span
  | .expression value _ => .expression value span

/-- A block with one span in place of those of its statements. -/
def Block.withSpan (span : Span P) : Block P → Block P
  | .mk stmts own => .mk (Stmt.withSpans span stmts) own

/-- `withSpan` over a list of statements. -/
def Stmt.withSpans (span : Span P) : List (Stmt P) → List (Stmt P)
  | [] => []
  | stmt :: rest => stmt.withSpan span :: Stmt.withSpans span rest

end

end Outline

/-! ## Cut off statements -/

namespace Outline

/-- What can be cut off a slice. -/
inductive CutsTo (slice : List (Tree P)) : Cut P → Prop
  | lone {tree : Tree P} :
    slice = [tree] → CutsTo slice ⟨.plain (.expression [tree] tree.span), []⟩
  | plain {stmt : Stmt P} {trees rest : List (Tree P)} :
    slice = trees ++ rest → Assembles Tree.Spanned stmt trees → Tree.Spanned stmt.span trees →
    CutsTo slice ⟨.plain stmt, rest⟩
  | branch {condition yes no : Region P} {first otherwise : Tree P} {rest : List (Tree P)} :
    slice = first :: .group .paren condition.trees condition.span ::
      .group .brace yes.trees yes.span :: otherwise :: .group .brace no.trees no.span :: rest →
    first.IsToken (.keyword .ifWord) "if" → otherwise.IsToken (.keyword .elseWord) "else" →
    CutsTo slice ⟨.branch condition yes no (first.span.through no.span), rest⟩
  | loop {condition body : Region P} {first : Tree P} {rest : List (Tree P)} :
    slice = first :: .group .paren condition.trees condition.span ::
      .group .brace body.trees body.span :: rest →
    first.IsToken (.keyword .whileWord) "while" →
    CutsTo slice ⟨.loop condition body (first.span.through body.span), rest⟩

/-- The span of a statement that ends with a given tree. -/
theorem spanned_append (first last : Tree P) (trees : List (Tree P)) :
    Tree.Spanned ⟨first.span.start, last.span.stop⟩ (first :: (trees ++ [last])) :=
  ⟨first, last, rfl, by rw [← List.cons_append, List.getLast?_concat], rfl⟩

section
variable {first : Tree P} {rest : List (Tree P)} {cut : Cut P}
  (hs : Tree.AllSpelled (first :: rest))
include hs

/-- A declaration that is cut off takes up the trees from its `let` to its semicolon. -/
theorem cutDeclare_cutsTo (hfirst : first.isKind (.keyword .letWord) = true)
    (h : cutDeclare first rest = .ok cut) : CutsTo (first :: rest) cut := by
  obtain ⟨name, hname, h⟩ := Outcome.bind_eq_ok.1 h
  obtain ⟨colon, hcolon, h⟩ := Outcome.bind_eq_ok.1 h
  split at h
  · cases h
  · rename_i type htype
    obtain ⟨value, hvalue, h⟩ := Outcome.bind_eq_ok.1 h
    cases h
    obtain ⟨hrest, hname⟩ := next_ok hname
    obtain ⟨hrest', hcolon⟩ := next_ok hcolon
    obtain ⟨equals, hequals, hisEquals, -, -⟩ := runTo_eq_some htype
    obtain ⟨last, hlast, hisLast, hstop, -⟩ := runTo_eq_some (runToSemicolon_ok hvalue)
    have hcolon := Tree.isKind_eq_true_iff.2 ⟨_, Tree.IsToken.of_token? hcolon⟩
    have hslice : first :: rest = first :: name.tree :: colon.tree ::
        (type.trees ++ equals :: (value.trees ++ [last])) ++ value.rest := by
      rw [hrest, hrest', hequals, hlast]
      simp
    rw [hslice] at hs ⊢
    refine .plain rfl (.declare ?_ (.of_token? hname) ?_
      (Tree.isOperator_eq_true_iff.1 hisEquals) ?_) ?_
    · exact hs.isToken (by simp) hfirst rfl
    · exact hs.isToken (by simp) hcolon rfl
    · exact hs.isToken (by simp) hisLast rfl
    · have := spanned_append first last
        (name.tree :: colon.tree :: (type.trees ++ equals :: value.trees))
      rw [← hstop] at this
      show Tree.Spanned ⟨first.span.start, value.stop⟩ _
      simpa using this

/-- A branch that is cut off takes up the trees from its `if` to its second block. -/
theorem cutBranch_cutsTo (hfirst : first.isKind (.keyword .ifWord) = true)
    (h : cutBranch first rest = .ok cut) : CutsTo (first :: rest) cut := by
  obtain ⟨condition, hcondition, h⟩ := Outcome.bind_eq_ok.1 h
  obtain ⟨yes, hyes, h⟩ := Outcome.bind_eq_ok.1 h
  obtain ⟨otherwise, hotherwise, h⟩ := Outcome.bind_eq_ok.1 h
  obtain ⟨no, hno, h⟩ := Outcome.bind_eq_ok.1 h
  cases h
  obtain ⟨hrest, hcondition⟩ := next_ok hcondition
  obtain ⟨hrest1, hyes⟩ := next_ok hyes
  obtain ⟨hrest2, hotherwise⟩ := next_ok hotherwise
  obtain ⟨hrest3, hno⟩ := next_ok hno
  have hotherwise := Tree.isKind_eq_true_iff.2 ⟨_, Tree.IsToken.of_token? hotherwise⟩
  rw [hrest, hrest1, hrest2, hrest3] at hs ⊢
  rw [Tree.region?_eq_some_iff.1 hno]
  refine .branch ?_ (hs.isToken (by simp) hfirst rfl) (hs.isToken (by simp) hotherwise rfl)
  rw [Tree.region?_eq_some_iff.1 hcondition, Tree.region?_eq_some_iff.1 hyes]

/-- A loop that is cut off takes up the trees from its `while` to its block. -/
theorem cutLoop_cutsTo (hfirst : first.isKind (.keyword .whileWord) = true)
    (h : cutLoop first rest = .ok cut) : CutsTo (first :: rest) cut := by
  obtain ⟨condition, hcondition, h⟩ := Outcome.bind_eq_ok.1 h
  obtain ⟨body, hbody, h⟩ := Outcome.bind_eq_ok.1 h
  cases h
  obtain ⟨hrest, hcondition⟩ := next_ok hcondition
  obtain ⟨hrest1, hbody⟩ := next_ok hbody
  rw [hrest, hrest1] at hs ⊢
  rw [Tree.region?_eq_some_iff.1 hbody]
  refine .loop ?_ (hs.isToken (by simp) hfirst rfl)
  rw [Tree.region?_eq_some_iff.1 hcondition]

/-- A return that is cut off takes up the trees from its keyword to its semicolon. -/
theorem cutReturn_cutsTo (hfirst : first.isKind (.keyword .returnWord) = true)
    (h : cutReturn first rest = .ok cut) : CutsTo (first :: rest) cut := by
  obtain ⟨value, hvalue, h⟩ := Outcome.bind_eq_ok.1 h
  obtain ⟨last, hlast, hisLast, hstop, -⟩ := runTo_eq_some (runToSemicolon_ok hvalue)
  have hspan := spanned_append first last value.trees
  rw [← hstop] at hspan
  have hfirst := hs.isToken (by simp) hfirst rfl
  have hlast' := hs.isToken (by simp [hlast]) hisLast rfl
  have hslice : first :: rest = first :: (value.trees ++ [last]) ++ value.rest := by
    rw [hlast]
    simp
  rw [hslice]
  split at h
  · rename_i hnil
    cases h
    rw [hnil] at hspan ⊢
    exact .plain rfl (.returnVoid hfirst hlast') hspan
  · cases h
    exact .plain rfl (.returnValue hfirst hlast') hspan

/-- An assignment that is cut off takes up the trees from its name to its semicolon. -/
theorem cutAssign_cutsTo {second : Tree P} {more : List (Tree P)} (hrest : rest = second :: more)
    (hsecond : second.isOperator "=" = true) (h : cutAssign first second more = .ok cut) :
    CutsTo (first :: rest) cut := by
  unfold cutAssign at h
  split at h
  · cases h
  · rename_i target htarget
    obtain ⟨value, hvalue, h⟩ := Outcome.bind_eq_ok.1 h
    cases h
    obtain ⟨last, hlast, hisLast, hstop, -⟩ := runTo_eq_some (runToSemicolon_ok hvalue)
    have hlast' := hs.isToken (by simp [hrest, hlast]) hisLast rfl
    have hslice : first :: rest = first :: second :: (value.trees ++ [last]) ++ value.rest := by
      rw [hrest, hlast]
      simp
    have hspan := spanned_append first last (second :: value.trees)
    rw [← hstop] at hspan
    rw [hslice]
    exact .plain rfl
      (.assign (.of_token? htarget) (Tree.isOperator_eq_true_iff.1 hsecond) hlast') hspan

/-- An expression that is cut off takes up the trees to its semicolon, or the one tree there is. -/
theorem cutExpression_cutsTo (h : cutExpression first rest = .ok cut) :
    CutsTo (first :: rest) cut := by
  obtain ⟨value, hvalue, h⟩ := Outcome.bind_eq_ok.1 h
  cases h
  obtain ⟨last, hlast, hisLast, hstop, -⟩ := runTo_eq_some (runToSemicolon_ok hvalue)
  rw [hlast] at hs
  have hlast' := hs.isToken (by simp) hisLast rfl
  refine .plain (by rw [hlast, List.append_assoc]; rfl) (.expression hlast') ?_
  show Tree.Spanned ⟨first.span.start, value.stop⟩ (value.trees ++ [last])
  rw [hstop]
  cases htrees : value.trees with
  | nil =>
    rw [htrees] at hlast
    cases hlast
    exact ⟨first, first, rfl, rfl, rfl⟩
  | cons tree trees =>
    rw [htrees] at hlast
    cases hlast
    exact spanned_append first last trees

/-- What is cut off first makes up the slice with what is left of it. -/
theorem cutFirst_cutsTo (h : cutFirst first rest = .ok cut) : CutsTo (first :: rest) cut := by
  unfold cutFirst at h
  split at h
  · rename_i hfirst
    exact cutDeclare_cutsTo hs hfirst h
  split at h
  · rename_i hfirst
    exact cutBranch_cutsTo hs hfirst h
  split at h
  · rename_i hfirst
    exact cutLoop_cutsTo hs hfirst h
  split at h
  · rename_i hfirst
    exact cutReturn_cutsTo hs hfirst h
  cases rest with
  | nil =>
    cases h
    exact .lone rfl
  | cons second more =>
    simp only [cutPlain] at h
    split at h
    · rename_i hsecond
      exact cutAssign_cutsTo hs rfl hsecond h
    · exact cutExpression_cutsTo hs h

end

/-- Outlined statements can be put together again to the trees that they were read from. -/
theorem assemblesAll_of_ofTrees {trees : List (Tree P)} {stmts : List (Stmt P)}
    (hs : Tree.AllSpelled trees) (h : ofTrees trees = .ok stmts) :
    AssemblesAll Tree.Spanned stmts trees := by
  induction trees using ofTrees.induct generalizing stmts with
  | case1 =>
    rw [ofTrees_nil] at h
    cases h
    exact .nil
  | case2 first rest fault hcut => cases (ofTrees_error hcut).symm.trans h
  | case3 first rest stmt after hcut ih =>
    rw [ofTrees_plain hcut] at h
    obtain ⟨more, hmore, h⟩ := Outcome.bind_eq_ok.1 h
    cases h
    cases cutFirst_cutsTo hs hcut with
    | lone hslice =>
      rw [ofTrees_nil] at hmore
      cases hmore
      rw [hslice]
      exact .lone ⟨_, _, rfl, rfl, rfl⟩
    | plain hslice hstmt hspan =>
      rw [hslice] at hs ⊢
      exact .cons hstmt hspan (ih (Tree.allSpelled_append.1 hs).2 hmore)
  | case4 first rest condition yes no span after hcut ihyes ihno ih =>
    rw [ofTrees_branch hcut] at h
    obtain ⟨yesStmts, hyes, h⟩ := Outcome.bind_eq_ok.1 h
    obtain ⟨noStmts, hno, h⟩ := Outcome.bind_eq_ok.1 h
    obtain ⟨more, hmore, h⟩ := Outcome.bind_eq_ok.1 h
    cases h
    cases cutFirst_cutsTo hs hcut with
    | branch hslice hif helse =>
      cases hslice
      obtain ⟨-, hs⟩ := Tree.allSpelled_cons.1 hs
      obtain ⟨-, hs⟩ := Tree.allSpelled_cons.1 hs
      obtain ⟨hsyes, hs⟩ := Tree.allSpelled_cons.1 hs
      obtain ⟨-, hs⟩ := Tree.allSpelled_cons.1 hs
      obtain ⟨hsno, hs⟩ := Tree.allSpelled_cons.1 hs
      exact .cons (.branch hif helse (ihyes (Tree.allSpelled_group.1 hsyes) hyes)
        (ihno (Tree.allSpelled_group.1 hsno) hno)) ⟨_, _, rfl, rfl, rfl⟩ (ih hs hmore)
  | case5 first rest condition body span after hcut ihbody ih =>
    rw [ofTrees_loop hcut] at h
    obtain ⟨bodyStmts, hbody, h⟩ := Outcome.bind_eq_ok.1 h
    obtain ⟨more, hmore, h⟩ := Outcome.bind_eq_ok.1 h
    cases h
    cases cutFirst_cutsTo hs hcut with
    | loop hslice hwhile =>
      cases hslice
      obtain ⟨-, hs⟩ := Tree.allSpelled_cons.1 hs
      obtain ⟨-, hs⟩ := Tree.allSpelled_cons.1 hs
      obtain ⟨hsbody, hs⟩ := Tree.allSpelled_cons.1 hs
      exact .cons (.loop hwhile (ihbody (Tree.allSpelled_group.1 hsbody) hbody))
        ⟨_, _, rfl, rfl, rfl⟩ (ih hs hmore)

/-! ## Outlined again -/

/-- The trees are outlined as the statement, at whatever span, in front of all that can follow. -/
def Outlined (stmt : Stmt P) (trees : List (Tree P)) : Prop :=
  ∃ found, (∀ after, ofTrees (trees ++ after) = (do
      let stmts ← ofTrees after
      .ok (found :: stmts))) ∧
    ∀ span, Stmt.withSpan span found = stmt.withSpan span

/-- The trees are outlined as the statements, at whatever spans. -/
def OutlinedAll (stmts : List (Stmt P)) (trees : List (Tree P)) : Prop :=
  ∃ found, ofTrees trees = .ok found ∧
    ∀ span, Stmt.withSpans span found = Stmt.withSpans span stmts

/-- Trees that are cut off as a plain statement are outlined as that statement, whatever follows. -/
theorem Outlined.of_cut {first : Tree P} {more : List (Tree P)} {stmt found : Stmt P}
    (hcut : ∀ after, cutFirst first (more ++ after) = .ok ⟨.plain found, after⟩)
    (h : ∀ span, found.withSpan span = stmt.withSpan span) : Outlined stmt (first :: more) :=
  ⟨found, fun after => ofTrees_plain (hcut after), h⟩

section
variable {condition : Region P} {first : Tree P} {span : Span P}

/-- A branch is outlined from its shape and from what its two blocks are outlined from. -/
theorem Outlined.branch {yes no : List (Stmt P)} {yesTrees noTrees : List (Tree P)}
    {yesSpan noSpan : Span P} {otherwise : Tree P}
    (hif : first.IsToken (.keyword .ifWord) "if")
    (helse : otherwise.IsToken (.keyword .elseWord) "else") (hyes : OutlinedAll yes yesTrees)
    (hno : OutlinedAll no noTrees) :
    Outlined (.branch condition (.mk yes yesSpan) (.mk no noSpan) span)
      [first, .group .paren condition.trees condition.span, .group .brace yesTrees yesSpan,
        otherwise, .group .brace noTrees noSpan] := by
  obtain ⟨yesFound, hyesFound, hyesSpans⟩ := hyes
  obtain ⟨noFound, hnoFound, hnoSpans⟩ := hno
  refine ⟨.branch condition (.mk yesFound yesSpan) (.mk noFound noSpan)
    (first.span.through noSpan), fun after => ?_, fun span => ?_⟩
  · have hcut := cutFirst_of_branch condition ⟨yesTrees, yesSpan⟩ ⟨noTrees, noSpan⟩ hif helse after
    refine (ofTrees_branch hcut).trans ?_
    rw [hyesFound, hnoFound]
    rfl
  · simp only [Stmt.withSpan, Block.withSpan, hyesSpans, hnoSpans]

/-- A loop is outlined from its shape and from what its block is outlined from. -/
theorem Outlined.loop {body : List (Stmt P)} {bodyTrees : List (Tree P)} {bodySpan : Span P}
    (hwhile : first.IsToken (.keyword .whileWord) "while") (hbody : OutlinedAll body bodyTrees) :
    Outlined (.loop condition (.mk body bodySpan) span)
      [first, .group .paren condition.trees condition.span, .group .brace bodyTrees bodySpan] := by
  obtain ⟨bodyFound, hbodyFound, hbodySpans⟩ := hbody
  refine ⟨.loop condition (.mk bodyFound bodySpan) (first.span.through bodySpan),
    fun after => ?_, fun span => ?_⟩
  · have hcut := cutFirst_of_loop condition ⟨bodyTrees, bodySpan⟩ hwhile after
    refine (ofTrees_loop hcut).trans ?_
    rw [hbodyFound]
    rfl
  · simp only [Stmt.withSpan, Block.withSpan, hbodySpans]

end

/-- A lone tree at the end of a block is outlined as an expression without a semicolon. -/
theorem OutlinedAll.lone {tree : Tree P} {span : Span P}
    (h : (Stmt.expression [tree] span).Separable) :
    OutlinedAll [.expression [tree] span] [tree] := by
  have hcut := cutFirst_eq_cutPlain [] (h.2.2.1 tree rfl)
  refine ⟨[.expression [tree] tree.span], (ofTrees_plain hcut).trans ?_, fun _ => rfl⟩
  rw [ofTrees_nil]
  rfl

/-- Statements are outlined from the trees of the first and the trees of the others behind them. -/
theorem OutlinedAll.cons {stmt : Stmt P} {rest : List (Stmt P)} {trees more : List (Tree P)}
    (h : Outlined stmt trees) (hrest : OutlinedAll rest more) :
    OutlinedAll (stmt :: rest) (trees ++ more) := by
  obtain ⟨found, hfound, hspan⟩ := h
  obtain ⟨restFound, hrestFound, hspans⟩ := hrest
  refine ⟨found :: restFound, ?_, fun span => ?_⟩
  · rw [hfound, hrestFound]
    rfl
  · rw [Stmt.withSpans, Stmt.withSpans, hspan, hspans]

mutual

/-- The trees of a separable statement are outlined as it. -/
theorem outlined_of_assembles : ∀ {stmt : Stmt P} {trees : List (Tree P)},
    Assembles (fun _ _ => True) stmt trees → stmt.Separable → Outlined stmt trees
  | .declare .., _, h, hsep => by
    cases h with
    | declare hfirst htarget hcolon hequals hlast =>
      exact .of_cut (cutFirst_of_declare hlast hsep.2 hfirst htarget hcolon hequals hsep.1)
        fun _ => rfl
  | .assign .., _, h, hsep => by
    cases h with
    | assign htarget hequals hlast =>
      exact .of_cut (cutFirst_of_assign hlast hsep htarget hequals) fun _ => rfl
  | .branch _ (.mk _ _) (.mk _ _) _, _, h, hsep => by
    cases h with
    | branch hif helse hyes hno =>
      exact .branch hif helse (outlinedAll_of_assemblesAll hyes hsep.1)
        (outlinedAll_of_assemblesAll hno hsep.2)
  | .loop _ (.mk _ _) _, _, h, hsep => by
    cases h with
    | loop hwhile hbody => exact .loop hwhile (outlinedAll_of_assemblesAll hbody hsep)
  | .returnValue .., _, h, hsep => by
    cases h with
    | returnValue hfirst hlast =>
      exact .of_cut (cutFirst_of_returnValue hlast hsep.2 hfirst hsep.1) fun _ => rfl
  | .returnVoid .., _, h, _ => by
    cases h with
    | returnVoid hfirst hlast => exact .of_cut (cutFirst_of_returnVoid hfirst hlast) fun _ => rfl
  | .expression value _, _, h, hsep => by
    cases h with
    | expression hlast =>
      obtain ⟨hne, hvalue, hword, hsecond⟩ := hsep
      obtain ⟨first, more, rfl⟩ := List.exists_cons_of_ne_nil hne
      rw [List.getElem?_cons_succ, ← List.head?_eq_getElem?] at hsecond
      exact .of_cut (cutFirst_of_expression hlast hvalue (hword first rfl) hsecond) fun _ => rfl

/-- The trees of separable statements are outlined as they are. -/
theorem outlinedAll_of_assemblesAll : ∀ {stmts : List (Stmt P)} {trees : List (Tree P)},
    AssemblesAll (fun _ _ => True) stmts trees → Stmt.AllSeparable stmts → OutlinedAll stmts trees
  | [], _, h, _ => by
    cases h with
    | nil => exact ⟨[], ofTrees_nil, fun _ => rfl⟩
  | _ :: _, _, h, hsep => by
    cases h with
    | lone _ => exact .lone hsep.1
    | cons hstmt _ hrest =>
      exact .cons (outlined_of_assembles hstmt hsep.1) (outlinedAll_of_assemblesAll hrest hsep.2)

end

/-! ## Trees for statements -/

mutual

/-- Trees of a statement, with the tokens of its shape all at its own span. -/
def Stmt.trees : Stmt P → List (Tree P)
  | .declare name type value span =>
    .leaf ⟨.keyword .letWord, "let", span⟩ :: .leaf ⟨.identifier, name, span⟩ ::
      .leaf ⟨.colon, ":", span⟩ ::
      (type ++ .leaf ⟨.operator, "=", span⟩ :: (value ++ [.leaf ⟨.semicolon, ";", span⟩]))
  | .assign name value span =>
    .leaf ⟨.identifier, name, span⟩ :: .leaf ⟨.operator, "=", span⟩ ::
      (value ++ [.leaf ⟨.semicolon, ";", span⟩])
  | .branch condition yes no span =>
    [.leaf ⟨.keyword .ifWord, "if", span⟩, .group .paren condition.trees condition.span, yes.tree,
      .leaf ⟨.keyword .elseWord, "else", span⟩, no.tree]
  | .loop condition body span =>
    [.leaf ⟨.keyword .whileWord, "while", span⟩, .group .paren condition.trees condition.span,
      body.tree]
  | .returnValue value span =>
    .leaf ⟨.keyword .returnWord, "return", span⟩ :: (value ++ [.leaf ⟨.semicolon, ";", span⟩])
  | .returnVoid span =>
    [.leaf ⟨.keyword .returnWord, "return", span⟩, .leaf ⟨.semicolon, ";", span⟩]
  | .expression value span => value ++ [.leaf ⟨.semicolon, ";", span⟩]

/-- The group of a block. -/
def Block.tree : Block P → Tree P
  | .mk stmts span => .group .brace (Stmt.allTrees stmts) span

/-- Trees of statements, one after another. -/
def Stmt.allTrees : List (Stmt P) → List (Tree P)
  | [] => []
  | stmt :: rest => stmt.trees ++ Stmt.allTrees rest

end

mutual

/-- Every statement assembles: its trees are outlined as the statement. -/
theorem Stmt.assembles : ∀ stmt : Stmt P, Assembles (fun _ _ => True) stmt stmt.trees
  | .declare .. => .declare ⟨_, rfl⟩ ⟨_, rfl⟩ ⟨_, rfl⟩ ⟨_, rfl⟩ ⟨_, rfl⟩
  | .assign .. => .assign ⟨_, rfl⟩ ⟨_, rfl⟩ ⟨_, rfl⟩
  | .branch _ (.mk yes _) (.mk no _) _ =>
    .branch ⟨_, rfl⟩ ⟨_, rfl⟩ (Stmt.assemblesAll yes) (Stmt.assemblesAll no)
  | .loop _ (.mk body _) _ => .loop ⟨_, rfl⟩ (Stmt.assemblesAll body)
  | .returnValue .. => .returnValue ⟨_, rfl⟩ ⟨_, rfl⟩
  | .returnVoid _ => .returnVoid ⟨_, rfl⟩ ⟨_, rfl⟩
  | .expression .. => .expression ⟨_, rfl⟩

/-- All statements can be put together. -/
theorem Stmt.assemblesAll : ∀ stmts : List (Stmt P),
    AssemblesAll (fun _ _ => True) stmts (Stmt.allTrees stmts)
  | [] => .nil
  | stmt :: rest => .cons stmt.assembles trivial (Stmt.assemblesAll rest)

end

/-- Statements outlined from a source can be put together again to what they were outlined from,
each with the span of its trees. And separable statements can be put together, and what they are put
together from is outlined as they are, but for their spans. -/
theorem ofTrees_assemblesAll :
    (∀ (source : Source) (limit : Nat) (origin : Position) (region : Region Position),
      source.region limit origin = .ok region →
      ∀ trees, Tree.Slice trees region.trees → ∀ stmts, ofTrees trees = .ok stmts →
        AssemblesAll Tree.Spanned stmts trees) ∧
    ∀ (P : Type) (stmts : List (Stmt P)), Stmt.AllSeparable stmts →
      (∃ trees, AssemblesAll (fun _ _ => True) stmts trees) ∧
      ∀ trees, AssemblesAll (fun _ _ => True) stmts trees →
        ∃ found, ofTrees trees = .ok found ∧
          ∀ span, Stmt.withSpans span found = Stmt.withSpans span stmts := by
  refine ⟨fun source limit origin region hregion trees hslice stmts h => ?_, fun P stmts hsep => ?_⟩
  · exact assemblesAll_of_ofTrees (hslice.allSpelled (Source.region_spelled hregion)) h
  · exact ⟨⟨_, Stmt.assemblesAll stmts⟩, fun trees h => outlinedAll_of_assemblesAll h hsep⟩

/-- An assignment, with a lone name after it. -/
def assigned : Source := ⟨"x = 1; y", "demo.let"⟩

/-- An assignment and an expression without a semicolon assemble. -/
theorem ofTrees_assemblesAll_assigned :
    let place := assigned.place
    let trees : List (Tree Position) :=
      [.leaf ⟨.identifier, "x", ⟨place 0, place 1⟩⟩, .leaf ⟨.operator, "=", ⟨place 2, place 3⟩⟩,
        .leaf ⟨.number, "1", ⟨place 4, place 5⟩⟩, .leaf ⟨.semicolon, ";", ⟨place 5, place 6⟩⟩,
        .leaf ⟨.identifier, "y", ⟨place 7, place 8⟩⟩]
    let stmts : List (Stmt Position) :=
      [.assign "x" [.leaf ⟨.number, "1", ⟨place 4, place 5⟩⟩] ⟨place 0, place 6⟩,
        .expression [.leaf ⟨.identifier, "y", ⟨place 7, place 8⟩⟩] ⟨place 7, place 8⟩]
    assigned.region 1 (place 0) = .ok ⟨trees, ⟨place 0, place 8⟩⟩ ∧ ofTrees trees = .ok stmts ∧
      AssemblesAll Tree.Spanned stmts trees ∧ Stmt.AllSeparable stmts ∧
      ∃ found, ofTrees trees = .ok found ∧
        ∀ span, Stmt.withSpans span found = Stmt.withSpans span stmts := by
  intro place trees stmts
  have htokens : assigned.tokens = .ok [⟨.identifier, "x", ⟨place 0, place 1⟩⟩,
      ⟨.operator, "=", ⟨place 2, place 3⟩⟩, ⟨.number, "1", ⟨place 4, place 5⟩⟩,
      ⟨.semicolon, ";", ⟨place 5, place 6⟩⟩, ⟨.identifier, "y", ⟨place 7, place 8⟩⟩] := by
    decide +kernel
  have hregion : assigned.region 1 (place 0) = .ok ⟨trees, ⟨place 0, place 8⟩⟩ := by
    rw [Source.region, htokens]
    rfl
  have hstmts : ofTrees trees = .ok stmts := by
    rw [ofTrees_plain rfl, ofTrees_plain rfl, ofTrees_nil]
    rfl
  have hsep : Stmt.AllSeparable stmts := by
    simp [stmts, Stmt.AllSeparable, Stmt.Separable, Tree.isKind]
  obtain ⟨hfirst, hsecond⟩ := ofTrees_assemblesAll
  refine ⟨hregion, hstmts, hfirst _ _ _ _ hregion _ (.here (List.infix_refl _)) _ hstmts, hsep, ?_⟩
  exact (hsecond _ stmts hsep).2 trees (.cons (.assign ⟨_, rfl⟩ ⟨_, rfl⟩ ⟨_, rfl⟩) trivial
    (.lone trivial))

end Outline

end LetWhile
