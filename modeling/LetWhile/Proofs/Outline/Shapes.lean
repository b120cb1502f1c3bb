import LetWhile.Outline.OfTrees
import LetWhile.Proofs.Tree.Tokens

/-!
# The shapes of statements

A slice that begins with the shape of a statement is cut after it, whatever follows: a declaration
whose type holds no `=`, a branch or a loop with their groups, and any statement that ends with a
semicolon and holds none before.
-/

namespace LetWhile

namespace Outline
variable {P : Type}

/-- A run stops at the first tree that ends it. -/
theorem runTo_append {ends : Tree P → Bool} {trees : List (Tree P)} (separator : Tree P)
    (rest : List (Tree P)) (h : ∀ tree ∈ trees, ends tree = false) (hs : ends separator = true) :
    runTo ends (trees ++ separator :: rest) = some ⟨trees, separator.span.stop, rest⟩ := by
  induction trees with
  | nil => simp [runTo, hs]
  | cons tree trees ih =>
    obtain ⟨htree, htrees⟩ := List.forall_mem_cons.1 h
    simp [runTo, htree, ih htrees]

/-! ## Blocks -/

section
variable {first : Tree P} (condition : Region P)

/-- A slice that begins with the shape of a branch is cut behind the second block. -/
theorem cutFirst_of_branch (yes no : Region P) {otherwise : Tree P}
    (hif : first.IsToken (.keyword .ifWord) "if")
    (helse : otherwise.IsToken (.keyword .elseWord) "else") (after : List (Tree P)) :
    cutFirst first ([.group .paren condition.trees condition.span,
        .group .brace yes.trees yes.span, otherwise, .group .brace no.trees no.span] ++ after) =
      .ok ⟨.branch condition yes no (first.span.through no.span), after⟩ := by
  obtain ⟨_, rfl⟩ := hif
  obtain ⟨_, rfl⟩ := helse
  rfl

/-- A slice that begins with the shape of a loop is cut behind the block. -/
theorem cutFirst_of_loop (body : Region P) (hwhile : first.IsToken (.keyword .whileWord) "while")
    (after : List (Tree P)) :
    cutFirst first ([.group .paren condition.trees condition.span,
        .group .brace body.trees body.span] ++ after) =
      .ok ⟨.loop condition body (first.span.through body.span), after⟩ := by
  obtain ⟨_, rfl⟩ := hwhile
  rfl

end

/-! ## Semicolons -/

section
variable {name : String} {type value : List (Tree P)} {first last : Tree P}
  (hlast : last.IsToken .semicolon ";") (hvalue : ∀ tree ∈ value, tree.isKind .semicolon = false)
include hlast hvalue

/-- A run up to a semicolon takes the trees in front of the first one. -/
theorem runToSemicolon_append (start : P) (after : List (Tree P)) :
    runToSemicolon start (value ++ [last] ++ after) = .ok ⟨value, last.span.stop, after⟩ := by
  rw [List.append_assoc, List.singleton_append, runToSemicolon,
    runTo_append last after hvalue (Tree.isKind_eq_true_iff.2 ⟨_, hlast⟩)]

/-- A slice that begins with the shape of a declaration is cut behind the semicolon, if no operator
`=` stands in the type. -/
theorem cutFirst_of_declare {target colon equals : Tree P}
    (hfirst : first.IsToken (.keyword .letWord) "let") (htarget : target.IsToken .identifier name)
    (hcolon : colon.IsToken .colon ":") (hequals : equals.IsToken .operator "=")
    (htype : ∀ tree ∈ type, tree.isOperator "=" = false) (after : List (Tree P)) :
    cutFirst first (target :: colon :: (type ++ equals :: (value ++ [last])) ++ after) =
      .ok ⟨.plain (.declare name type value ⟨first.span.start, last.span.stop⟩), after⟩ := by
  have hrun := runTo_append equals (value ++ [last] ++ after) htype
    (Tree.isOperator_eq_true_iff.2 hequals)
  rw [← List.cons_append, ← List.append_assoc] at hrun
  obtain ⟨_, rfl⟩ := hfirst
  obtain ⟨_, rfl⟩ := htarget
  obtain ⟨_, rfl⟩ := hcolon
  show cutDeclare _ (_ :: _ :: (_ ++ after)) = _
  simp only [cutDeclare, next, Tree.token?, if_pos, bind, Except.bind]
  rw [hrun]
  simp only [runToSemicolon_append hlast hvalue]

/-- A slice that begins with a name and an `=` is cut behind the semicolon as an assignment. -/
theorem cutFirst_of_assign {target equals : Tree P} (htarget : target.IsToken .identifier name)
    (hequals : equals.IsToken .operator "=") (after : List (Tree P)) :
    cutFirst target (equals :: (value ++ [last]) ++ after) =
      .ok ⟨.plain (.assign name value ⟨target.span.start, last.span.stop⟩), after⟩ := by
  obtain ⟨_, rfl⟩ := htarget
  obtain ⟨_, rfl⟩ := hequals
  show (runToSemicolon _ (_ ++ after) >>= _) = _
  rw [runToSemicolon_append hlast hvalue]
  rfl

/-- A slice that begins with `return` and a value is cut behind the semicolon. -/
theorem cutFirst_of_returnValue (hfirst : first.IsToken (.keyword .returnWord) "return")
    (hne : value ≠ []) (after : List (Tree P)) :
    cutFirst first (value ++ [last] ++ after) =
      .ok ⟨.plain (.returnValue value ⟨first.span.start, last.span.stop⟩), after⟩ := by
  obtain ⟨_, rfl⟩ := hfirst
  show (runToSemicolon _ _ >>= _) = _
  rw [runToSemicolon_append hlast hvalue]
  obtain ⟨tree, trees, rfl⟩ := List.exists_cons_of_ne_nil hne
  rfl

end

section
variable {first last : Tree P}

/-- A slice that begins with `return` and a semicolon is cut behind it as a return of nothing. -/
theorem cutFirst_of_returnVoid (hfirst : first.IsToken (.keyword .returnWord) "return")
    (hlast : last.IsToken .semicolon ";") (after : List (Tree P)) :
    cutFirst first ([last] ++ after) =
      .ok ⟨.plain (.returnVoid ⟨first.span.start, last.span.stop⟩), after⟩ := by
  obtain ⟨_, rfl⟩ := hfirst
  show (runToSemicolon _ ([] ++ [last] ++ after) >>= _) = _
  rw [runToSemicolon_append hlast (List.forall_mem_nil _)]
  rfl

/-- What begins with none of the four words is cut as an assignment or an expression. -/
theorem cutFirst_eq_cutPlain (rest : List (Tree P))
    (h : ∀ word ∈ [Keyword.letWord, .ifWord, .whileWord, .returnWord],
      first.isKind (.keyword word) = false) : cutFirst first rest = cutPlain first rest := by
  simp only [List.forall_mem_cons] at h
  obtain ⟨hlet, hif, hwhile, hreturn, -⟩ := h
  simp only [cutFirst, hlet, hif, hwhile, hreturn, Bool.false_eq_true, if_false]

/-- A slice that begins with neither a keyword nor a name and an `=` is cut behind its first
semicolon as an expression. -/
theorem cutFirst_of_expression {more : List (Tree P)} (hlast : last.IsToken .semicolon ";")
    (hvalue : ∀ tree ∈ first :: more, tree.isKind .semicolon = false)
    (hword : ∀ word ∈ [Keyword.letWord, .ifWord, .whileWord, .returnWord],
      first.isKind (.keyword word) = false)
    (hsecond : ∀ second ∈ more.head?, second.isOperator "=" = false) (after : List (Tree P)) :
    cutFirst first (more ++ [last] ++ after) =
      .ok ⟨.plain (.expression (first :: more) ⟨first.span.start, last.span.stop⟩), after⟩ := by
  have hplain : cutPlain first (more ++ [last] ++ after) =
      cutExpression first (more ++ [last] ++ after) := by
    cases more with
    | nil =>
      obtain ⟨_, rfl⟩ := hlast
      rfl
    | cons second more => simp [cutPlain, hsecond second rfl]
  rw [cutFirst_eq_cutPlain _ hword, hplain]
  show (runToSemicolon _ (first :: more ++ [last] ++ after) >>= _) = _
  rw [runToSemicolon_append hlast hvalue]
  rfl

end

end Outline

end LetWhile
