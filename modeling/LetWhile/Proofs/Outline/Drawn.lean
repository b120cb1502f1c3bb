import LetWhile.Proofs.Outline.Assembly
import LetWhile.Proofs.Tree.Slices

/-!
# What outlines are drawn from

A predicate `word` on the kinds and texts of tokens says which tokens there may be. An outline is
drawn from them if the names and the slices in it are (`Outline.Stmt.Drawn`). This is the case where
it is read from such tokens, since outlining makes up no token (`Outline.ofRegion_drawn`).
-/

namespace LetWhile

variable {P : Type} {word : Kind → String → Prop}

/-- Words are written as their kinds say. -/
def WellSpelled (word : Kind → String → Prop) : Prop :=
  ∀ kind text, word kind text → ∀ fixed ∈ kind.spelling?, text = fixed

/-- A token is one of the words. -/
def Token.Drawn (word : Kind → String → Prop) (token : Token P) : Prop := word token.kind token.text

/-- Trees that are drawn from well-spelled words are well spelled. -/
theorem WellSpelled.allSpelled {trees : List (Tree P)} (hword : WellSpelled word)
    (h : Tree.Holds (Token.Drawn word) trees) : Tree.AllSpelled trees :=
  fun token htoken => hword token.kind token.text (h token htoken)

/-- A token among trees that are drawn from words is one of the words. -/
theorem Tree.IsToken.drawn {kind : Kind} {text : String} {tree : Tree P}
    (h : tree.IsToken kind text) (htree : Tree.Holds (Token.Drawn word) [tree]) : word kind text := by
  obtain ⟨span, rfl⟩ := h
  exact Tree.holds_leaf.1 htree

namespace Outline

mutual

/-- The name and the slices of a statement are drawn from words, also in its blocks. -/
def Stmt.Drawn (word : Kind → String → Prop) : Stmt P → Prop
  | .declare name type value _ =>
    word .identifier name ∧ Tree.Holds (Token.Drawn word) type ∧
      Tree.Holds (Token.Drawn word) value
  | .assign name value _ => word .identifier name ∧ Tree.Holds (Token.Drawn word) value
  | .branch condition yes no _ =>
    Tree.Holds (Token.Drawn word) condition.trees ∧ yes.Drawn word ∧ no.Drawn word
  | .loop condition body _ => Tree.Holds (Token.Drawn word) condition.trees ∧ body.Drawn word
  | .returnValue value _ | .expression value _ => Tree.Holds (Token.Drawn word) value
  | .returnVoid _ => True

/-- The statements of a block are drawn from words. -/
def Block.Drawn (word : Kind → String → Prop) : Block P → Prop
  | .mk stmts _ => Stmt.AllDrawn word stmts

/-- Several statements are drawn from words. -/
def Stmt.AllDrawn (word : Kind → String → Prop) : List (Stmt P) → Prop
  | [] => True
  | stmt :: rest => stmt.Drawn word ∧ Stmt.AllDrawn word rest

end

/-- Each of the statements that are drawn from words is drawn from them. -/
theorem Stmt.AllDrawn.of_mem {stmts : List (Stmt P)} (h : Stmt.AllDrawn word stmts)
    {stmt : Stmt P} (hmem : stmt ∈ stmts) : stmt.Drawn word := by
  induction stmts with
  | nil => cases hmem
  | cons first rest ih =>
    rcases List.mem_cons.1 hmem with rfl | hmem
    · exact h.1
    · exact ih h.2 hmem

section
variable {fits : Span P → List (Tree P) → Prop}

-- The induction is on how the statements are put together from the trees.
mutual

/-- A statement is drawn from the words that its trees are drawn from. -/
theorem Assembles.drawn : ∀ {stmt : Stmt P} {trees : List (Tree P)}, Assembles fits stmt trees →
    Tree.Holds (Token.Drawn word) trees → stmt.Drawn word
  | _, _, .declare _ htarget _ _ _, h => by
    obtain ⟨-, h⟩ := Tree.holds_cons.1 h
    obtain ⟨hname, h⟩ := Tree.holds_cons.1 h
    obtain ⟨-, h⟩ := Tree.holds_cons.1 h
    obtain ⟨htype, h⟩ := Tree.holds_append.1 h
    obtain ⟨-, h⟩ := Tree.holds_cons.1 h
    exact ⟨htarget.drawn hname, htype, (Tree.holds_append.1 h).1⟩
  | _, _, .assign htarget _ _, h => by
    obtain ⟨hname, h⟩ := Tree.holds_cons.1 h
    obtain ⟨-, h⟩ := Tree.holds_cons.1 h
    exact ⟨htarget.drawn hname, (Tree.holds_append.1 h).1⟩
  | _, _, .branch _ _ hyes hno, h => by
    obtain ⟨-, h⟩ := Tree.holds_cons.1 h
    obtain ⟨hcondition, h⟩ := Tree.holds_cons.1 h
    obtain ⟨hyesTrees, h⟩ := Tree.holds_cons.1 h
    obtain ⟨-, hnoTrees⟩ := Tree.holds_cons.1 h
    exact ⟨Tree.holds_group.1 hcondition, hyes.drawn (Tree.holds_group.1 hyesTrees),
      hno.drawn (Tree.holds_group.1 hnoTrees)⟩
  | _, _, .loop _ hbody, h => by
    obtain ⟨-, h⟩ := Tree.holds_cons.1 h
    obtain ⟨hcondition, hbodyTrees⟩ := Tree.holds_cons.1 h
    exact ⟨Tree.holds_group.1 hcondition, hbody.drawn (Tree.holds_group.1 hbodyTrees)⟩
  | _, _, .returnValue _ _, h => (Tree.holds_append.1 (Tree.holds_cons.1 h).2).1
  | _, _, .returnVoid _ _, _ => trivial
  | _, _, .expression _, h => (Tree.holds_append.1 h).1

/-- Statements are drawn from the words that their trees are drawn from. -/
theorem AssemblesAll.drawn : ∀ {stmts : List (Stmt P)} {trees : List (Tree P)},
    AssemblesAll fits stmts trees → Tree.Holds (Token.Drawn word) trees →
      Stmt.AllDrawn word stmts
  | _, _, .nil, _ => trivial
  | _, _, .lone _, h => ⟨h, trivial⟩
  | _, _, .cons hstmt _ hrest, h => by
    obtain ⟨hfirst, hmore⟩ := Tree.holds_append.1 h
    exact ⟨hstmt.drawn hfirst, hrest.drawn hmore⟩

end

end

/-- An outlined region is drawn from the words that the region is drawn from. -/
theorem ofRegion_drawn {region : Region P} {block : Block P} (hword : WellSpelled word)
    (hdrawn : Tree.Holds (Token.Drawn word) region.trees) (h : ofRegion region = .ok block) :
    block.Drawn word := by
  obtain ⟨stmts, hstmts, rfl⟩ := Outcome.map_eq_ok.1 h
  exact (assemblesAll_of_ofTrees (hword.allSpelled hdrawn) hstmts).drawn hdrawn

end Outline

end LetWhile
