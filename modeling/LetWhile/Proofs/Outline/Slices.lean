import LetWhile.Proofs.Outline.Assembly

/-!
# Slices in outlines

The expressions of an outlined block are slices of the trees that it is read from, and of all that
these are a slice of (`Outline.ofRegion_slicesOf`).
-/

namespace LetWhile

variable {P : Type}

open LetWhile.Tree (Slice)

namespace Outline

mutual

/-- The expressions of a statement are slices of some trees. -/
def Stmt.SlicesOf (root : List (Tree P)) : Stmt P → Prop
  | .declare _ _ value _ | .assign _ value _ | .returnValue value _ | .expression value _ =>
    Slice value root
  | .branch condition yes no _ =>
    Slice condition.trees root ∧ yes.SlicesOf root ∧ no.SlicesOf root
  | .loop condition body _ => Slice condition.trees root ∧ body.SlicesOf root
  | .returnVoid _ => True

/-- The expressions of the statements of a block are slices of some trees. -/
def Block.SlicesOf (root : List (Tree P)) : Block P → Prop
  | .mk stmts _ => Stmt.AllSlicesOf root stmts

/-- `Stmt.SlicesOf` over a list of statements. -/
def Stmt.AllSlicesOf (root : List (Tree P)) : List (Stmt P) → Prop
  | [] => True
  | stmt :: rest => stmt.SlicesOf root ∧ Stmt.AllSlicesOf root rest

end

/-- Statements are made of slices of the trees if each of them is. -/
theorem Stmt.allSlicesOf_iff {root : List (Tree P)} {stmts : List (Stmt P)} :
    Stmt.AllSlicesOf root stmts ↔ ∀ stmt ∈ stmts, stmt.SlicesOf root := by
  induction stmts with
  | nil => simp [Stmt.AllSlicesOf]
  | cons stmt rest ih => simp [Stmt.AllSlicesOf, ih]

section
variable {fits : Span P → List (Tree P) → Prop} {root : List (Tree P)}

-- The induction is on how the statements are put together from the trees.
mutual

/-- The expressions of a statement are slices of what its trees are a slice of. -/
theorem Assembles.slicesOf : ∀ {stmt : Stmt P} {trees : List (Tree P)}, Assembles fits stmt trees →
    Slice trees root → stmt.SlicesOf root
  | _, _, .declare .., h => .trans (.here declared_isInfix) h
  | _, _, .assign .., h => .trans (.here (List.infix_append' [_, _] _ _)) h
  | _, _, .branch _ _ hyes hno, h =>
    ⟨.of_group (.tail _ (.head _)) h, hyes.slicesOf (.of_group (.tail _ (.tail _ (.head _))) h),
      hno.slicesOf (.of_group (.tail _ (.tail _ (.tail _ (.tail _ (.head _))))) h)⟩
  | _, _, .loop _ hbody, h =>
    ⟨.of_group (.tail _ (.head _)) h, hbody.slicesOf (.of_group (.tail _ (.tail _ (.head _))) h)⟩
  | _, _, .returnValue .., h => .trans (.here (List.infix_append' [_] _ _)) h
  | _, _, .returnVoid .., _ => trivial
  | _, _, .expression .., h => .trans (.here (List.prefix_append _ _).isInfix) h

/-- The expressions of statements are slices of what their trees are a slice of. -/
theorem AssemblesAll.slicesOf : ∀ {stmts : List (Stmt P)} {trees : List (Tree P)},
    AssemblesAll fits stmts trees → Slice trees root → Stmt.AllSlicesOf root stmts
  | _, _, .nil, _ => trivial
  | _, _, .lone _, h => ⟨h, trivial⟩
  | _, _, .cons hstmt _ hrest, h =>
    ⟨hstmt.slicesOf (.trans (.here (List.prefix_append _ _).isInfix) h),
      hrest.slicesOf (.trans (.here (List.suffix_append _ _).isInfix) h)⟩

end

end

/-- The expressions of an outlined region are slices of what the region is a slice of. -/
theorem ofRegion_slicesOf {region : Region P} {block : Block P} {root : List (Tree P)}
    (hroot : Tree.AllSpelled root) (hslice : Slice region.trees root)
    (h : ofRegion region = .ok block) : block.SlicesOf root := by
  obtain ⟨stmts, hstmts, rfl⟩ := Outcome.map_eq_ok.1 h
  exact (assemblesAll_of_ofTrees (hslice.allSpelled hroot) hstmts).slicesOf hslice

end Outline

end LetWhile
