import LetWhile.Proofs.Outline.Size
import LetWhile.Proofs.Outline.Stage
import LetWhile.Proofs.Program.Decision

/-!
# Budgets that suffice

Every reading one level deeper is of a smaller slice or block, so a budget above the size of what is
read is never used up (`Reader.ofBudget_reaches`). A reading that does not use up its budget reads
what the grammar says, so slices are read as a climb reads them (`ofTrees_eq_climb`).
-/

namespace LetWhile

variable {P : Type}

open Outcome

/-- The outcome of a reading that stays within its budget. -/
abbrev Outcome.Fits {α : Type} (outcome : Outcome P α) : Prop := outcome.FaultsIn (· ≠ .depth)

/-- What is too deep does not fit. -/
theorem Outcome.TooDeep.not_fits {α : Type} {outcome : Outcome P α} (h : outcome.TooDeep) :
    ¬ outcome.Fits := by
  intro hfits
  obtain ⟨limit, pos, rfl⟩ := h
  exact hfits _ rfl rfl

/-! ## Types -/

/-- A type is read within a budget that is larger than its trees. -/
theorem Ty.ofTrees_fits (limit : Nat) : ∀ (budget : Nat) (origin : P) (trees : List (Tree P)),
    Tree.sizes trees < budget → (Ty.ofTrees limit budget origin trees).Fits
  | 0, _, _, h => absurd h (Nat.not_lt_zero _)
  | budget + 1, origin, trees, h => by
    have ih := fun (origin : P) trees => Ty.ofTrees_fits limit budget origin trees
    unfold Ty.ofTrees
    simp only
    split
    · split
      · exact .ok _
      · exact .error nofun
    · refine ih _ _ ?_
      simp only [Tree.sizes_cons, Tree.size_group, Tree.sizes_nil] at h
      omega
    · rename_i tree rest
      simp only [Tree.sizes_cons, Tree.size_group] at h
      split
      · refine (FaultsIn.mapM fun part hpart => ih _ part ?_).bind fun types _ =>
          (ih _ (tree :: rest) ?_).bind fun _ _ => .ok _
        · have := Tree.sizes_commaParts_le hpart
          omega
        · simp only [Tree.sizes_cons]
          omega
      · exact .error nofun
    · exact .error nofun

/-! ## Expressions and blocks -/

namespace Reader

/-- The readings one level deeper stay within their budget on what is smaller than `size`. -/
structure Reaches (inner : Reader P) (size : Nat) : Prop where
  expr : ∀ origin trees, Tree.sizes trees < size → (inner.expr origin trees).Fits
  type : ∀ origin trees, Tree.sizes trees < size → (inner.type origin trees).Fits
  block : ∀ outline, outline.size < size → (inner.block outline).Fits

variable {inner : Reader P} {size : Nat}

/-- Reading a token takes no depth. -/
theorem readToken_fits (token : Token P) : (readToken token).Fits := by
  unfold readToken
  split
  · exact .ok _
  · exact .ok _
  · split
    · exact .ok _
    · exact .error nofun
  · exact .ok _
  · exact .error nofun

/-- Reading a primary fits if what is in its parentheses does, which is smaller. -/
theorem readPrimary_fits (h : inner.Reaches size) {tree : Tree P} (hs : tree.size ≤ size) :
    (inner.readPrimary tree).Fits := by
  unfold readPrimary
  split
  · exact readToken_fits _
  · refine h.expr _ _ ?_
    rw [Tree.size_group] at hs
    omega
  · exact .error nofun

/-- Reading a prefix operator fits if its operand is small enough. -/
theorem readPrefixed_fits (h : inner.Reaches size) (token : Token P) {rest : List (Tree P)}
    (hs : Tree.sizes rest < size) : (inner.readPrefixed token rest).Fits := by
  unfold readPrefixed
  split
  · exact .error nofun
  · exact (h.expr _ rest hs).bind fun _ _ => .ok _

/-- Reading a call fits if its callee and its arguments are small enough. -/
theorem readCall_fits (h : inner.Reaches size) {callee : Tree P} {args : Region P}
    (hc : callee.size ≤ size) (ha : Tree.sizes args.trees < size) :
    (inner.readCall callee args).Fits := by
  refine (readPrimary_fits h hc).bind fun _ _ =>
    (FaultsIn.mapM fun part hpart => h.expr _ part ?_).bind fun _ _ => .ok _
  have := Tree.sizes_commaParts_le hpart
  omega

/-- Reading the name of a parameter takes no depth. -/
theorem parameterName_fits (origin : P) (part : List (Tree P)) :
    (parameterName origin part).Fits := by
  unfold parameterName
  split
  · exact .error fun h => by cases h
  · split
    · exact .ok _
    · exact .error fun h => by cases h

/-- Reading a function literal fits if its body is small enough. -/
theorem readFunction_fits (h : inner.Reaches size) (params : Region P) {body : Region P}
    (hb : 1 + Tree.sizes body.trees < size) : (inner.readFunction params body).Fits := by
  refine (FaultsIn.mapM fun part _ => parameterName_fits _ part).bind fun _ _ =>
    ((Outline.ofRegion_faultsIn body).mono ?_).bind fun outline houtline =>
      (h.block outline ?_).bind fun _ _ => .ok _
  · rintro _ rfl
    exact nofun
  · have := Outline.ofRegion_size_le houtline
    omega

/-- Reading a chain fits if its slice is small enough: a joint is taken out of it, so each operand
is smaller. -/
theorem readChain_fits (h : inner.Reaches size) (origin : P) {trees : List (Tree P)}
    (hs : Tree.sizes trees ≤ size) : (inner.readChain origin trees).Fits := by
  unfold readChain
  simp only
  split
  · split
    · exact .error nofun
    · exact .error nofun
  · rename_i power hlowest
    have hcuts := Chain.cut_cuts (Chain.atLeast_lowestPower? hlowest)
    have hfirst := hcuts.sizes_operand_lt (Chain.not_atLeast_of_lowestPower? hlowest)
    refine (h.expr _ _ (Nat.lt_of_lt_of_le hfirst hs)).bind fun first _ =>
      FaultsIn.foldlM (fun left link hlink => ?_) first
    have hlt := hcuts.sizes_link_lt link hlink
    exact (h.expr _ _ (Nat.lt_of_lt_of_le hlt hs)).bind fun _ _ => .ok _

/-- One level of reading expressions stays within the budget if the levels below do. -/
theorem readSlice_fits (h : inner.Reaches size) (origin : P) {trees : List (Tree P)}
    (hs : Tree.sizes trees ≤ size) : (inner.readSlice origin trees).Fits := by
  unfold readSlice
  split
  · exact .error nofun
  · refine readPrimary_fits h ?_
    simpa using hs
  · rename_i first rest _
    have hfirst := first.size_pos
    split
    · refine readPrefixed_fits h _ ?_
      rw [Tree.sizes_cons] at hs
      omega
    · split
      · rename_i hshape
        obtain ⟨-, ht⟩ := shapeOf_eq_call hshape
        rw [ht] at hs
        simp only [Tree.sizes_cons, Tree.size_group, Tree.sizes_nil] at hs
        exact readCall_fits h (by omega) (by omega)
      · rename_i hshape
        obtain ⟨arrow, -, ht⟩ := shapeOf_eq_function hshape
        rw [ht] at hs
        simp only [Tree.sizes_cons, Tree.size_group, Tree.sizes_nil] at hs
        exact readFunction_fits h _ (by omega)
      · exact readChain_fits h origin hs

/-- Reading a statement fits if its outline is small enough. -/
theorem readStmt_fits (h : inner.Reaches size) {outline : Outline.Stmt P}
    (hs : outline.size < size) : (inner.readStmt outline).Fits := by
  unfold readStmt
  split <;> simp only [Outline.Stmt.size] at hs
  · exact (h.type _ _ (by omega)).bind fun _ _ => (h.expr _ _ (by omega)).bind fun _ _ => .ok _
  · exact (h.expr _ _ (by omega)).bind fun _ _ => .ok _
  · exact (h.expr _ _ (by omega)).bind fun _ _ => (h.block _ (by omega)).bind fun _ _ =>
      (h.block _ (by omega)).bind fun _ _ => .ok _
  · exact (h.expr _ _ (by omega)).bind fun _ _ => (h.block _ (by omega)).bind fun _ _ => .ok _
  · exact (h.expr _ _ (by omega)).bind fun _ _ => .ok _
  · exact .ok _
  · exact (h.expr _ _ (by omega)).bind fun _ _ => .ok _

/-- One level of reading blocks stays within the budget if the levels below do. -/
theorem readBlock_fits (h : inner.Reaches size) {outline : Outline.Block P}
    (hs : outline.size ≤ size) : (inner.readBlock outline).Fits := by
  cases outline with
  | mk outlines span =>
    refine (FaultsIn.mapM fun stmt hstmt => readStmt_fits h ?_).bind fun _ _ => .ok _
    have : stmt.size ≤ Outline.Stmt.sizes outlines := Outline.Stmt.size_le_sizes hstmt
    rw [Outline.Block.size_mk] at hs
    omega

/-- A budget suffices for what is smaller. -/
theorem ofBudget_reaches (limit budget : Nat) :
    (ofBudget (P := P) limit budget).Reaches budget := by
  induction budget with
  | zero => exact ⟨nofun, nofun, nofun⟩
  | succ budget ih =>
    exact ⟨fun origin _ hs => readSlice_fits ih origin (Nat.le_of_lt_succ hs),
      Ty.ofTrees_fits limit (budget + 1), fun _ hs => readBlock_fits ih (Nat.le_of_lt_succ hs)⟩

end Reader

/-! ## Reading as climbing -/

/-- A slice is read as what a climb takes off it as a whole, and is not read if there is no such
expression, unless it is nested too deep for the budget; a budget above the number of its tokens
suffices. -/
theorem ofTrees_eq_climb (trees : List (Tree P)) :
    (∀ limit budget origin, ¬ (Expr.ofTrees limit budget origin trees).TooDeep →
      ∀ expr, Expr.ofTrees limit budget origin trees = .ok expr ↔
        Climb SpellsOperand 0 none trees expr []) ∧
    ∀ limit budget origin, Tree.sizes trees < budget →
      ¬ (Expr.ofTrees limit budget origin trees).TooDeep := by
  refine ⟨fun limit budget origin hdeep expr => ?_, fun limit budget origin hs hdeep => ?_⟩
  · have hdecides := (Reader.ofBudget_decides limit budget).expr origin trees
    exact (hdecides.resolve_left hdeep expr).trans spellsExpr_iff
  · exact hdeep.not_fits ((Reader.ofBudget_reaches limit budget).expr origin trees hs)

/-- Within a budget above the number of its tokens, a slice is read as the expression that it
spells. -/
theorem Expr.ofTrees_of_spells {limit : Nat} {trees : List (Tree P)} {expr : Expr P}
    (h : SpellsExpr trees expr) (hlimit : Tree.sizes trees < limit) (origin : P) :
    Expr.ofTrees limit limit origin trees = .ok expr := by
  rcases (Reader.ofBudget_decides limit limit).expr origin trees with hdeep | hdecides
  · have hfits := (Reader.ofBudget_reaches limit limit).expr origin trees hlimit
    exact absurd hfits hdeep.not_fits
  · exact (hdecides expr).2 h

end LetWhile
