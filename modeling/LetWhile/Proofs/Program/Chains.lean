import LetWhile.Proofs.Program.Limit

/-!
# Chains of any length

However long a chain of operators of one power is, its operands are all read one level deeper than
the chain. Put together from operands whose own operators are tighter, a slice is cut into them
again (`Chain.cuts_join`, `Chain.Cuts.cut_eq`), and so it is read as what they are read as, folded
from the left (`Expr.ofTrees_chain`).
-/

namespace LetWhile

variable {P : Type}

namespace Chain

/-! ## Putting slices together -/

/-- The trees that a link is cut from: its operator and its operand. -/
def Link.trees (link : Link P) : List (Tree P) :=
  .leaf ⟨.operator, link.op.symbol, link.span⟩ :: link.operand

/-- The slice that is cut into an operand and links. -/
def join (operand : List (Tree P)) (links : List (Link P)) : List (Tree P) :=
  operand ++ links.flatMap Link.trees

/-- A slice that can stand between operators of a power: those in it are tighter, and it does not
end with one. -/
structure IsOperand (power : Nat) (trees : List (Tree P)) : Prop where
  tighter : AtLeast (power + 1) true trees
  complete : boundAfter true trees = false

/-- An operand is not empty: behind the empty slice an operator would be a prefix operator. -/
theorem IsOperand.ne_nil {power : Nat} {trees : List (Tree P)} (h : IsOperand power trees) :
    trees ≠ [] := by
  rintro rfl
  cases h.complete

section
variable {power : Nat} {bound : Bool} {trees operand : List (Tree P)} {links : List (Link P)}

/-- A slice of operands and operators of one power is cut at these. -/
theorem cuts_join (h : IsOperand power operand)
    (hlinks : ∀ link ∈ links, link.op.power = power ∧ IsOperand power link.operand) :
    Cuts power true (join operand links) operand links := by
  induction links generalizing operand with
  | nil =>
    rw [join, List.flatMap_nil, List.append_nil]
    exact .operand h.tighter
  | cons link links ih =>
    obtain ⟨⟨hpower, hoperand⟩, hlinks⟩ := List.forall_mem_cons.1 hlinks
    exact .link h.tighter h.complete rfl (BinaryOp.ofSymbol?_symbol link.op) hpower
      (ih hoperand hlinks)

/-- Cutting passes over a piece with tighter operators only. -/
theorem cut_append (h : AtLeast (power + 1) bound operand) (rest : List (Tree P)) :
    cut power bound (operand ++ rest) =
      ((cut power (boundAfter bound operand) rest).map (operand ++ ·) id) := by
  induction operand generalizing bound with
  | nil => rfl
  | cons tree operand ih =>
    have hjoint : ((joint? bound tree).bind fun token =>
        (operatorOf? power token).map (·, token.span)) = none := by
      refine Option.bind_eq_none_iff.2 fun token htoken => Option.map_eq_none_iff.2 ?_
      refine Option.eq_none_iff_forall_ne_some.2 fun op hop => ?_
      obtain ⟨ho, hp⟩ := operatorOf?_eq_some_iff.1 hop
      have := h token (List.mem_append_left _ (Option.mem_toList.2 htoken)) op ho
      omega
    rw [List.cons_append, cut, ih h.tail, hjoint]
    rfl

/-- A slice has one way of being cut. -/
theorem Cuts.cut_eq (h : Cuts power bound trees operand links) :
    cut power bound trees = (operand, links) := by
  induction h with
  | operand h =>
    have := cut_append h []
    rwa [List.append_nil, cut, Prod.map, List.append_nil] at this
  | @link bound operand rest next token op links h hafter hk ho hp _ ih =>
    have hjoint : joint? false (.leaf token) = some token :=
      joint?_eq_some_iff.2 ⟨rfl, rfl, hk⟩
    rw [cut_append h, hafter, cut, isKind_operator_leaf hk, ih, hjoint, Option.bind_some,
      operatorOf?_eq_some_iff.2 ⟨ho, hp⟩]
    simp

/-- The power that a slice is cut at is the lowest in it. -/
theorem Cuts.lowestPower?_eq (h : Cuts power bound trees operand links) (hne : links ≠ []) :
    lowestPower? (joints bound trees) = some power := by
  refine List.min?_eq_some_iff.2 ⟨?_, fun other hother => ?_⟩
  · cases h with
    | operand => exact absurd rfl hne
    | @link _ _ _ _ token _ _ _ hafter hk ho hp =>
      refine List.mem_filterMap.2 ⟨token, ?_, ?_⟩
      · rw [joints_append, hafter, joints_leaf_false hk]
        exact List.mem_append_right _ (.head _)
      · rw [ho, Option.map_some, hp]
  · obtain ⟨token, htoken, hother⟩ := List.mem_filterMap.1 hother
    obtain ⟨op, ho, rfl⟩ := Option.map_eq_some_iff.1 hother
    exact h.atLeast token htoken op ho

end

end Chain

open Chain

/-! ## Reading -/

/-- An expression that one more link continues, whose operand has been read. -/
def Expr.linked (left : Expr P) (link : Link P × Expr P) : Expr P :=
  .operation (.binary link.1.op) [left, link.2] (left.span.through link.2.span)

namespace Reader
variable {inner : Reader P} {power : Nat} {trees operand : List (Tree P)}

/-- A slice with an operator in it is neither a call nor a function literal. -/
theorem shapeOf_eq_chain {tree : Tree P} (hmem : tree ∈ trees)
    (hop : tree.isKind .operator = true) : shapeOf trees = .chain := by
  have hne {other : Tree P} (h : other.isKind .operator = false) : tree ≠ other := by
    rintro rfl
    cases hop.symm.trans h
  cases hshape : shapeOf trees with
  | chain => rfl
  | call callee args =>
    obtain ⟨hcallable, rfl⟩ := shapeOf_eq_call hshape
    rcases List.mem_cons.1 hmem with heq | hmem
    · exact absurd heq (hne (isKind_operator_of_isCallable hcallable))
    · exact absurd (List.mem_singleton.1 hmem) (hne rfl)
  | function params body =>
    obtain ⟨arrow, harrow, rfl⟩ := shapeOf_eq_function hshape
    rcases List.mem_cons.1 hmem with heq | hmem
    · exact absurd heq (hne rfl)
    rcases List.mem_cons.1 hmem with heq | hmem
    · exact absurd heq (hne (isKind_operator_of_isKind harrow (by decide)))
    · exact absurd (List.mem_singleton.1 hmem) (hne rfl)

/-- A slice that is cut at an operator, and does not begin with one, is read as a chain. -/
theorem readSlice_eq_readChain {links : List (Link P)} (hne : operand ≠ []) (hlinks : links ≠ [])
    (hfront : ∀ tree ∈ operand.head?, tree.isKind .operator = false) (origin : P) :
    inner.readSlice origin (join operand links) = inner.readChain origin (join operand links) := by
  obtain ⟨first, operand, rfl⟩ := List.exists_cons_of_ne_nil hne
  obtain ⟨link, links, rfl⟩ := List.exists_cons_of_ne_nil hlinks
  have hop : (Tree.leaf ⟨.operator, link.op.symbol, link.span⟩).isKind .operator = true :=
    isKind_operator_leaf rfl
  have hshape : shapeOf (join (first :: operand) (link :: links)) = .chain :=
    shapeOf_eq_chain (List.mem_append_right _ (.head _)) hop
  have htoken : first.token? .operator = none := by
    refine Option.eq_none_iff_forall_ne_some.2 fun token htoken => ?_
    obtain ⟨rfl, hk⟩ := Tree.token?_eq_some_iff.1 htoken
    cases (isKind_operator_leaf hk).symm.trans (hfront _ rfl)
  have hrest : operand ++ (link :: links).flatMap Link.trees ≠ [] :=
    List.append_ne_nil_of_right_ne_nil _ (List.cons_ne_nil _ _)
  rw [join, List.cons_append] at hshape ⊢
  obtain ⟨second, rest, hrest⟩ := List.exists_cons_of_ne_nil hrest
  rw [hrest] at hshape ⊢
  simp only [readSlice, htoken, hshape]

/-- A chain that is cut into an operand and links is read from the left, one link after another. -/
theorem readChain_eq {links : List (Link P)} (h : Cuts power true trees operand links)
    (hne : links ≠ []) (origin : P) : inner.readChain origin trees = (do
      let first ← inner.expr (Tree.startOr origin trees) operand
      links.foldlM inner.readLink first) := by
  simp only [readChain, h.lowestPower?_eq hne, h.cut_eq]

/-- Links whose operands are read continue an expression one after another. -/
theorem foldlM_readLink {links : List (Link P × Expr P)}
    (h : ∀ link ∈ links, inner.expr link.1.span.stop link.1.operand = .ok link.2)
    (first : Expr P) :
    (links.map Prod.fst).foldlM inner.readLink first = .ok (links.foldl Expr.linked first) := by
  induction links generalizing first with
  | nil => rfl
  | cons link links ih =>
    obtain ⟨hlink, hlinks⟩ := List.forall_mem_cons.1 h
    rw [List.map_cons, List.foldlM_cons, readLink, hlink]
    exact ih hlinks _

end Reader

/-- Where a slice is not empty, how it is read does not depend on where an empty one would lie. -/
theorem Expr.ofTrees_origin {trees : List (Tree P)} (hne : trees ≠ []) (limit budget : Nat)
    (origin origin' : P) :
    Expr.ofTrees limit budget origin trees = Expr.ofTrees limit budget origin' trees := by
  obtain ⟨tree, trees, rfl⟩ := List.exists_cons_of_ne_nil hne
  cases budget with
  | zero => rfl
  | succ budget =>
    cases trees with
    | nil => rfl
    | cons => rfl

section
variable {limit budget : Nat} {origin : P} {trees : List (Tree P)} {expr : Expr P}

/-- What is read is not cut off behind an operator. -/
theorem Expr.boundAfter_of_ofTrees (h : Expr.ofTrees limit budget origin trees = .ok expr) :
    boundAfter true trees = false := by
  rcases (Reader.ofBudget_decides limit budget).expr origin trees with ⟨_, _, htooDeep⟩ | hiff
  · cases h.symm.trans htooDeep
  · exact (spellsExpr_iff.1 ((hiff expr).1 h)).boundAfter_eq

/-- What is read within a budget is read within it wherever it stands, under every limit that faults
speak of. -/
theorem Expr.ofTrees_anywhere (h : Expr.ofTrees limit budget origin trees = .ok expr)
    (limit' : Nat) (origin' : P) : Expr.ofTrees limit' budget origin' trees = .ok expr := by
  have hne : trees ≠ [] := by
    rintro rfl
    cases Expr.boundAfter_of_ofTrees h
  rw [Expr.ofTrees_origin hne limit' budget origin' origin]
  rcases (Reader.ofBudget_persists limit limit' (Nat.le_refl budget)).expr origin trees with
    ⟨_, _, htooDeep⟩ | hsame
  · cases h.symm.trans htooDeep
  · exact hsame.trans h

end

/-- A chain takes one level more than its operands, however long it is. Operands that are read
within a budget, with operators of one power between them and none but tighter ones among their own,
make up a slice that is read within a budget of one more. It is read as what the operands are read
as, put together by the operators from the left. -/
theorem Expr.ofTrees_chain {limit budget power : Nat} {operand : List (Tree P)} {first : Expr P}
    {links : List (Link P × Expr P)} (hne : links ≠ [])
    (hfront : ∀ tree ∈ operand.head?, tree.isKind .operator = false)
    (hpower : ∀ link ∈ links, link.1.op.power = power)
    (hfirst : ∃ origin, Expr.ofTrees limit budget origin operand = .ok first)
    (hlinks : ∀ link ∈ links,
      ∃ origin, Expr.ofTrees limit budget origin link.1.operand = .ok link.2)
    (htighter : ∀ trees ∈ operand :: links.map (·.1.operand), AtLeast (power + 1) true trees)
    (limit' : Nat) (origin : P) :
    Expr.ofTrees limit' (budget + 1) origin (join operand (links.map Prod.fst)) =
      .ok (links.foldl Expr.linked first) := by
  obtain ⟨_, hfirst⟩ := hfirst
  obtain ⟨hleast, hmore⟩ := List.forall_mem_cons.1 htighter
  have hoperand : IsOperand power operand := ⟨hleast, Expr.boundAfter_of_ofTrees hfirst⟩
  have hcuts : Cuts power true (join operand (links.map Prod.fst)) operand
      (links.map Prod.fst) := by
    refine cuts_join hoperand (List.forall_mem_map.2 fun link hlink => ?_)
    obtain ⟨_, hread⟩ := hlinks link hlink
    exact ⟨hpower link hlink, hmore _ (List.mem_map.2 ⟨link, hlink, rfl⟩),
      Expr.boundAfter_of_ofTrees hread⟩
  have hmapped : links.map Prod.fst ≠ [] := fun hnil => hne (List.map_eq_nil_iff.1 hnil)
  show (Reader.ofBudget limit' budget).readSlice origin _ = _
  rw [Reader.readSlice_eq_readChain hoperand.ne_nil hmapped hfront,
    Reader.readChain_eq hcuts hmapped]
  have hlinks : ∀ link ∈ links,
      (Reader.ofBudget limit' budget).expr link.1.span.stop link.1.operand = .ok link.2 := by
    intro link hlink
    obtain ⟨_, hread⟩ := hlinks link hlink
    exact Expr.ofTrees_anywhere hread limit' _
  exact Outcome.bind_eq_ok.2
    ⟨first, Expr.ofTrees_anywhere hfirst limit' _, Reader.foldlM_readLink hlinks first⟩

/-- `1 - -2 + 3` is read within three levels, as `-2` is within two. -/
theorem Expr.ofTrees_chain_prefixed :
    let number (text : String) : Tree Nat := .leaf ⟨.number, text, ⟨0, 0⟩⟩
    let value (n : Int) : Expr Nat := .number n ⟨0, 0⟩
    let negative : Expr Nat := .operation (.prefixed .negate) [value 2] ⟨0, 0⟩
    let links : List (Link Nat × Expr Nat) :=
      [(⟨.minus, ⟨0, 0⟩, [.leaf ⟨.operator, "-", ⟨0, 0⟩⟩, number "2"]⟩, negative),
        (⟨.plus, ⟨0, 0⟩, [number "3"]⟩, value 3)]
    Expr.ofTrees 3 3 0 (join [number "1"] (links.map Prod.fst)) =
      .ok (links.foldl Expr.linked (value 1)) := by
  intro number value negative links
  have hpower : ∀ link ∈ links, link.1.op.power = 30 := by decide
  have hfirst : ∃ origin, Expr.ofTrees 2 2 origin [number "1"] = .ok (value 1) := ⟨0, rfl⟩
  have hlinks : ∀ link ∈ links, ∃ origin, Expr.ofTrees 2 2 origin link.1.operand = .ok link.2 :=
    List.forall_mem_cons.2 ⟨⟨0, rfl⟩, List.forall_mem_singleton.2 ⟨0, rfl⟩⟩
  have hjoints : ∀ trees ∈ [number "1"] :: links.map (·.1.operand), joints true trees = [] := by
    decide
  have htighter : ∀ trees ∈ [number "1"] :: links.map (·.1.operand), AtLeast 31 true trees := by
    intro trees htrees token htoken
    rw [hjoints trees htrees] at htoken
    cases htoken
  have hfront : ∀ tree ∈ [number "1"].head?, tree.isKind .operator = false := by
    rintro _ ⟨⟩
    rfl
  exact Expr.ofTrees_chain (List.cons_ne_nil _ _) hfront hpower hfirst hlinks htighter 3 0

end LetWhile
