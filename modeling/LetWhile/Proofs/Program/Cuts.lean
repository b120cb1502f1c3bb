import LetWhile.Proofs.Program.Climbing
import LetWhile.Proofs.Tree.Size
import LetWhile.Proofs.Tree.Tokens

/-!
# Cutting chains where a climb would pause

`Cuts` says that a slice is cut at operators of one power and that all others in its pieces are
tighter, which `Chain.cut` achieves at the lowest power (`cut_cuts`). A climb reads a slice that is
cut like this piece by piece: each piece is read on its own, as a whole slice
(`Climb.joined_operand_iff`, `Climb.joined_link_iff`).
-/

namespace LetWhile

namespace Chain
variable {P : Type}

/-! ## Cuts -/

/-- A slice cut at binary operators of the given power, with tighter ones left in its pieces. -/
inductive Cuts (power : Nat) : Bool → List (Tree P) → List (Tree P) → List (Link P) → Prop
  | operand {bound : Bool} {operand : List (Tree P)} :
    AtLeast (power + 1) bound operand → Cuts power bound operand operand []
  | link {bound : Bool} {operand rest next : List (Tree P)} {token : Token P} {op : BinaryOp}
      {links : List (Link P)} :
    AtLeast (power + 1) bound operand → boundAfter bound operand = false →
    token.kind = .operator → BinaryOp.ofSymbol? token.text = some op → op.power = power →
    Cuts power true rest next links →
    Cuts power bound (operand ++ .leaf token :: rest) operand (⟨op, token.span, next⟩ :: links)

/-- A tree that a slice is not cut at belongs to its first piece. -/
theorem Cuts.cons {power : Nat} {bound : Bool} {tree : Tree P} {trees operand : List (Tree P)}
    {links : List (Link P)} (h : Cuts power (tree.isKind .operator) trees operand links)
    (htree : ∀ token ∈ joint? bound tree, ∀ op, BinaryOp.ofSymbol? token.text = some op →
      power + 1 ≤ op.power) : Cuts power bound (tree :: trees) (tree :: operand) links := by
  have hoperand {operand : List (Tree P)} (h : AtLeast (power + 1) (tree.isKind .operator) operand) :
      AtLeast (power + 1) bound (tree :: operand) := by
    intro token ht
    rcases List.mem_append.1 ht with ht | ht
    · exact htree token (Option.mem_toList.1 ht)
    · exact h token ht
  cases h with
  | operand h => exact .operand (hoperand h)
  | link h hbound hk ho hp hrest => exact .link (hoperand h) hbound hk ho hp hrest

/-- A tree is a joint if it is an operator behind an operand. -/
theorem joint?_eq_some_iff {bound : Bool} {tree : Tree P} {token : Token P} :
    joint? bound tree = some token ↔
      bound = false ∧ tree = .leaf token ∧ token.kind = .operator := by
  cases bound with
  | true => simp [joint?]
  | false => simp [joint?, Tree.token?_eq_some_iff]

/-- A token is an operator of a power if its text is a binary operator that has that power. -/
theorem operatorOf?_eq_some_iff {power : Nat} {token : Token P} {op : BinaryOp} :
    operatorOf? power token = some op ↔
      BinaryOp.ofSymbol? token.text = some op ∧ op.power = power := by
  simp [operatorOf?, Option.filter_eq_some_iff]

/-- Cutting at the lowest power leaves tighter operators in the pieces. -/
theorem cut_cuts {power : Nat} {bound : Bool} {trees : List (Tree P)}
    (h : AtLeast power bound trees) :
    Cuts power bound trees (cut power bound trees).1 (cut power bound trees).2 := by
  induction trees generalizing bound with
  | nil => exact .operand nofun
  | cons tree rest ih =>
    have hrest := ih h.tail
    unfold cut
    generalize hj : ((joint? bound tree).bind fun token =>
      (operatorOf? power token).map (·, token.span)) = link?
    cases link? with
    | some link =>
      obtain ⟨token, htoken, hlink⟩ := Option.bind_eq_some_iff.1 hj
      obtain ⟨op, hop, rfl⟩ := Option.map_eq_some_iff.1 hlink
      obtain ⟨rfl, rfl, hk⟩ := joint?_eq_some_iff.1 htoken
      obtain ⟨ho, hp⟩ := operatorOf?_eq_some_iff.1 hop
      rw [isKind_operator_leaf hk] at hrest
      exact .link (show AtLeast (power + 1) false [] from nofun) rfl hk ho hp
        (by simpa [isKind_operator_leaf hk] using hrest)
    | none =>
      refine hrest.cons fun token htoken op ho => ?_
      have hle : power ≤ op.power := by
        refine h token ?_ op ho
        rw [joints]
        exact List.mem_append_left _ (by simpa using htoken)
      have hne : op.power ≠ power := fun hp => by
        rw [htoken, Option.bind_some, operatorOf?_eq_some_iff.2 ⟨ho, hp⟩] at hj
        cases hj
      omega

/-- A slice is cut at operators of the lowest power in it. -/
theorem Cuts.atLeast {power : Nat} {bound : Bool} {trees operand : List (Tree P)}
    {links : List (Link P)} (h : Cuts power bound trees operand links) :
    AtLeast power bound trees := by
  induction h with
  | operand hleast => exact hleast.mono (Nat.le_succ _)
  | link hleast hafter hk ho hp _ ih =>
    intro token htoken op hop
    rw [joints_append, hafter, joints_leaf_false hk] at htoken
    rcases List.mem_append.1 htoken with htoken | htoken
    · exact hleast.mono (Nat.le_succ _) token htoken op hop
    rcases List.mem_cons.1 htoken with rfl | htoken
    · cases ho.symm.trans hop
      exact Nat.le_of_eq hp.symm
    · exact ih token htoken op hop

/-- All joints are bound at least as tightly as the lowest power says. -/
theorem atLeast_lowestPower? {bound : Bool} {trees : List (Tree P)} {power : Nat}
    (h : lowestPower? (joints bound trees) = some power) : AtLeast power bound trees := by
  intro token ht op ho
  refine (List.min?_eq_some_iff.1 h).2 _ (List.mem_filterMap.2 ⟨token, ht, ?_⟩)
  rw [ho, Option.map_some]

/-- Without a lowest power no joint is a binary operator. -/
theorem not_binary_of_lowestPower? {tokens : List (Token P)} (h : lowestPower? tokens = none)
    {token : Token P} (ht : token ∈ tokens) : BinaryOp.ofSymbol? token.text = none := by
  have := List.filterMap_eq_nil_iff.1 (List.min?_eq_none_iff.1 h) token ht
  simpa using this

/-! ## Pieces are slices -/

/-- The operand in front of the first cut is where the slice begins. -/
theorem Cuts.operand_isPrefix {power : Nat} {bound : Bool} {trees operand : List (Tree P)}
    {links : List (Link P)} (h : Cuts power bound trees operand links) : operand <+: trees := by
  cases h with
  | operand => exact List.prefix_refl _
  | link => exact List.prefix_append _ _

/-- Each link comes from an operator of the slice and an operand behind it. -/
theorem Cuts.link_isInfix {power : Nat} {bound : Bool} {trees operand : List (Tree P)}
    {links : List (Link P)} (h : Cuts power bound trees operand links) :
    ∀ link ∈ links, link.operand <:+: trees ∧ ∃ token, .leaf token ∈ trees ∧
      token.kind = .operator ∧ BinaryOp.ofSymbol? token.text = some link.op := by
  induction h with
  | operand => exact List.forall_mem_nil _
  | @link _ before rest _ token _ _ _ _ hk ho _ hrest ih =>
    have hsuffix : rest <:+ before ++ .leaf token :: rest := ⟨before ++ [.leaf token], by simp⟩
    refine List.forall_mem_cons.2 ⟨?_, fun link hlink => ?_⟩
    · exact ⟨hrest.operand_isPrefix.isInfix.trans hsuffix.isInfix, token, by simp, hk, ho⟩
    · obtain ⟨hoperand, other, hother, hkind⟩ := ih link hlink
      exact ⟨hoperand.trans hsuffix.isInfix, other, hsuffix.subset hother, hkind⟩

/-- A slice is cut at operators of the given power only. -/
theorem Cuts.link_power {power : Nat} {bound : Bool} {trees operand : List (Tree P)}
    {links : List (Link P)} (h : Cuts power bound trees operand links) :
    ∀ link ∈ links, link.op.power = power := by
  induction h with
  | operand => exact List.forall_mem_nil _
  | link _ _ _ _ hp _ ih => exact List.forall_mem_cons.2 ⟨hp, ih⟩

/-- In front of its last link a slice is cut like this too. -/
theorem Cuts.of_concat {power : Nat} {bound : Bool} {trees operand : List (Tree P)}
    {links : List (Link P)} {link : Link P}
    (h : Cuts power bound trees operand (links ++ [link])) :
    ∃ front token, trees = front ++ .leaf token :: link.operand ∧ token.kind = .operator ∧
      Cuts power bound front operand links := by
  generalize hlinks : links ++ [link] = all at h
  induction h generalizing links with
  | operand => exact absurd hlinks (by simp)
  | @link _ operand rest next token op more hleast hafter hk ho hp hrest ih =>
    cases links with
    | nil =>
      cases hlinks
      cases hrest with
      | operand => exact ⟨operand, token, rfl, hk, .operand hleast⟩
    | cons first links =>
      cases hlinks
      obtain ⟨front, last, rfl, hlast, hfront⟩ := ih rfl
      exact ⟨operand ++ .leaf token :: front, last, by simp, hlast,
        .link hleast hafter hk ho hp hfront⟩

/-! ## Sizes of pieces -/

/-- The operand in front of the first cut is at most as large as the slice. -/
theorem Cuts.sizes_operand_le {power : Nat} {bound : Bool} {trees operand : List (Tree P)}
    {links : List (Link P)} (h : Cuts power bound trees operand links) :
    Tree.sizes operand ≤ Tree.sizes trees := by
  cases h with
  | operand => exact Nat.le_refl _
  | link => simp

/-- A slice that has an operator of the power that it is cut at is larger than its first piece. -/
theorem Cuts.sizes_operand_lt {power : Nat} {bound : Bool} {trees operand : List (Tree P)}
    {links : List (Link P)} (h : Cuts power bound trees operand links)
    (hp : ¬ AtLeast (power + 1) bound trees) : Tree.sizes operand < Tree.sizes trees := by
  cases h with
  | operand h => exact absurd h hp
  | link =>
    simp only [Tree.sizes_append, Tree.sizes_cons, Tree.size_leaf]
    omega

/-- The further pieces of a slice are smaller than the slice. -/
theorem Cuts.sizes_link_lt {power : Nat} {bound : Bool} {trees operand : List (Tree P)}
    {links : List (Link P)} (h : Cuts power bound trees operand links) :
    ∀ link ∈ links, Tree.sizes link.operand < Tree.sizes trees := by
  induction h with
  | operand => exact nofun
  | link _ _ _ _ _ hrest ih =>
    intro link hlink
    simp only [Tree.sizes_append, Tree.sizes_cons, Tree.size_leaf]
    rcases List.mem_cons.1 hlink with rfl | hlink
    · have := hrest.sizes_operand_le
      simp only
      omega
    · have := ih link hlink
      omega

/-- The lowest power is that of an operator of the slice. -/
theorem not_atLeast_of_lowestPower? {bound : Bool} {trees : List (Tree P)} {power : Nat}
    (h : lowestPower? (joints bound trees) = some power) : ¬ AtLeast (power + 1) bound trees := by
  intro hleast
  obtain ⟨token, ht, hp⟩ := List.mem_filterMap.1 (List.min?_eq_some_iff.1 h).1
  obtain ⟨op, ho, hp⟩ := Option.map_eq_some_iff.1 hp
  have := hleast token ht op ho
  omega

end Chain

open Chain

/-! ## Climbing a cut slice -/

namespace Climb
variable {P : Type} {Operand : List (Tree P) → Expr P → Prop} {power : Nat} {expr : Expr P}
  {trees : List (Tree P)}

/-- The expression that a slice gives from the operand at its front on: that operand is read at the
next higher power and joined to what stands on its left, and then operators of at least the given
power are taken. -/
def Joined (Operand : List (Tree P) → Expr P → Prop) (power : Nat) (join : Expr P → Expr P)
    (trees : List (Tree P)) (expr : Expr P) : Prop :=
  ∃ right rest, Climb Operand (power + 1) none trees right rest ∧
    Climb Operand power (some (join right)) rest expr []

/-- A slice whose operators are all tighter is read as a whole and joined. -/
theorem joined_operand_iff (h : AtLeast (power + 1) true trees) {join : Expr P → Expr P} :
    Joined Operand power join trees expr ↔
      ∃ right, Climb Operand 0 none trees right [] ∧ expr = join right := by
  have h0 : AtLeast 0 true trees := h.mono (Nat.zero_le _)
  refine ⟨?_, ?_⟩
  · intro h'
    obtain ⟨right, rest, hright, hexpr⟩ := h'
    rcases hright.last_cases h with rfl | ⟨token, rest, rfl, hk, ho⟩
    · exact ⟨right, (power_irrelevant h h0).1 hright, (some_nil_iff.1 hexpr).1⟩
    · exact absurd hexpr (not_passed ho)
  · intro h'
    obtain ⟨right, hright, rfl⟩ := h'
    exact ⟨right, [], (power_irrelevant h0 h).1 hright, some_nil_iff.2 ⟨rfl, rfl⟩⟩

/-- The piece before an operator of the given power is read as a whole and joined, and becomes what
stands on the left of the next piece. -/
theorem joined_link_iff (h : AtLeast (power + 1) true trees) (hbound : boundAfter true trees = false)
    {token : Token P} (hk : token.kind = .operator) {op : BinaryOp}
    (ho : BinaryOp.ofSymbol? token.text = some op) (hp : op.power = power)
    {rest : List (Tree P)} {join : Expr P → Expr P} :
    Joined Operand power join (trees ++ .leaf token :: rest) expr ↔
      ∃ left, Climb Operand 0 none trees left [] ∧
        Joined Operand power (fun right => .operation (.binary op) [join left, right]
          ((join left).span.through right.span)) rest expr := by
  have h0 : AtLeast 0 true trees := h.mono (Nat.zero_le _)
  have hstops : Stops (power + 1) (.leaf token :: rest) := by
    rintro _ _ op' ⟨⟩ _ ho'
    cases ho.symm.trans ho'
    omega
  have hat : AtOperator (.leaf token :: rest) := isKind_operator_leaf hk
  refine ⟨?_, ?_⟩
  · intro h'
    obtain ⟨left, whole, hleft, hexpr⟩ := h'
    obtain ⟨mid, rfl, hfront⟩ := (append_iff hstops hat hbound).1 hleft
    rcases hfront.last_cases h with rfl | ⟨unknown, mid, rfl, -, hu⟩
    · refine ⟨left, (power_irrelevant h h0).1 hfront, ?_⟩
      generalize hw : [] ++ Tree.leaf token :: rest = whole at hexpr
      cases hexpr with
      | link _ ho' _ hright hlast =>
        cases hw
        cases ho.symm.trans ho'
        rw [hp] at hright
        exact ⟨_, _, hright, hlast⟩
      | stop => cases hw
    · exact absurd hexpr (not_passed hu)
  · intro h'
    obtain ⟨left, hleft, right, last, hright, hlast⟩ := h'
    have hleft := (power_irrelevant h0 h).1 hleft
    rw [← hp] at hright
    exact ⟨left, _, (append_iff hstops hat hbound).2 ⟨[], rfl, hleft⟩,
      .link hk ho (Nat.le_of_eq hp.symm) hright hlast⟩

/-- A slice that begins with an operand can be cut at its operators of lowest power. -/
theorem joined_iff {tree : Tree P} {rest : List (Tree P)} (htree : tree.isKind .operator = false)
    (h : AtLeast power true (tree :: rest)) :
    Climb Operand 0 none (tree :: rest) expr [] ↔
      Joined Operand power id (tree :: rest) expr := by
  rw [power_irrelevant (h.mono (Nat.zero_le _)) h]
  exact none_iff htree

end Climb

end LetWhile
