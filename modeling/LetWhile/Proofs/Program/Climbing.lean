import LetWhile.Program.Basic
import LetWhile.Program.Chain

/-!
# Precedence climbing

`Climb` is the one-pass reading of operator chains: it goes through a slice from left to right and
carries the lowest power that an operator may have to be taken. It takes the reading of operands as
a parameter, so this module is about operators alone. A slice can be cut at its operators of lowest
power (`Chain.cut`) because the climb does not depend on
powers below those in the slice (`Climb.power_irrelevant`), can be paused at the operators of one
power (`Climb.none_iff`), and does not reach beyond an operator that it may not take
(`Climb.append_iff`).
-/

namespace LetWhile

namespace Chain
variable {P : Type}

/-! ## Places of operators -/

/-- Whether an operator after a slice would be a prefix operator. `bound` says so for the empty
slice. -/
def boundAfter (bound : Bool) : List (Tree P) → Bool
  | [] => bound
  | tree :: rest => boundAfter (tree.isKind .operator) rest

/-- What kind of operator comes after two slices is decided by the second, starting as the first
leaves it. -/
theorem boundAfter_append (bound : Bool) (l m : List (Tree P)) :
    boundAfter bound (l ++ m) = boundAfter (boundAfter bound l) m := by
  induction l generalizing bound with
  | nil => rfl
  | cons tree l ih => exact ih _

/-- A slice without operators. -/
def NoOperators (trees : List (Tree P)) : Prop := ∀ tree ∈ trees, tree.isKind .operator = false

/-- After a slice without operators an operator is binary, if it was before the slice. -/
theorem NoOperators.boundAfter_false {trees : List (Tree P)} (h : NoOperators trees) :
    boundAfter false trees = false := by
  induction trees with
  | nil => rfl
  | cons tree rest ih =>
    obtain ⟨htree, hrest⟩ := List.forall_mem_cons.1 h
    rw [boundAfter, htree]
    exact ih hrest

/-- After a slice without operators that is not empty an operator is binary. -/
theorem NoOperators.boundAfter {trees : List (Tree P)} (h : NoOperators trees) (hne : trees ≠ [])
    (bound : Bool) : boundAfter bound trees = false := by
  cases trees with
  | nil => exact absurd rfl hne
  | cons tree rest =>
    obtain ⟨htree, hrest⟩ := List.forall_mem_cons.1 h
    rw [Chain.boundAfter, htree]
    exact NoOperators.boundAfter_false hrest

/-- The joints of two slices are those of the first and those of the second, starting as the first
leaves it. -/
theorem joints_append (bound : Bool) (l m : List (Tree P)) :
    joints bound (l ++ m) = joints bound l ++ joints (Chain.boundAfter bound l) m := by
  induction l generalizing bound with
  | nil => rfl
  | cons tree l ih => rw [List.cons_append, joints, joints, ih, List.append_assoc, Chain.boundAfter]

/-- A slice that is empty or goes on with an operator. -/
def AtOperator : List (Tree P) → Prop
  | [] => True
  | tree :: _ => tree.isKind .operator = true

/-- A slice that does not go on with a binary operator of at least the given power. -/
def Stops (power : Nat) (trees : List (Tree P)) : Prop :=
  ∀ token rest op, trees = .leaf token :: rest → token.kind = .operator →
    BinaryOp.ofSymbol? token.text = some op → op.power < power

/-- The empty slice does not go on. -/
theorem Stops.nil (power : Nat) : Stops power ([] : List (Tree P)) := nofun

/-- What does not go on with a binary operator of a power does not with one of a larger power. -/
theorem Stops.mono {power power' : Nat} {trees : List (Tree P)} (h : Stops power trees)
    (hp : power ≤ power') : Stops power' trees :=
  fun token rest op ht hk ho => Nat.lt_of_lt_of_le (h token rest op ht hk ho) hp

/-- What stops before an operator also stops before more after it. -/
theorem Stops.append {power : Nat} {trees : List (Tree P)} (h : Stops power trees)
    {more : List (Tree P)} (hmore : Stops power more) : Stops power (trees ++ more) := by
  cases trees with
  | nil => exact hmore
  | cons tree rest =>
    rintro token _ op heq hk ho
    cases heq
    exact h token rest op rfl hk ho

/-- A slice goes on with an operator if its first part does and the second does, should the first be
empty. -/
theorem AtOperator.append {trees more : List (Tree P)} (h : AtOperator trees)
    (hmore : AtOperator more) : AtOperator (trees ++ more) := by
  cases trees with
  | nil => exact hmore
  | cons => exact h

/-- All binary operators among the joints of a slice have at least the given power. -/
def AtLeast (power : Nat) (bound : Bool) (trees : List (Tree P)) : Prop :=
  ∀ token ∈ joints bound trees, ∀ op, BinaryOp.ofSymbol? token.text = some op → power ≤ op.power

/-- Without its first tree, a slice has no weaker joints. -/
theorem AtLeast.tail {power : Nat} {bound : Bool} {tree : Tree P} {rest : List (Tree P)}
    (h : AtLeast power bound (tree :: rest)) : AtLeast power (tree.isKind .operator) rest :=
  fun token ht => h token (List.mem_append_right _ ht)

/-- The second part of a slice has no weaker joints than the slice. -/
theorem AtLeast.append_right {power : Nat} {bound : Bool} {l m : List (Tree P)}
    (h : AtLeast power bound (l ++ m)) : AtLeast power (boundAfter bound l) m :=
  fun token ht => h token (joints_append bound l m ▸ List.mem_append_right _ ht)

/-- Joints of a power are joints of every smaller power. -/
theorem AtLeast.mono {power power' : Nat} {bound : Bool} {trees : List (Tree P)}
    (h : AtLeast power bound trees) (hp : power' ≤ power) : AtLeast power' bound trees :=
  fun token ht op ho => Nat.le_trans hp (h token ht op ho)

/-- The tree of an operator token is an operator. -/
theorem isKind_operator_leaf {token : Token P} (h : token.kind = .operator) :
    (Tree.leaf token).isKind .operator = true := by
  simp [Tree.isKind, h]

/-- A tree is an operator if it is the leaf of an operator token. -/
theorem isKind_operator_eq_true_iff {tree : Tree P} :
    tree.isKind .operator = true ↔ ∃ token, tree = .leaf token ∧ token.kind = .operator := by
  cases tree <;> simp [Tree.isKind]

/-- An operator that is no prefix operator is a joint. -/
theorem joints_leaf_false {token : Token P} (h : token.kind = .operator) (rest : List (Tree P)) :
    joints false (.leaf token :: rest) = token :: joints true rest := by
  rw [joints, isKind_operator_leaf h]
  simp [joint?, Tree.token?, h]

/-- Without operators there are no joints. -/
theorem NoOperators.joints_eq_nil {trees : List (Tree P)} (h : NoOperators trees) (bound : Bool) :
    joints bound trees = [] := by
  induction trees generalizing bound with
  | nil => rfl
  | cons tree rest ih =>
    obtain ⟨htree, hrest⟩ := List.forall_mem_cons.1 h
    cases tree with
    | leaf token =>
      have hk : token.kind ≠ .operator := by simpa [Tree.isKind] using htree
      simp [joints, joint?, Tree.token?, hk, ih hrest]
    | group => simp [joints, joint?, Tree.token?, ih hrest]

/-- Every operator is a joint, except those after another one. -/
theorem noOperators_of_joints_eq_nil {trees : List (Tree P)} (h : joints false trees = []) :
    NoOperators trees := by
  induction trees with
  | nil => exact nofun
  | cons tree rest ih =>
    cases ht : tree.isKind .operator with
    | true =>
      obtain ⟨token, rfl, hk⟩ := isKind_operator_eq_true_iff.1 ht
      rw [joints_leaf_false hk] at h
      cases h
    | false =>
      have hrest := (List.append_eq_nil_iff.1 h).2
      rw [ht] at hrest
      exact List.forall_mem_cons.2 ⟨ht, ih hrest⟩

end Chain

open Chain

/-! ## The climb -/

/-- Reads an expression off a slice, given how operands are read. With no expression on the left an
operand is due: a prefix operator, whose operand is read with the same lowest power, or the longest
run of trees that are no operators. With one on the left, binary operators of at least the given
power are taken as long as there are any; what is right of one is read with the next higher power,
so that operators of equal power group to the left. The last index is what remains. -/
inductive Climb {P : Type} (Operand : List (Tree P) → Expr P → Prop) :
    Nat → Option (Expr P) → List (Tree P) → Expr P → List (Tree P) → Prop
  | prefixed {power : Nat} {token : Token P} {op : PrefixOp} {rest last : List (Tree P)}
      {operand : Expr P} :
    token.kind = .operator → PrefixOp.ofSymbol? token.text = some op →
    Climb Operand power none rest operand last →
    Climb Operand power none (.leaf token :: rest)
      (.operation (.prefixed op) [operand] (token.span.through operand.span)) last
  | operand {power : Nat} {run rest last : List (Tree P)} {first expr : Expr P} :
    run ≠ [] → NoOperators run → AtOperator rest → Operand run first →
    Climb Operand power (some first) rest expr last →
    Climb Operand power none (run ++ rest) expr last
  | link {power : Nat} {left right expr : Expr P} {token : Token P} {op : BinaryOp}
      {rest mid last : List (Tree P)} :
    token.kind = .operator → BinaryOp.ofSymbol? token.text = some op → power ≤ op.power →
    Climb Operand (op.power + 1) none rest right mid →
    Climb Operand power
      (some (.operation (.binary op) [left, right] (left.span.through right.span))) mid expr last →
    Climb Operand power (some left) (.leaf token :: rest) expr last
  | stop {power : Nat} {left : Expr P} {rest : List (Tree P)} :
    Stops power rest → Climb Operand power (some left) rest left rest

namespace Climb
variable {P : Type} {Operand : List (Tree P) → Expr P → Prop} {power power' : Nat}
  {left? : Option (Expr P)} {left expr : Expr P} {trees last more : List (Tree P)}

/-! ## What a climb leaves -/

/-- What remains is empty or goes on with an operator that may not be taken. -/
theorem stops (h : Climb Operand power left? trees expr last) : Stops power last := by
  induction h with
  | prefixed _ _ _ ih | operand _ _ _ _ _ ih | link _ _ _ _ _ _ ih => exact ih
  | stop h => exact h

/-- What remains comes after an operand. -/
theorem boundAfter_eq (h : Climb Operand power left? trees expr last) :
    boundAfter left?.isNone trees = boundAfter false last := by
  induction h with
  | prefixed hk _ _ ih =>
    rw [boundAfter, isKind_operator_leaf hk]
    exact ih
  | operand hne hrun _ _ _ ih =>
    rw [boundAfter_append, hrun.boundAfter hne]
    exact ih
  | link hk _ _ _ _ ih ih' =>
    rw [boundAfter, isKind_operator_leaf hk]
    exact ih.trans ih'
  | stop => rfl

/-- What remains goes on with an operator, if at all, unless the climb took nothing. -/
theorem atOperator (h : Climb Operand power left? trees expr last)
    (ht : left? ≠ none → AtOperator trees) : AtOperator last := by
  induction h with
  | prefixed _ _ _ ih => exact ih nofun
  | operand _ _ hrest _ _ ih => exact ih fun _ => hrest
  | link _ _ _ _ _ ih ih' => exact ih' fun _ => ih nofun
  | stop => exact ht nofun

/-- The binary operators in what remains are among those of the slice. -/
theorem atLeast (h : Climb Operand power left? trees expr last)
    (ht : AtLeast power' left?.isNone trees) : AtLeast power' false last := by
  induction h with
  | prefixed hk _ _ ih =>
    refine ih ?_
    have := ht.tail
    rwa [isKind_operator_leaf hk] at this
  | operand hne hrun _ _ _ ih =>
    refine ih ?_
    have := ht.append_right
    rwa [hrun.boundAfter hne] at this
  | link hk _ _ _ _ ih ih' =>
    refine ih' (ih ?_)
    have := ht.tail
    rwa [isKind_operator_leaf hk] at this
  | stop => exact ht

/-- When every binary operator may be taken, what remains goes on with an operator that is not
binary, if at all. -/
theorem last_cases (h : Climb Operand power none trees expr last) (ht : AtLeast power true trees) :
    last = [] ∨ ∃ token rest, last = .leaf token :: rest ∧ token.kind = .operator ∧
      BinaryOp.ofSymbol? token.text = none := by
  have hat := h.atOperator nofun
  have hleast := h.atLeast ht
  have hstops := h.stops
  match last with
  | [] => exact .inl rfl
  | .group .. :: _ => exact absurd hat Bool.false_ne_true
  | .leaf token :: rest =>
    have hk : token.kind = .operator := by simpa [AtOperator, Tree.isKind] using hat
    refine .inr ⟨token, rest, rfl, hk, ?_⟩
    cases ho : BinaryOp.ofSymbol? token.text with
    | none => rfl
    | some op =>
      have hle := hleast token (by simp [joints_leaf_false hk]) op ho
      exact absurd (hstops token rest op rfl hk ho) (Nat.not_lt.2 hle)

/-- With nothing left to take, the expression on the left is the whole. -/
theorem some_nil_iff : Climb Operand power (some left) [] expr last ↔ expr = left ∧ last = [] := by
  refine ⟨?_, ?_⟩
  · intro h
    cases h
    exact ⟨rfl, rfl⟩
  · intro h'
    obtain ⟨rfl, rfl⟩ := h'
    exact .stop (.nil _)

/-- An operator that is not binary is not passed. -/
theorem not_passed {token : Token P} {rest : List (Tree P)}
    (ho : BinaryOp.ofSymbol? token.text = none) :
    ¬ Climb Operand power (some left) (.leaf token :: rest) expr [] := by
  intro h
  cases h with
  | link _ ho' _ _ _ => exact absurd (ho.symm.trans ho') nofun

/-- A slice without operators is an operand. -/
theorem run_iff (h : NoOperators trees) (hne : trees ≠ []) :
    Climb Operand power none trees expr [] ↔ Operand trees expr := by
  refine ⟨?_, ?_⟩
  · intro hc
    cases hc with
    | prefixed hk => exact absurd ((h _ (by simp)).symm.trans (isKind_operator_leaf hk)) nofun
    | @operand _ _ rest _ _ _ _ _ hrest hfirst hlast =>
      cases rest with
      | nil =>
        rw [(some_nil_iff.1 hlast).1, List.append_nil]
        exact hfirst
      | cons tree rest => exact absurd ((h tree (by simp)).symm.trans hrest) nofun
  · intro ho
    have : Climb Operand power none (trees ++ []) expr [] :=
      .operand hne h trivial ho (.stop (.nil _))
    rwa [List.append_nil] at this

/-- A slice whose joints are no binary operators is an operand, or no expression. -/
theorem of_unknown (h : ∀ token ∈ joints true trees, BinaryOp.ofSymbol? token.text = none)
    (hne : joints true trees ≠ []) (ht : ¬ AtOperator trees) :
    ¬ Climb Operand power none trees expr [] := by
  intro hc
  cases hc with
  | prefixed hk => exact ht (isKind_operator_leaf hk)
  | @operand _ run rest _ _ _ hrun hops hrest _ hlast =>
    rw [joints_append, hops.boundAfter hrun, hops.joints_eq_nil, List.nil_append] at h hne
    match rest with
    | [] => exact hne rfl
    | tree :: rest =>
      obtain ⟨token, rfl, hk⟩ := isKind_operator_eq_true_iff.1 hrest
      exact not_passed (h token (by simp [joints_leaf_false hk])) hlast

/-! ## Powers that do not matter -/

/-- The lowest power does not matter as long as every binary operator of the slice may be taken. -/
theorem change_power (h : Climb Operand power left? trees expr last)
    (ht : AtLeast power left?.isNone trees) (ht' : AtLeast power' left?.isNone trees) :
    Climb Operand power' left? trees expr last := by
  induction h with
  | prefixed hk ho _ ih =>
    have htail := ht.tail
    have htail' := ht'.tail
    rw [isKind_operator_leaf hk] at htail htail'
    exact .prefixed hk ho (ih htail htail')
  | operand hne hrun hrest hfirst _ ih =>
    have htail := ht.append_right
    have htail' := ht'.append_right
    rw [hrun.boundAfter hne] at htail htail'
    exact .operand hne hrun hrest hfirst (ih htail htail')
  | link hk ho _ hright _ _ ih =>
    have htail := ht.tail
    have htail' := ht'.tail
    rw [isKind_operator_leaf hk] at htail htail'
    have hle := ht' _ (by simp [joints_leaf_false hk]) _ ho
    exact .link hk ho hle hright (ih (hright.atLeast htail) (hright.atLeast htail'))
  | stop hstops =>
    refine .stop ?_
    rintro token rest op rfl hk ho
    have hle := ht token (by simp [joints_leaf_false hk]) op ho
    exact absurd (hstops token rest op rfl hk ho) (Nat.not_lt.2 hle)

/-- Where all joints bind strongly enough, the power that is asked for does not matter. -/
theorem power_irrelevant (h : AtLeast power true trees) (h' : AtLeast power' true trees) :
    Climb Operand power none trees expr last ↔ Climb Operand power' none trees expr last :=
  ⟨fun hc => hc.change_power h h', fun hc => hc.change_power h' h⟩

/-! ## Pausing -/

/-- A climb can take the tighter operators first. -/
theorem some_iff : Climb Operand power (some left) trees expr last ↔
    ∃ mid rest, Climb Operand (power + 1) (some left) trees mid rest ∧
      Climb Operand power (some mid) rest expr last := by
  refine ⟨?_, ?_⟩
  · intro h
    generalize hl : some left = left? at h
    induction h generalizing left with
    | prefixed | operand => cases hl
    | @link power _ _ _ token op _ _ _ hk ho hle hright hrest _ ih =>
      cases hl
      by_cases hlt : power + 1 ≤ op.power
      · obtain ⟨mid, rest, hmid, hlast⟩ := ih rfl
        exact ⟨mid, rest, .link hk ho hlt hright hmid, hlast⟩
      · refine ⟨_, _, .stop ?_, .link hk ho hle hright hrest⟩
        rintro token rest op' ⟨⟩ _ ho'
        cases ho.symm.trans ho'
        exact Nat.not_le.1 hlt
    | stop h =>
      cases hl
      exact ⟨_, _, .stop (h.mono (Nat.le_succ _)), .stop h⟩
  · intro h'
    obtain ⟨mid, rest, hmid, hlast⟩ := h'
    generalize hl : some left = left? at hmid
    generalize hp : power + 1 = power' at hmid
    induction hmid generalizing left with
    | prefixed | operand => cases hl
    | link hk ho hle hright _ _ ih =>
      cases hl
      exact .link hk ho (by omega) hright (ih hlast rfl hp)
    | stop =>
      cases hl
      exact hlast

/-- A climb on a slice that begins with an operand can take the tighter operators first. -/
theorem none_iff {tree : Tree P} {rest : List (Tree P)} (h : tree.isKind .operator = false) :
    Climb Operand power none (tree :: rest) expr last ↔
      ∃ mid more, Climb Operand (power + 1) none (tree :: rest) mid more ∧
        Climb Operand power (some mid) more expr last := by
  refine ⟨?_, ?_⟩
  · intro hc
    generalize ht : tree :: rest = trees at hc
    cases hc with
    | prefixed hk =>
      cases ht
      exact absurd (h.symm.trans (isKind_operator_leaf hk)) nofun
    | operand hne hrun hrest hfirst hlast =>
      obtain ⟨mid, rest, hmid, hlast⟩ := some_iff.1 hlast
      exact ⟨mid, rest, .operand hne hrun hrest hfirst hmid, hlast⟩
  · intro h'
    obtain ⟨mid, rest, hmid, hlast⟩ := h'
    generalize ht : tree :: _ = trees at hmid ⊢
    cases hmid with
    | prefixed hk =>
      cases ht
      exact absurd (h.symm.trans (isKind_operator_leaf hk)) nofun
    | operand hne hrun hrest hfirst hmid =>
      exact .operand hne hrun hrest hfirst (some_iff.2 ⟨mid, rest, hmid, hlast⟩)

/-! ## What follows -/

/-- Trees that cannot be taken can be put after the slice. -/
theorem append (h : Climb Operand power left? trees expr last) (hstops : Stops power more)
    (hat : AtOperator more) : Climb Operand power left? (trees ++ more) expr (last ++ more) := by
  induction h with
  | prefixed hk ho _ ih => exact .prefixed hk ho (ih hstops)
  | operand hne hrun hrest hfirst _ ih =>
    rw [List.append_assoc]
    exact .operand hne hrun (hrest.append hat) hfirst (ih hstops)
  | link hk ho hle _ _ ih ih' =>
    exact .link hk ho hle (ih (hstops.mono (by omega))) (ih' hstops)
  | stop h => exact .stop (h.append hstops)

/-- A run without operators ends before what begins with one. -/
theorem append_eq_append_run {run rest front back : List (Tree P)} (hrun : NoOperators run)
    (hback : AtOperator back) (h : run ++ rest = front ++ back) :
    ∃ mid, front = run ++ mid ∧ rest = mid ++ back := by
  rcases List.append_eq_append_iff.1 h with ⟨mid, hfront, hrest⟩ | ⟨mid, hrun', hback'⟩
  · exact ⟨mid, hfront, hrest⟩
  · cases mid with
    | nil => exact ⟨[], by simpa using hrun'.symm, by simpa using hback'.symm⟩
    | cons tree mid =>
      rw [hback', List.cons_append] at hback
      exact absurd hback (by simp [AtOperator, hrun tree (by simp [hrun'])])

/-- A climb does not reach into what it may not take, if that follows an operand. -/
theorem of_append {whole : List (Tree P)} (h : Climb Operand power left? whole expr last)
    (hwhole : whole = trees ++ more) (hstops : Stops power more) (hat : AtOperator more)
    (hbound : boundAfter left?.isNone trees = false) :
    ∃ rest, last = rest ++ more ∧ Climb Operand power left? trees expr rest := by
  induction h generalizing trees with
  | prefixed hk ho _ ih =>
    cases trees with
    | nil => cases hbound
    | cons tree trees =>
      cases hwhole
      rw [boundAfter, isKind_operator_leaf hk] at hbound
      obtain ⟨rest, rfl, hc⟩ := ih rfl hstops hbound
      exact ⟨rest, rfl, .prefixed hk ho hc⟩
  | operand hne hrun hrest hfirst _ ih =>
    obtain ⟨mid, rfl, rfl⟩ := append_eq_append_run hrun hat hwhole
    rw [boundAfter_append, hrun.boundAfter hne] at hbound
    obtain ⟨rest, rfl, hc⟩ := ih rfl hstops hbound
    refine ⟨rest, rfl, .operand hne hrun ?_ hfirst hc⟩
    cases mid with
    | nil => trivial
    | cons => exact hrest
  | link hk ho hle _ _ ih ih' =>
    cases trees with
    | nil =>
      -- The operator is the one behind, which is too weak to be taken.
      cases hwhole
      exact absurd (hstops _ _ _ rfl hk ho) (Nat.not_lt.2 hle)
    | cons tree trees =>
      cases hwhole
      rw [boundAfter, isKind_operator_leaf hk] at hbound
      obtain ⟨mid, rfl, hright⟩ := ih rfl (hstops.mono (by omega)) hbound
      obtain ⟨rest, rfl, hc⟩ := ih' rfl hstops (hright.boundAfter_eq.symm.trans hbound)
      exact ⟨rest, rfl, .link hk ho hle hright hc⟩
  | stop h =>
    subst hwhole
    refine ⟨trees, rfl, .stop ?_⟩
    rintro token rest op rfl hk ho
    exact h token _ op rfl hk ho

/-- Climbing a slice in front of an operator that is too weak comes to the same expression and
leaves that operator behind. -/
theorem append_iff (hstops : Stops power more) (hat : AtOperator more)
    (hbound : boundAfter true trees = false) :
    Climb Operand power none (trees ++ more) expr last ↔
      ∃ rest, last = rest ++ more ∧ Climb Operand power none trees expr rest := by
  refine ⟨?_, ?_⟩
  · intro h
    exact h.of_append rfl hstops hat hbound
  · intro h'
    obtain ⟨rest, rfl, h⟩ := h'
    exact h.append hstops hat

end Climb

end LetWhile
