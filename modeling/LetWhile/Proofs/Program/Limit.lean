import LetWhile.Proofs.Program.Depth
import LetWhile.Proofs.Tree.Matching

/-!
# The nesting limit

The limit on nesting decides nothing but whether a program is refused for its depth. An outcome that
is not too deep persists under every larger limit (`Outcome.Persists`): each stage asks the same
questions of the same slices and hands its limit on to the faults of nesting only. And a limit two
above the number of tokens refuses nothing, since brackets nest no deeper than there are tokens and
readings no deeper than the outline has slices and blocks. Both are said by `Block.ofTokens_limit`.
-/

namespace LetWhile

variable {P : Type}

/-! ## Outcomes with more room -/

namespace Outcome
variable {α β γ : Type}

/-- An outcome is too deep, or it is the same with more room. -/
def Persists (outcome more : Outcome P α) : Prop := outcome.TooDeep ∨ more = outcome

/-- What is too deep stays so, whatever would come next. -/
theorem TooDeep.bind {outcome : Outcome P α} (h : outcome.TooDeep) (next : α → Outcome P β) :
    TooDeep (outcome >>= next) := by
  obtain ⟨limit, pos, rfl⟩ := h
  exact ⟨limit, pos, rfl⟩

namespace Persists

/-- An outcome stays the same with the same room. -/
theorem refl (outcome : Outcome P α) : outcome.Persists outcome := .inr rfl

/-- What is too deep may come to anything with more room. -/
theorem tooDeep (limit : Nat) (pos : P) (more : Outcome P α) :
    Persists (.error ⟨.nestingTooDeep limit, pos⟩) more := .inl ⟨limit, pos, rfl⟩

/-- Outcomes that persist do so one after another. -/
theorem bind {outcome more : Outcome P α} {next next' : α → Outcome P β}
    (h : outcome.Persists more) (hnext : ∀ a, (next a).Persists (next' a)) :
    Persists (outcome >>= next) (more >>= next') := by
  rcases h with h | rfl
  · exact .inl (h.bind next)
  · cases more with
    | error fault => exact refl _
    | ok a => exact hnext a

/-- A changed value persists if the value does. -/
theorem map {outcome more : Outcome P α} (h : outcome.Persists more) (f : α → β) :
    Persists (outcome.map f) (more.map f) := by
  rcases h with ⟨limit, pos, rfl⟩ | rfl
  · exact tooDeep limit pos _
  · exact refl _

/-- A list is read alike with more room if each of its items is. -/
theorem mapM {read read' : γ → Outcome P α} (items : List γ)
    (h : ∀ item, (read item).Persists (read' item)) :
    Persists (items.mapM read) (items.mapM read') := by
  induction items with
  | nil => exact refl _
  | cons item items ih =>
    rw [List.mapM_cons, List.mapM_cons]
    exact (h item).bind fun _ => ih.bind fun _ => refl _

/-- A run over a list goes alike with more room if each of its steps does. -/
theorem foldlM {step step' : β → γ → Outcome P β} (items : List γ)
    (h : ∀ b item, (step b item).Persists (step' b item)) (b : β) :
    Persists (items.foldlM step b) (items.foldlM step' b) := by
  induction items generalizing b with
  | nil => exact refl _
  | cons item items ih =>
    rw [List.foldlM_cons, List.foldlM_cons]
    exact (h b item).bind ih

end Persists

end Outcome

open Outcome

/-! ## Nesting -/

namespace Nesting

/-- Tokens nest alike under a larger limit, from any open groups on. -/
theorem nestFrom_persists {limit limit' : Nat} (hle : limit ≤ limit') (tokens : List (Token P))
    (opened : List (Opened P)) (before : List (Tree P)) :
    (nestFrom limit opened before tokens).Persists (nestFrom limit' opened before tokens) := by
  induction tokens generalizing opened before with
  | nil => exact .refl _
  | cons token tokens ih =>
    rcases token.kind.bracket_cases with hleaf | ⟨bracket, hopening⟩ | ⟨bracket, hclosing⟩
    · rw [nestFrom_leaf tokens hleaf, nestFrom_leaf tokens hleaf]
      exact ih _ _
    · rcases Nat.lt_or_ge opened.length limit with hlimit | hlimit
      · rw [nestFrom_opening tokens hopening hlimit,
          nestFrom_opening tokens hopening (Nat.lt_of_lt_of_le hlimit hle)]
        exact ih _ _
      · rw [nestFrom_tooDeep tokens hopening hlimit]
        exact .tooDeep _ _ _
    · cases opened with
      | nil =>
        rw [nestFrom_unopened tokens hclosing, nestFrom_unopened tokens hclosing]
        exact .refl _
      | cons group outer =>
        by_cases hb : group.bracket = bracket
        · subst hb
          rw [nestFrom_closing tokens hclosing, nestFrom_closing tokens hclosing]
          exact ih _ _
        · rw [nestFrom_mismatched tokens hclosing hb, nestFrom_mismatched tokens hclosing hb]
          exact .refl _

/-- No more groups can be open than tokens were read. -/
theorem nestFrom_fits {limit : Nat} (tokens : List (Token P)) (opened : List (Opened P))
    (before : List (Tree P)) (h : opened.length + tokens.length ≤ limit) :
    (nestFrom limit opened before tokens).Fits := by
  induction tokens generalizing opened before with
  | nil =>
    cases opened with
    | nil => exact .ok _
    | cons group outer => exact .error nofun
  | cons token tokens ih =>
    rw [List.length_cons] at h
    rcases token.kind.bracket_cases with hleaf | ⟨bracket, hopening⟩ | ⟨bracket, hclosing⟩
    · rw [nestFrom_leaf tokens hleaf]
      exact ih _ _ (by omega)
    · rw [nestFrom_opening tokens hopening (by omega)]
      exact ih _ _ (by rw [List.length_cons]; omega)
    · cases opened with
      | nil =>
        rw [nestFrom_unopened tokens hclosing]
        exact .error nofun
      | cons group outer =>
        rw [List.length_cons] at h
        by_cases hb : group.bracket = bracket
        · subst hb
          rw [nestFrom_closing tokens hclosing]
          exact ih _ _ (by omega)
        · rw [nestFrom_mismatched tokens hclosing hb]
          exact .error nofun

end Nesting

/-- Tokens nest alike under a larger limit. -/
theorem nest_persists {limit limit' : Nat} (hle : limit ≤ limit') (origin : P)
    (tokens : List (Token P)) :
    (nest limit origin tokens).Persists (nest limit' origin tokens) :=
  (Nesting.nestFrom_persists hle tokens [] []).map _

/-- Tokens cannot nest deeper than there are tokens. -/
theorem nest_fits {limit : Nat} (origin : P) {tokens : List (Token P)}
    (h : tokens.length ≤ limit) : (nest limit origin tokens).Fits :=
  (Nesting.nestFrom_fits tokens [] [] (by simpa using h)).map _

namespace Tree

mutual

/-- A tree has as many marks as its size. -/
theorem length_marks : ∀ tree : Tree P, tree.marks.length = tree.size
  | leaf token => by simp [marks]
  | group bracket children span => by
    have := length_allMarks children
    simp only [marks, List.length_cons, List.length_append, List.length_nil, size_group]
    omega

/-- A slice has as many marks as it was nested from tokens. -/
theorem length_allMarks : ∀ trees : List (Tree P), (allMarks trees).length = sizes trees
  | [] => by simp [allMarks]
  | tree :: rest => by
    rw [allMarks, List.length_append, length_marks tree, length_allMarks rest, sizes_cons]

end

end Tree

/-- The trees of some tokens are as large as there are tokens. -/
theorem sizes_of_nest {limit : Nat} {origin : P} {tokens : List (Token P)} {region : Region P}
    (h : nest limit origin tokens = .ok region) : Tree.sizes region.trees = tokens.length := by
  rw [← Tree.length_allMarks, (nestsTo_of_nest h).marks, List.length_map]

/-! ## Types -/

/-- A type is read alike with a larger budget. -/
theorem Ty.ofTrees_persists {limit limit' : Nat} : ∀ {budget budget' : Nat}, budget ≤ budget' →
    ∀ (origin : P) (trees : List (Tree P)),
      (Ty.ofTrees limit budget origin trees).Persists (Ty.ofTrees limit' budget' origin trees)
  | 0, _, _, _, _ => .tooDeep _ _ _
  | budget + 1, budget' + 1, hle, origin, trees => by
    have ih (origin : P) (trees : List (Tree P)) :
        (Ty.ofTrees limit budget origin trees).Persists (Ty.ofTrees limit' budget' origin trees) :=
      Ty.ofTrees_persists (Nat.le_of_succ_le_succ hle) origin trees
    unfold Ty.ofTrees
    simp only
    split
    · exact .refl _
    · exact ih _ _
    · split
      · exact (Persists.mapM _ fun part => ih _ part).bind fun _ => (ih _ _).bind fun _ => .refl _
      · exact .refl _
    · exact .refl _

/-! ## Expressions and blocks -/

namespace Reader

/-- What one reader reads persists with another one that has more room. -/
structure Persists (inner more : Reader P) : Prop where
  expr : ∀ origin trees, (inner.expr origin trees).Persists (more.expr origin trees)
  type : ∀ origin trees, (inner.type origin trees).Persists (more.type origin trees)
  block : ∀ outline, (inner.block outline).Persists (more.block outline)

variable {inner more : Reader P}

/-- A primary is read alike with more room in its parentheses. -/
theorem readPrimary_persists (h : inner.Persists more) (tree : Tree P) :
    (inner.readPrimary tree).Persists (more.readPrimary tree) := by
  unfold readPrimary
  split
  · exact .refl _
  · exact h.expr _ _
  · exact .refl _

/-- A prefix operation is read alike with more room for its operand. -/
theorem readPrefixed_persists (h : inner.Persists more) (token : Token P)
    (rest : List (Tree P)) :
    (inner.readPrefixed token rest).Persists (more.readPrefixed token rest) := by
  unfold readPrefixed
  split
  · exact .refl _
  · exact (h.expr _ _).bind fun _ => .refl _

/-- A call is read alike with more room for its callee and its arguments. -/
theorem readCall_persists (h : inner.Persists more) (callee : Tree P) (args : Region P) :
    (inner.readCall callee args).Persists (more.readCall callee args) :=
  (readPrimary_persists h callee).bind fun _ =>
    (Outcome.Persists.mapM _ fun part => h.expr _ part).bind fun _ => .refl _

/-- A function literal is read alike with more room for its body. -/
theorem readFunction_persists (h : inner.Persists more) (params body : Region P) :
    (inner.readFunction params body).Persists (more.readFunction params body) :=
  (Outcome.Persists.refl _).bind fun _ => (Outcome.Persists.refl _).bind fun outline =>
    (h.block outline).bind fun _ => .refl _

/-- A link of a chain is read alike with more room for its operand. -/
theorem readLink_persists (h : inner.Persists more) (left : Expr P) (link : Chain.Link P) :
    (inner.readLink left link).Persists (more.readLink left link) :=
  (h.expr _ _).bind fun _ => .refl _

/-- A chain is read alike with more room for its operands. -/
theorem readChain_persists (h : inner.Persists more) (origin : P) (trees : List (Tree P)) :
    (inner.readChain origin trees).Persists (more.readChain origin trees) := by
  unfold readChain
  simp only
  split
  · exact .refl _
  · exact (h.expr _ _).bind fun first => .foldlM _ (readLink_persists h) first

/-- One level of reading expressions persists if the levels below do. -/
theorem readSlice_persists (h : inner.Persists more) (origin : P) (trees : List (Tree P)) :
    (inner.readSlice origin trees).Persists (more.readSlice origin trees) := by
  unfold readSlice
  split
  · exact .refl _
  · exact readPrimary_persists h _
  · split
    · exact readPrefixed_persists h _ _
    · split
      · exact readCall_persists h _ _
      · exact readFunction_persists h _ _
      · exact readChain_persists h origin _

/-- A statement is read alike with more room for its parts. -/
theorem readStmt_persists (h : inner.Persists more) (outline : Outline.Stmt P) :
    (inner.readStmt outline).Persists (more.readStmt outline) := by
  cases outline with
  | declare => exact (h.type _ _).bind fun _ => (h.expr _ _).bind fun _ => .refl _
  | assign | returnValue | expression => exact (h.expr _ _).bind fun _ => .refl _
  | branch =>
    exact (h.expr _ _).bind fun _ => (h.block _).bind fun _ => (h.block _).bind fun _ => .refl _
  | loop => exact (h.expr _ _).bind fun _ => (h.block _).bind fun _ => .refl _
  | returnVoid => exact .refl _

/-- One level of reading blocks persists if the levels below do. -/
theorem readBlock_persists (h : inner.Persists more) (outline : Outline.Block P) :
    (inner.readBlock outline).Persists (more.readBlock outline) :=
  (Outcome.Persists.mapM _ (readStmt_persists h)).bind fun _ => .refl _

/-- Readings persist with a larger budget, whatever the limit that faults speak of. -/
theorem ofBudget_persists (limit limit' : Nat) {budget budget' : Nat} (hle : budget ≤ budget') :
    (ofBudget (P := P) limit budget).Persists (ofBudget limit' budget') := by
  induction budget generalizing budget' with
  | zero =>
    exact ⟨fun _ _ => .tooDeep _ _ _, fun _ _ => Ty.ofTrees_persists hle _ _,
      fun _ => .tooDeep _ _ _⟩
  | succ budget ih =>
    obtain ⟨budget', rfl⟩ := Nat.exists_eq_succ_of_ne_zero (Nat.ne_zero_of_lt hle)
    have h := ih (Nat.le_of_succ_le_succ hle)
    exact ⟨readSlice_persists h, Ty.ofTrees_persists hle, readBlock_persists h⟩

end Reader

/-! ## Programs -/

/-- A program is read alike under a larger limit, or is too deep under the smaller one. -/
theorem Block.ofTokens_persists {limit limit' : Nat} (hle : limit ≤ limit') (origin : P)
    (tokens : List (Token P)) :
    (Block.ofTokens limit origin tokens).Persists (Block.ofTokens limit' origin tokens) :=
  (nest_persists hle origin tokens).bind fun region =>
    (Persists.refl (Outline.ofRegion region)).bind fun outline =>
      (Reader.ofBudget_persists limit limit' hle).block outline

/-- A program is not too deep under a limit that is at least two more than the number of tokens. -/
theorem Block.ofTokens_fits {limit : Nat} (origin : P) {tokens : List (Token P)}
    (h : tokens.length + 2 ≤ limit) : (Block.ofTokens limit origin tokens).Fits := by
  refine (nest_fits origin (by omega)).bind fun region hregion =>
    ((Outline.ofRegion_faultsIn region).mono ?_).bind fun outline houtline =>
      (Reader.ofBudget_reaches limit limit).block outline ?_
  · rintro _ rfl
    exact nofun
  · have hregion := sizes_of_nest hregion
    have houtline := Outline.ofRegion_size_le houtline
    omega

/-- A program or a fault that some tokens have within a limit, unless it is that they are nested too
deep, they have within every larger limit too. A limit two above their number is never too low. -/
theorem Block.ofTokens_limit (origin : P) (tokens : List (Token P)) :
    (∀ limit limit', limit ≤ limit' → ¬ (Block.ofTokens limit origin tokens).TooDeep →
      Block.ofTokens limit' origin tokens = Block.ofTokens limit origin tokens) ∧
    ∀ limit, tokens.length + 2 ≤ limit → ¬ (Block.ofTokens limit origin tokens).TooDeep := by
  refine ⟨fun limit limit' hle hdeep => ?_, fun limit hlimit hdeep => ?_⟩
  · exact (Block.ofTokens_persists hle origin tokens).resolve_left hdeep
  · exact hdeep.not_fits (Block.ofTokens_fits origin hlimit)

/-- A name in parentheses, which takes up three levels: the program's, that of the parentheses and
that of the name. -/
theorem Block.ofTokens_limit_parenthesised :
    let tokens : List (Token Nat) :=
      [⟨.opening .paren, "(", ⟨0, 1⟩⟩, ⟨.identifier, "x", ⟨1, 2⟩⟩, ⟨.closing .paren, ")", ⟨2, 3⟩⟩,
        ⟨.semicolon, ";", ⟨3, 4⟩⟩]
    (Block.ofTokens 2 0 tokens).TooDeep ∧ ¬ (Block.ofTokens 3 0 tokens).TooDeep ∧
      Block.ofTokens 6 0 tokens = Block.ofTokens 3 0 tokens ∧
      tokens.length + 2 ≤ 6 ∧ ¬ (Block.ofTokens 6 0 tokens).TooDeep := by
  intro tokens
  let group : Tree Nat := .group .paren [.leaf ⟨.identifier, "x", ⟨1, 2⟩⟩] ⟨0, 3⟩
  let region : Region Nat := ⟨[group, .leaf ⟨.semicolon, ";", ⟨3, 4⟩⟩], ⟨0, 4⟩⟩
  have houtline : Outline.ofRegion region = .ok ⟨[.expression [group] ⟨0, 4⟩], ⟨0, 4⟩⟩ := by
    rw [Outline.ofRegion, Outline.ofTrees_plain rfl, Outline.ofTrees_nil]
    rfl
  have hread (limit : Nat) (hnest : nest limit 0 tokens = .ok region) :
      Block.ofTokens limit 0 tokens =
        Block.ofOutline limit limit ⟨[.expression [group] ⟨0, 4⟩], ⟨0, 4⟩⟩ := by
    rw [Block.ofTokens, hnest]
    show Outline.ofRegion region >>= _ = _
    rw [houtline]
    rfl
  have hdeep : ¬ (Block.ofTokens 3 0 tokens).TooDeep := by
    rw [hread 3 rfl]
    rintro ⟨limit, pos, h⟩
    cases h
  obtain ⟨hlarger, henough⟩ := Block.ofTokens_limit 0 tokens
  refine ⟨?_, hdeep, hlarger 3 6 (by decide) hdeep, by decide, henough 6 (by decide)⟩
  rw [hread 2 rfl]
  exact ⟨2, 1, rfl⟩

end LetWhile
