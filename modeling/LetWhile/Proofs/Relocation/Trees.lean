import LetWhile.Tree.Nesting

/-!
# Relocating trees

All that follows the scanner only hands positions on, so moving the positions of the tokens moves
those of what is made of them and changes nothing else. Here this is stated for nesting
(`nest_relocate`), together with what a step of any stage needs: how outcomes are relocated
(`Outcome.relocate_bind`, `Outcome.relocate_mapM`), and that what is asked of trees does not depend
on where they stand.
-/

namespace LetWhile

variable {P Q : Type}

/-- The place that says nothing. -/
def nowhere {P : Type} (_ : P) : Unit := ()

/-! ## Outcomes -/

namespace Outcome
variable {α β γ δ : Type} {f : P → Q}

/-- A value is relocated by moving what is in it. -/
@[simp]
theorem relocate_ok (g : α → β) (a : α) : relocate f g (.ok a) = .ok (g a) := rfl

/-- A fault is relocated by moving its place. -/
@[simp]
theorem relocate_error (g : α → β) (fault : Fault P) :
    relocate f g (.error fault) = .error (fault.map f) := rfl

/-- A step that hands positions on may be relocated before or after the step that follows it. -/
theorem relocate_bind {outcome : Outcome P α} {outcome' : Outcome Q β} {next : α → Outcome P γ}
    {next' : β → Outcome Q δ} {g : α → β} {g' : γ → δ} (h : outcome.relocate f g = outcome')
    (hnext : ∀ a, (next a).relocate f g' = next' (g a)) :
    (outcome >>= next).relocate f g' = outcome' >>= next' := by
  subst h
  cases outcome with
  | error => rfl
  | ok a => exact hnext a

/-- A list is read relocated if each of its items is. -/
theorem relocate_mapM {read : γ → Outcome P α} {read' : δ → Outcome Q β} {g : α → β} {k : γ → δ}
    (items : List γ) (h : ∀ item, (read item).relocate f g = read' (k item)) :
    (items.mapM read).relocate f (List.map g) = (items.map k).mapM read' := by
  induction items with
  | nil => rfl
  | cons item items ih =>
    rw [List.map_cons, List.mapM_cons, List.mapM_cons]
    exact relocate_bind (h item) fun a => relocate_bind ih fun more => rfl

/-- A run over a list is relocated if each of its steps is. -/
theorem relocate_foldlM {step : α → γ → Outcome P α} {step' : β → δ → Outcome Q β} {g : α → β}
    {k : γ → δ} (items : List γ)
    (h : ∀ a item, (step a item).relocate f g = step' (g a) (k item)) (a : α) :
    (items.foldlM step a).relocate f g = (items.map k).foldlM step' (g a) := by
  induction items generalizing a with
  | nil => rfl
  | cons item items ih =>
    rw [List.map_cons, List.foldlM_cons, List.foldlM_cons]
    exact relocate_bind (h a item) ih

/-- A value that is changed is relocated if the change does not depend on places. -/
theorem relocate_map {outcome : Outcome P α} {outcome' : Outcome Q β} {next : α → γ}
    {next' : β → δ} {g : α → β} {g' : γ → δ} (h : outcome.relocate f g = outcome')
    (hnext : ∀ a, g' (next a) = next' (g a)) :
    relocate f g' (outcome.map next) = outcome'.map next' := by
  subst h
  cases outcome with
  | error => rfl
  | ok a => exact congrArg Except.ok (hnext a)

/-- A relocated outcome has a result if the outcome has one. -/
theorem relocate_eq_ok {outcome : Outcome P α} {g : α → β} {b : β} :
    outcome.relocate f g = .ok b ↔ ∃ a, outcome = .ok a ∧ g a = b := by
  cases outcome with
  | error fault => simp
  | ok a => simp

end Outcome

/-! ## Trees -/

namespace Tree

mutual

/-- A tree at another place. -/
def map (f : P → Q) : Tree P → Tree Q
  | leaf token => leaf (token.map f)
  | group bracket children span => group bracket (mapAll f children) (span.map f)

/-- A list of trees at another place. -/
def mapAll (f : P → Q) : List (Tree P) → List (Tree Q)
  | [] => []
  | tree :: rest => tree.map f :: mapAll f rest

end

/-- Trees are moved one by one. -/
@[simp]
theorem mapAll_eq_map (f : P → Q) (trees : List (Tree P)) : mapAll f trees = trees.map (map f) := by
  induction trees with
  | nil => rfl
  | cons tree rest ih => simp [mapAll, ih]

/-- A leaf is moved with its token. -/
@[simp]
theorem map_leaf (f : P → Q) (token : Token P) : (leaf token).map f = leaf (token.map f) := by
  simp [map]

/-- A group is moved with its children and its span. -/
@[simp]
theorem map_group (f : P → Q) (bracket : Bracket) (children : List (Tree P)) (span : Span P) :
    (group bracket children span).map f = group bracket (children.map (map f)) (span.map f) := by
  simp [map]

/-- A moved tree has the moved span. -/
@[simp]
theorem span_map (f : P → Q) (tree : Tree P) : (tree.map f).span = tree.span.map f := by
  cases tree <;> simp [span, Token.map]

mutual

/-- The text of a tree does not depend on places. -/
theorem text_map (f : P → Q) : ∀ tree : Tree P, (tree.map f).text = tree.text
  | leaf token => by simp [text, Token.map]
  | group bracket children span => by
    have := texts_map f children
    simp only [texts_eq_map] at this
    simp [text, this]

/-- The texts of trees do not depend on places. -/
theorem texts_map (f : P → Q) : ∀ trees : List (Tree P), texts (trees.map (map f)) = texts trees
  | [] => rfl
  | tree :: rest => by
    have := texts_map f rest
    simp only [texts_eq_map] at this ⊢
    rw [List.map_cons, List.map_cons, text_map f tree, this, List.map_cons]

end

attribute [simp] text_map

/-- Trees are rendered alike wherever they stand. -/
@[simp]
theorem render_map (f : P → Q) (trees : List (Tree P)) :
    render (trees.map (map f)) = render trees := by
  rw [render, texts_map, render]

/-! ## What is asked of trees -/

/-- A moved tree is a token of the same kind. -/
@[simp]
theorem isKind_map (f : P → Q) (kind : Kind) (tree : Tree P) :
    (tree.map f).isKind kind = tree.isKind kind := by
  cases tree <;> simp [isKind, Token.map]

/-- A moved tree is the same operator. -/
@[simp]
theorem isOperator_map (f : P → Q) (symbol : String) (tree : Tree P) :
    (tree.map f).isOperator symbol = tree.isOperator symbol := by
  cases tree <;> simp [isOperator, Token.map]

/-- A moved tree has the moved token. -/
@[simp]
theorem token?_map (f : P → Q) (kind : Kind) (tree : Tree P) :
    (tree.map f).token? kind = (tree.token? kind).map (Token.map f) := by
  cases tree with
  | leaf token =>
    simp only [map_leaf, token?, Token.map]
    split <;> rfl
  | group => simp [token?]

end Tree

/-- A region at another place. -/
def Region.map (f : P → Q) (region : Region P) : Region Q :=
  ⟨region.trees.map (Tree.map f), region.span.map f⟩

namespace Tree

/-- A moved group has the moved region. -/
@[simp]
theorem region?_map (f : P → Q) (bracket : Bracket) (tree : Tree P) :
    (tree.map f).region? bracket = (tree.region? bracket).map (Region.map f) := by
  cases tree with
  | leaf => simp [region?]
  | group b children span =>
    simp only [map_group, region?]
    split <;> rfl

/-- Moved trees start at the moved place. -/
@[simp]
theorem startOr_map (f : P → Q) (origin : P) (trees : List (Tree P)) :
    startOr (f origin) (trees.map (map f)) = f (startOr origin trees) := by
  cases trees <;> simp [startOr, Span.map]

/-- Moved trees stop at the moved place. -/
@[simp]
theorem stopOr_map (f : P → Q) (origin : P) (trees : List (Tree P)) :
    stopOr (f origin) (trees.map (map f)) = f (stopOr origin trees) := by
  induction trees generalizing origin with
  | nil => rfl
  | cons tree rest ih =>
    rw [List.map_cons, stopOr, stopOr, span_map]
    exact ih tree.span.stop

/-- Moved trees have the same parts between commas, moved. -/
theorem parts_map (f : P → Q) (trees : List (Tree P)) :
    commaParts.parts (trees.map (map f)) =
      (commaParts.parts trees).map (List.map (map f)) := by
  induction trees with
  | nil => rfl
  | cons tree rest ih =>
    rw [List.map_cons, commaParts.parts, commaParts.parts, ih, isKind_map]
    split
    · rfl
    · cases commaParts.parts rest <;> rfl

/-- Moved trees are cut at the same commas. Without trees there are no parts, also when moved. -/
@[simp]
theorem commaParts_map (f : P → Q) (trees : List (Tree P)) :
    commaParts (trees.map (map f)) = (commaParts trees).map (List.map (map f)) := by
  cases trees with
  | nil => rfl
  | cons tree rest => exact parts_map f (tree :: rest)

end Tree

/-! ## Nesting -/

namespace Nesting

/-- An open group at another place. -/
def Opened.map (f : P → Q) (opened : Opened P) : Opened Q :=
  ⟨opened.bracket, f opened.start, opened.before.map (Tree.map f)⟩

/-- Moved tokens nest to the moved trees, from any open groups on. -/
theorem nestFrom_relocate (f : P → Q) (limit : Nat) (tokens : List (Token P))
    (opened : List (Opened P)) (before : List (Tree P)) :
    (nestFrom limit opened before tokens).relocate f (List.map (Tree.map f)) =
      nestFrom limit (opened.map (Opened.map f)) (before.map (Tree.map f))
        (tokens.map (Token.map f)) := by
  induction tokens generalizing opened before with
  | nil =>
    cases opened with
    | nil => simp [nestFrom]
    | cons group outer => rfl
  | cons token tokens ih =>
    have ih_leaf := ih opened (.leaf token :: before)
    rw [List.map_cons, Tree.map_leaf] at ih_leaf
    rw [List.map_cons]
    cases hk : token.kind with
    | opening bracket =>
      simp only [nestFrom, Token.map, hk, List.length_map]
      split
      · rfl
      · exact ih _ []
    | closing bracket =>
      simp only [nestFrom, Token.map, hk]
      cases opened with
      | nil => rfl
      | cons group outer =>
        simp only [List.map_cons]
        have := ih outer
          (.group bracket before.reverse ⟨group.start, token.span.stop⟩ :: group.before)
        simp only [Opened.map]
        split
        · rename_i hb
          subst hb
          simpa [Span.map] using this
        · rename_i hb
          exact (if_neg hb).symm
    | _ =>
      simp only [nestFrom, Token.map, hk] at ih_leaf ⊢
      exact ih_leaf

/-- Moved tokens span the moved span. -/
theorem spanOf_map (f : P → Q) (origin : P) (tokens : List (Token P)) :
    spanOf (f origin) (tokens.map (Token.map f)) = (spanOf origin tokens).map f := by
  unfold spanOf
  rw [List.head?_map, List.getLast?_map]
  cases tokens.head? <;> cases tokens.getLast? <;> rfl

end Nesting

/-- Nesting hands positions on. -/
theorem nest_relocate (f : P → Q) (limit : Nat) (origin : P) (tokens : List (Token P)) :
    (nest limit origin tokens).relocate f (Region.map f) =
      nest limit (f origin) (tokens.map (Token.map f)) := by
  unfold nest
  rw [Nesting.spanOf_map]
  exact Outcome.relocate_map (Nesting.nestFrom_relocate f limit tokens [] []) fun trees => rfl

end LetWhile
