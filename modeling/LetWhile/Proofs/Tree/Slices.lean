import LetWhile.Proofs.Tree.Matching

/-!
# Tokens in slices

A property of tokens holds of a slice if every token in it has the property (`Tree.Holds`). It then
holds of every run of neighbours in the slice, of which the parts between commas are examples
(`Tree.isInfix_of_mem_commaParts`).
-/

namespace LetWhile

variable {P : Type}

/-! ## Tokens of trees -/

namespace Tree
variable {p : Token P → Prop} {trees part : List (Tree P)}

/-- Every token in some trees, the brackets of groups aside, has a property. -/
def Holds (p : Token P → Prop) (trees : List (Tree P)) : Prop :=
  ∀ token, Mark.leaf token ∈ allMarks trees → p token

/-- Anything holds of the tokens of no trees. -/
theorem holds_nil : Holds p [] := fun _ h => by cases h

/-- A property holds of all tokens of two lists if it does of both. -/
@[simp]
theorem holds_append : Holds p (trees ++ part) ↔ Holds p trees ∧ Holds p part := by
  simp only [Holds, allMarks_append, List.mem_append]
  exact ⟨fun h => ⟨fun t ht => h t (.inl ht), fun t ht => h t (.inr ht)⟩,
    fun h t ht => ht.elim (h.1 t) (h.2 t)⟩

/-- A property holds of a leaf if it does of its token. -/
@[simp]
theorem holds_leaf {token : Token P} : Holds p [leaf token] ↔ p token := by
  simp [Holds, allMarks, marks]

/-- A property holds of a group if it does of its children. -/
@[simp]
theorem holds_group {bracket : Bracket} {children : List (Tree P)} {span : Span P} :
    Holds p [group bracket children span] ↔ Holds p children := by
  simp [Holds, allMarks, marks]

/-- A property holds of trees if it does of the first and of the others. -/
theorem holds_cons {tree : Tree P} : Holds p (tree :: trees) ↔ Holds p [tree] ∧ Holds p trees := by
  rw [← holds_append, List.singleton_append]

/-- What holds of all tokens holds of those in a part of the trees. -/
theorem Holds.of_slice (h : Holds p trees) (hpart : part <:+: trees) : Holds p part := by
  obtain ⟨before, after, rfl⟩ := hpart
  exact (holds_append.1 (holds_append.1 h).1).2

/-- What holds of all tokens holds of those in each tree. -/
theorem Holds.of_mem {tree : Tree P} (h : Holds p trees) (hmem : tree ∈ trees) :
    Holds p [tree] := by
  obtain ⟨before, after, rfl⟩ := List.append_of_mem hmem
  exact (holds_cons.1 (holds_append.1 h).2).1

/-- What holds of the tokens that trees were nested from holds of the tokens in the trees. -/
theorem holds_of_nest {limit : Nat} {origin : P} {tokens : List (Token P)} {region : Region P}
    (h : nest limit origin tokens = .ok region) (hp : ∀ token ∈ tokens, p token) :
    Holds p region.trees := by
  intro token htoken
  rw [(nestsTo_of_nest h).marks, List.mem_map] at htoken
  obtain ⟨other, hother, hmark⟩ := htoken
  rw [← Token.eq_of_mark hmark]
  exact hp other hother

/-! ## Parts between commas -/

/-- Parts between commas are parts of the slice, and the first one is at its front. -/
theorem parts_isInfix (trees : List (Tree P)) :
    ∃ first more, commaParts.parts trees = first :: more ∧
      first <+: trees ∧ ∀ part ∈ more, part <:+: trees := by
  induction trees with
  | nil => exact ⟨[], [], rfl, List.nil_prefix, List.forall_mem_nil _⟩
  | cons tree rest ih =>
    obtain ⟨first, more, hparts, hfirst, hmore⟩ := ih
    have hrest {part : List (Tree P)} (h : part <:+: rest) : part <:+: tree :: rest :=
      h.trans (List.suffix_cons tree rest).isInfix
    unfold commaParts.parts
    rw [hparts]
    split
    · exact ⟨[], first :: more, rfl, List.nil_prefix,
        List.forall_mem_cons.2 ⟨hrest hfirst.isInfix, fun part hpart => hrest (hmore part hpart)⟩⟩
    · exact ⟨tree :: first, more, rfl, List.cons_prefix_cons.2 ⟨rfl, hfirst⟩,
        fun part hpart => hrest (hmore part hpart)⟩

/-- A part between commas is a run of neighbours. -/
theorem isInfix_of_mem_commaParts (h : part ∈ commaParts trees) : part <:+: trees := by
  cases trees with
  | nil => cases h
  | cons tree rest =>
    obtain ⟨first, more, hparts, hfirst, hmore⟩ := parts_isInfix (tree :: rest)
    rw [commaParts, hparts] at h
    rcases List.mem_cons.1 h with rfl | h
    · exact hfirst.isInfix
    · exact hmore part h

end Tree

end LetWhile
