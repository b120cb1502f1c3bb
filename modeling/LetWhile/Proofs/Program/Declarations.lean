import LetWhile.Proofs.Outline.Joined
import LetWhile.Proofs.Outline.Stage
import LetWhile.Proofs.Relocation.Sources

/-!
# Declarations without an equals sign

The type of a declaration goes on to the next `=`, whatever is in between. Where the semicolon of a
declaration comes first, its type runs on into the statements behind it (`Outline.Completes`), and
then what is wrong is found only when the type is read: no type has a semicolon among its trees
(`Ty.ofTrees_ne_ok`). Without such an `=`, or if what follows it is no statement, outlining fails.
Both are in `Source.declaration_unequal`.
-/

namespace LetWhile

variable {P : Type}

/-! ## Types with a semicolon -/

/-- Reading a type finds faults of types, or that they are nested too deep. -/
theorem Ty.ofTrees_faultsIn (limit : Nat) : ∀ (budget : Nat) (origin : P) (trees : List (Tree P)),
    (Ty.ofTrees limit budget origin trees).FaultsIn fun stage => stage = .types ∨ stage = .depth
  | 0, _, _ => .error (.inr rfl)
  | budget + 1, origin, trees => by
    have ih := Ty.ofTrees_faultsIn limit budget
    unfold Ty.ofTrees
    simp only
    split
    · split
      · exact .ok _
      · exact .error (.inl rfl)
    · exact ih _ _
    · split
      · exact (Outcome.FaultsIn.mapM fun part _ => ih _ part).bind fun _ _ =>
          (ih _ _).bind fun _ _ => .ok _
      · exact .error (.inl rfl)
    · exact .error (.inl rfl)

/-- Trees with a semicolon among them spell no type. -/
theorem Ty.ofTrees_ne_ok (limit : Nat) : ∀ (budget : Nat) (origin : P) {trees : List (Tree P)},
    (∃ tree ∈ trees, tree.isKind .semicolon = true) →
      ∀ type, Ty.ofTrees limit budget origin trees ≠ .ok type
  | 0, _, _, _, _ => nofun
  | budget + 1, origin, trees, hmem, type => by
    intro h
    obtain ⟨tree, hmem, hsemicolon⟩ := hmem
    obtain ⟨text, span, rfl⟩ := Tree.isKind_eq_true_iff.1 hsemicolon
    unfold Ty.ofTrees at h
    simp only at h
    split at h
    · rename_i token
      cases List.mem_singleton.1 hmem
      cases h
    · cases List.mem_singleton.1 hmem
    · rename_i arrow next rest
      split at h
      · rename_i harrow
        obtain ⟨_, -, h⟩ := Outcome.bind_eq_ok.1 h
        obtain ⟨result, hresult, -⟩ := Outcome.bind_eq_ok.1 h
        -- The semicolon is neither the group nor the arrow, so the result is read from it.
        have hrest : Tree.leaf ⟨.semicolon, text, span⟩ ∈ next :: rest := by
          rcases List.mem_cons.1 hmem with hmem | hmem
          · cases hmem
          rcases List.mem_cons.1 hmem with rfl | hmem
          · cases harrow
          · exact hmem
        exact Ty.ofTrees_ne_ok limit budget _ ⟨_, hrest, hsemicolon⟩ result hresult
      · cases h
    · cases h

/-! ## Outlining -/

namespace Outline

/-- A run passes over trees that do not end it. -/
theorem runTo_append_of_free {ends : Tree P → Bool} {front : List (Tree P)} (rest : List (Tree P))
    (h : ∀ tree ∈ front, ends tree = false) :
    runTo ends (front ++ rest) =
      (runTo ends rest).map fun run => ⟨front ++ run.trees, run.stop, run.rest⟩ := by
  induction front with
  | nil => simp
  | cons tree front ih =>
    obtain ⟨htree, hfront⟩ := List.forall_mem_cons.1 h
    simp [runTo, htree, ih hfront, Function.comp_def]

/-- Behind the colon of a declaration, its type runs to the next `=`, and its value from there to
the next semicolon. -/
theorem cutFirst_of_let {first target colon : Tree P} {name : String}
    (hfirst : first.IsToken (.keyword .letWord) "let") (htarget : target.IsToken .identifier name)
    (hcolon : colon.IsToken .colon ":") (rest : List (Tree P)) :
    cutFirst first (target :: colon :: rest) =
      match runTo (Tree.isOperator "=") rest with
      | none => .error (unexpected "expected `=` in declaration" (rest.getLastD colon) none)
      | some type => runToSemicolon type.stop type.rest >>= fun value =>
        .ok ⟨.plain (.declare name type.trees value.trees ⟨first.span.start, value.stop⟩),
          value.rest⟩ := by
  obtain ⟨_, rfl⟩ := hfirst
  obtain ⟨_, rfl⟩ := htarget
  obtain ⟨_, rfl⟩ := hcolon
  rfl

/-- Some trees have an `=` among them, a semicolon behind it, and behind that statements. -/
def Completes (trees : List (Tree P)) : Prop :=
  ∃ type equals value last rest stmts, trees = type ++ equals :: (value ++ last :: rest) ∧
    (∀ tree ∈ type, tree.isOperator "=" = false) ∧ equals.isOperator "=" = true ∧
    (∀ tree ∈ value, tree.isKind .semicolon = false) ∧ last.isKind .semicolon = true ∧
    ofTrees rest = .ok stmts

section
variable {first target colon last : Tree P} {name : String} {run after : List (Tree P)}
  (hfirst : first.IsToken (.keyword .letWord) "let") (htarget : target.IsToken .identifier name)
  (hcolon : colon.IsToken .colon ":") (hrun : ∀ tree ∈ run, tree.isOperator "=" = false)
  (hlast : last.IsToken .semicolon ";")
include hfirst htarget hcolon hrun hlast

/-- A declaration without `=` up to its semicolon takes what follows for the rest of its type. -/
theorem cutFirst_of_unequal (after : List (Tree P)) :
    cutFirst first (target :: colon :: (run ++ last :: after)) =
      match runTo (Tree.isOperator "=") after with
      | none => .error (unexpected "expected `=` in declaration"
          ((run ++ last :: after).getLastD colon) none)
      | some type => runToSemicolon type.stop type.rest >>= fun value =>
        .ok ⟨.plain (.declare name (run ++ last :: type.trees) value.trees
          ⟨first.span.start, value.stop⟩), value.rest⟩ := by
  have hfree : ∀ tree ∈ run ++ [last], tree.isOperator "=" = false := by
    obtain ⟨_, rfl⟩ := hlast
    exact List.forall_mem_append.2 ⟨hrun, List.forall_mem_singleton.2 rfl⟩
  have htype := runTo_append_of_free after hfree
  rw [List.append_assoc, List.singleton_append] at htype
  rw [cutFirst_of_let hfirst htarget hcolon, htype]
  cases runTo (Tree.isOperator "=") after with
  | none => rfl
  | some type => simp

/-- Where what follows can complete the declaration, the outline begins with a declaration whose
type has the semicolon in it. -/
theorem ofTrees_of_completes (h : Completes after) : ∃ type value span stmts,
    ofTrees (first :: target :: colon :: (run ++ last :: after)) =
      .ok (.declare name (run ++ last :: type) value span :: stmts) := by
  obtain ⟨type, equals, value, closing, rest, stmts, rfl, htype, hequals, hvalue, hclosing,
    hstmts⟩ := h
  have hcut := cutFirst_of_unequal hfirst htarget hcolon hrun hlast
    (type ++ equals :: (value ++ closing :: rest))
  rw [runTo_append equals _ htype hequals] at hcut
  simp only [runToSemicolon, runTo_append closing rest hvalue hclosing, bind, Except.bind] at hcut
  rw [ofTrees_plain hcut, hstmts]
  exact ⟨_, _, _, _, rfl⟩

/-- What follows completes the declaration wherever there is an outline. -/
theorem completes_of_ofTrees {stmts : List (Stmt P)}
    (h : ofTrees (first :: target :: colon :: (run ++ last :: after)) = .ok stmts) :
    Completes after := by
  have hcut := cutFirst_of_unequal hfirst htarget hcolon hrun hlast after
  cases htype : runTo (Tree.isOperator "=") after with
  | none =>
    rw [htype] at hcut
    cases (ofTrees_error hcut).symm.trans h
  | some type =>
    rw [htype] at hcut
    simp only at hcut
    cases hvalue : runToSemicolon type.stop type.rest with
    | error fault =>
      rw [hvalue] at hcut
      cases (ofTrees_error hcut).symm.trans h
    | ok value =>
      rw [hvalue] at hcut
      rw [ofTrees_plain hcut] at h
      obtain ⟨more, hmore, -⟩ := Outcome.bind_eq_ok.1 h
      obtain ⟨equals, hafter, hequals, -, hfree⟩ := runTo_eq_some htype
      obtain ⟨closing, hrest, hclosing, -, hopen⟩ := runTo_eq_some (runToSemicolon_ok hvalue)
      exact ⟨type.trees, equals, value.trees, closing, value.rest, more, by rw [hafter, hrest],
        hfree, hequals, hopen, hclosing, hmore⟩

end

end Outline

/-! ## Reading -/

/-- A declaration whose type has a semicolon in it is never read. What is wrong is found in the
type, if nothing is wrong with the statements before. -/
theorem Block.ofOutline_unequal (limit budget : Nat) (stmts more : List (Outline.Stmt P))
    (name : String) (value : List (Tree P)) (span whole : Span P) {type : List (Tree P)}
    (htype : ∃ tree ∈ type, tree.isKind .semicolon = true) :
    ∃ fault, Block.ofOutline limit budget ⟨stmts ++ .declare name type value span :: more, whole⟩ =
        .error fault ∧
      ∀ other block, Block.ofOutline limit budget ⟨stmts, other⟩ = .ok block →
        fault.cause.stage = .types ∨ fault.cause.stage = .depth := by
  cases budget with
  | zero =>
    refine ⟨_, rfl, fun other block h => ?_⟩
    cases h
  | succ budget =>
    let inner : Reader P := .ofBudget limit budget
    have hwhole : Block.ofOutline limit (budget + 1)
        ⟨stmts ++ .declare name type value span :: more, whole⟩ =
        ((stmts ++ .declare name type value span :: more).mapM inner.readStmt >>= fun found =>
          .ok ⟨found, whole⟩) := rfl
    rw [hwhole, List.mapM_append]
    cases hstmts : stmts.mapM inner.readStmt with
    | error fault =>
      refine ⟨fault, rfl, fun other block h => ?_⟩
      obtain ⟨_, hfound, -⟩ := Outcome.bind_eq_ok.1 h
      cases hstmts.symm.trans hfound
    | ok found =>
      rw [List.mapM_cons, Reader.readStmt]
      cases hread : Ty.ofTrees limit budget span.start type with
      | ok read => exact absurd hread (Ty.ofTrees_ne_ok limit budget span.start htype read)
      | error fault =>
        have hinner : inner.type span.start type = .error fault := hread
        rw [hinner]
        exact ⟨fault, rfl,
          fun _ _ _ => Ty.ofTrees_faultsIn limit budget span.start type fault hread⟩

/-! ## Sources -/

section
variable {source : Source} {limit : Nat} {region : Region Position}
  {before run after : List (Tree Position)} {first target colon last : Tree Position}
  {name : String} {stmts : List (Outline.Stmt Position)}

/-- A source whose statements are followed by a declaration that has a semicolon before any `=`
spells no program. What is wrong is found by outlining, unless what follows the semicolon completes
the declaration: then it is found in the type, if nothing is wrong with the statements before. -/
theorem Source.declaration_unequal (hregion : source.region limit (source.place 0) = .ok region)
    (htrees : region.trees = before ++ first :: target :: colon :: (run ++ last :: after))
    (hbefore : Outline.ofTrees before = .ok stmts) (hlone : ¬ Outline.EndsLone before stmts)
    (hfirst : first.IsToken (.keyword .letWord) "let") (htarget : target.IsToken .identifier name)
    (hcolon : colon.IsToken .colon ":") (hrun : ∀ tree ∈ run, tree.isOperator "=" = false)
    (hlast : last.IsToken .semicolon ";") :
    ∃ fault, source.program limit = .error fault ∧
      (¬ Outline.Completes after → fault.cause.stage = .outlining) ∧
      (Outline.Completes after →
        (∃ span block, Block.ofOutline limit limit ⟨stmts, span⟩ = .ok block) →
          fault.cause.stage = .types ∨ fault.cause.stage = .depth) := by
  obtain ⟨tokens, htokens, hnest⟩ := Outcome.bind_eq_ok.1 hregion
  have hprogram : source.program limit =
      (Outline.ofTrees region.trees).map (fun stmts => ⟨stmts, region.span⟩) >>=
        Block.ofOutline limit limit := by
    rw [program_eq htokens, Block.ofTokens, hnest]
    rfl
  have hspelled : Tree.AllSpelled before :=
    Tree.Holds.of_slice (htrees ▸ region_spelled hregion) (List.prefix_append before _).isInfix
  rw [htrees, Outline.ofTrees_joined _ hspelled hbefore hlone] at hprogram
  by_cases hafter : Outline.Completes after
  · obtain ⟨type, value, span, more, hdeclare⟩ :=
      Outline.ofTrees_of_completes hfirst htarget hcolon hrun hlast hafter
    rw [hdeclare] at hprogram
    have hsemicolon : ∃ tree ∈ run ++ last :: type, tree.isKind .semicolon = true :=
      ⟨last, by simp, Tree.isKind_eq_true_iff.2 ⟨_, hlast⟩⟩
    obtain ⟨fault, hfault, hstage⟩ :=
      Block.ofOutline_unequal limit limit stmts more name value span region.span hsemicolon
    refine ⟨fault, hprogram.trans hfault, fun h => absurd hafter h, fun _ hread => ?_⟩
    obtain ⟨other, block, hblock⟩ := hread
    exact hstage other block hblock
  · cases hdeclare : Outline.ofTrees (first :: target :: colon :: (run ++ last :: after)) with
    | ok more =>
      exact absurd (Outline.completes_of_ofTrees hfirst htarget hcolon hrun hlast hdeclare) hafter
    | error fault =>
      rw [hdeclare] at hprogram
      exact ⟨fault, hprogram, fun _ => Outline.ofTrees_faultsIn _ fault hdeclare,
        fun h => absurd h hafter⟩

end

/-- An expression, a declaration that has no `=` and an assignment that completes it. -/
theorem Source.declaration_unequal_assignment :
    let source : Source := ⟨"a; let x: Int; y = 1;", "demo.let"⟩
    let token (kind : Kind) (text : String) (k l : Nat) : Tree Position :=
      .leaf ⟨kind, text, ⟨source.place k, source.place l⟩⟩
    let before := [token .identifier "a" 0 1, token .semicolon ";" 1 2]
    let run := [token .typeName "Int" 10 13]
    let after := [token .identifier "y" 15 16, token .operator "=" 17 18, token .number "1" 19 20,
      token .semicolon ";" 20 21]
    source.region 4 (source.place 0) =
        .ok ⟨before ++ token (.keyword .letWord) "let" 3 6 :: token .identifier "x" 7 8 ::
          token .colon ":" 8 9 :: (run ++ token .semicolon ";" 13 14 :: after),
          ⟨source.place 0, source.place 21⟩⟩ ∧
      Outline.Completes after ∧
      ∃ fault, source.program 4 = .error fault ∧
        (fault.cause.stage = .types ∨ fault.cause.stage = .depth) := by
  intro source token before run after
  have hregion : source.region 4 (source.place 0) =
      .ok ⟨before ++ token (.keyword .letWord) "let" 3 6 :: token .identifier "x" 7 8 ::
        token .colon ":" 8 9 :: (run ++ token .semicolon ";" 13 14 :: after),
        ⟨source.place 0, source.place 21⟩⟩ := by
    have htokens : source.tokens = .ok [⟨.identifier, "a", ⟨source.place 0, source.place 1⟩⟩,
      ⟨.semicolon, ";", ⟨source.place 1, source.place 2⟩⟩,
      ⟨.keyword .letWord, "let", ⟨source.place 3, source.place 6⟩⟩,
      ⟨.identifier, "x", ⟨source.place 7, source.place 8⟩⟩,
      ⟨.colon, ":", ⟨source.place 8, source.place 9⟩⟩,
      ⟨.typeName, "Int", ⟨source.place 10, source.place 13⟩⟩,
      ⟨.semicolon, ";", ⟨source.place 13, source.place 14⟩⟩,
      ⟨.identifier, "y", ⟨source.place 15, source.place 16⟩⟩,
      ⟨.operator, "=", ⟨source.place 17, source.place 18⟩⟩,
      ⟨.number, "1", ⟨source.place 19, source.place 20⟩⟩,
      ⟨.semicolon, ";", ⟨source.place 20, source.place 21⟩⟩] := by decide +kernel
    rw [Source.region, htokens]
    rfl
  have hbefore : Outline.ofTrees before =
      .ok [.expression [token .identifier "a" 0 1] ⟨source.place 0, source.place 2⟩] := by
    rw [Outline.ofTrees_plain rfl, Outline.ofTrees_nil]
    rfl
  have hlone : ¬ Outline.EndsLone before
      [.expression [token .identifier "a" 0 1] ⟨source.place 0, source.place 2⟩] := by
    rintro ⟨front, tree, init, htrees, hlast⟩
    obtain ⟨-, htree⟩ :=
      List.append_inj' (show [token .identifier "a" 0 1] ++ [token .semicolon ";" 1 2] =
        front ++ [tree] from htrees) rfl
    obtain ⟨-, hstmt⟩ := List.append_inj' (show [] ++ [_] = init ++ [_] from hlast) rfl
    injection htree with htree
    subst htree
    simp [token] at hstmt
  have hafter : Outline.Completes after :=
    ⟨[token .identifier "y" 15 16], token .operator "=" 17 18, [token .number "1" 19 20],
      token .semicolon ";" 20 21, [], [], rfl, List.forall_mem_singleton.2 rfl, rfl,
      List.forall_mem_singleton.2 rfl, rfl, Outline.ofTrees_nil⟩
  obtain ⟨fault, hfault, -, hstage⟩ := Source.declaration_unequal hregion rfl hbefore hlone
    ⟨_, rfl⟩ ⟨_, rfl⟩ ⟨_, rfl⟩ (List.forall_mem_singleton.2 rfl) ⟨_, rfl⟩
  exact ⟨hregion, hafter, fault, hfault, hstage hafter ⟨⟨source.place 0, source.place 2⟩, _, rfl⟩⟩

/-- What is wrong with a declaration without `=` is not always found by outlining: an assignment
behind it makes its type run on through the semicolon. -/
theorem Source.declaration_unequal_absorbed :
    let source : Source := ⟨"let x: Int; y = 1;", "demo.let"⟩
    let token (kind : Kind) (text : String) (k l : Nat) : Tree Position :=
      .leaf ⟨kind, text, ⟨source.place k, source.place l⟩⟩
    let span : Span Position := ⟨source.place 0, source.place 18⟩
    source.region Source.depthLimit (source.place 0) =
        .ok ⟨[token (.keyword .letWord) "let" 0 3, token .identifier "x" 4 5, token .colon ":" 5 6,
          token .typeName "Int" 7 10, token .semicolon ";" 10 11, token .identifier "y" 12 13,
          token .operator "=" 14 15, token .number "1" 16 17, token .semicolon ";" 17 18], span⟩ ∧
      source.program Source.depthLimit = .error ⟨.invalidType "Int ; y", source.place 7⟩ ∧
      (Cause.invalidType "Int ; y").stage ≠ .outlining := by
  intro source token span
  have htokens : source.tokens = .ok [⟨.keyword .letWord, "let", ⟨source.place 0, source.place 3⟩⟩,
      ⟨.identifier, "x", ⟨source.place 4, source.place 5⟩⟩,
      ⟨.colon, ":", ⟨source.place 5, source.place 6⟩⟩,
      ⟨.typeName, "Int", ⟨source.place 7, source.place 10⟩⟩,
      ⟨.semicolon, ";", ⟨source.place 10, source.place 11⟩⟩,
      ⟨.identifier, "y", ⟨source.place 12, source.place 13⟩⟩,
      ⟨.operator, "=", ⟨source.place 14, source.place 15⟩⟩,
      ⟨.number, "1", ⟨source.place 16, source.place 17⟩⟩,
      ⟨.semicolon, ";", ⟨source.place 17, source.place 18⟩⟩] := by decide +kernel
  refine ⟨?_, ?_, by decide⟩
  · rw [Source.region, htokens]
    rfl
  · rw [Source.program_eq htokens]
    cbv

end LetWhile
