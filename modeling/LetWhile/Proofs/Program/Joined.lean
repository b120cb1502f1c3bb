import LetWhile.Proofs.Outline.Joined
import LetWhile.Proofs.Relocation.Sources
import LetWhile.Proofs.Scanning.Joined

/-!
# Joined sources

A source, a line feed and another source are read as one program after the other: each stage takes
the same decisions in the first part, whatever follows, and goes on in the second part as if it came
first. Only where the tokens stand is different, and the one thing that may tie the two together is
a lone tree at the end of the first, which needs no semicolon only because nothing follows it
(`Source.EndsLone`). This is `Source.program_joined`.
-/

namespace LetWhile

variable {P : Type}

/-! ## Nesting -/

/-- Tokens that nest by themselves nest in front of others, which then go on at the outermost
level. -/
theorem Nesting.nestFrom_of_nest {limit : Nat} {origin : P} {tokens : List (Token P)}
    {region : Region P} (h : nest limit origin tokens = .ok region) (before : List (Tree P))
    (rest : List (Token P)) :
    nestFrom limit [] before (tokens ++ rest) =
      nestFrom limit [] (region.trees.reverse ++ before) rest := by
  obtain ⟨depth, hdepth, hbalanced⟩ := (nestsTo_of_nest h).balanced
  obtain ⟨trees, hpass⟩ := nestFrom_balanced hbalanced
  have hrun := hpass limit [] [] [] (by simpa using hdepth)
  obtain ⟨found, hfound, rfl⟩ := Outcome.map_eq_ok.1 h
  rw [List.append_nil, List.append_nil, hfound] at hrun
  cases hrun
  rw [hpass limit [] before rest (by simpa using hdepth), List.reverse_reverse]

/-- Tokens behind others whose brackets match are nested as they are on their own. -/
theorem nest_joined {limit : Nat} {origin other : P} {tokens more : List (Token P)}
    {region later : Region P} (h : nest limit origin tokens = .ok region)
    (h' : nest limit other more = .ok later) :
    ∃ span, nest limit origin (tokens ++ more) = .ok ⟨region.trees ++ later.trees, span⟩ := by
  have hrun := Nesting.nestFrom_of_nest h [] (more ++ [])
  rw [Nesting.nestFrom_of_nest h', List.append_nil, List.append_nil, Nesting.nestFrom] at hrun
  exact ⟨Nesting.spanOf origin (tokens ++ more), Outcome.map_eq_ok.2 ⟨_, hrun, by simp⟩⟩

/-! ## Reading -/

/-- Statements that are read on both sides are read as one block. -/
theorem Block.ofOutline_joined {limit budget : Nat} {stmts more : List (Outline.Stmt P)}
    {span span' : Span P} {program later : Block P}
    (h : Block.ofOutline limit budget ⟨stmts, span⟩ = .ok program)
    (h' : Block.ofOutline limit budget ⟨more, span'⟩ = .ok later) (whole : Span P) :
    Block.ofOutline limit budget ⟨stmts ++ more, whole⟩ =
      .ok ⟨program.stmts ++ later.stmts, whole⟩ := by
  cases budget with
  | zero => cases h
  | succ budget =>
    obtain ⟨found, hfound, h⟩ := Outcome.bind_eq_ok.1 h
    obtain ⟨others, hothers, h'⟩ := Outcome.bind_eq_ok.1 h'
    cases h
    cases h'
    refine Outcome.bind_eq_ok.2 ⟨found ++ others, ?_, rfl⟩
    rw [Outline.Block.stmts, List.mapM_append]
    exact Outcome.bind_eq_ok.2 ⟨found, hfound, Outcome.bind_eq_ok.2 ⟨others, hothers, rfl⟩⟩

/-- Two lists of tokens that spell programs spell both, one after the other, unless the first ends
with a lone tree. -/
theorem Block.ofTokens_joined {limit : Nat} {origin other : P} {tokens more : List (Token P)}
    {program later : Block P} (hs : ∀ token ∈ tokens, token.Spelled)
    (hlone : ∀ region stmts, nest limit origin tokens = .ok region →
      Outline.ofTrees region.trees = .ok stmts → ¬ Outline.EndsLone region.trees stmts)
    (h : Block.ofTokens limit origin tokens = .ok program)
    (h' : Block.ofTokens limit other more = .ok later) :
    ∃ span, Block.ofTokens limit origin (tokens ++ more) =
      .ok ⟨program.stmts ++ later.stmts, span⟩ := by
  obtain ⟨region, hregion, h⟩ := Outcome.bind_eq_ok.1 h
  obtain ⟨_, houtline, h⟩ := Outcome.bind_eq_ok.1 h
  obtain ⟨stmts, hstmts, rfl⟩ := Outcome.map_eq_ok.1 houtline
  obtain ⟨region', hregion', h'⟩ := Outcome.bind_eq_ok.1 h'
  obtain ⟨_, houtline', h'⟩ := Outcome.bind_eq_ok.1 h'
  obtain ⟨stmts', hstmts', rfl⟩ := Outcome.map_eq_ok.1 houtline'
  obtain ⟨span, hjoined⟩ := nest_joined hregion hregion'
  have houtlined := Outline.ofTrees_joined region'.trees (Tree.holds_of_nest hregion hs) hstmts
    (hlone region stmts hregion hstmts)
  rw [hstmts'] at houtlined
  refine ⟨span, Outcome.bind_eq_ok.2 ⟨_, hjoined, Outcome.bind_eq_ok.2
    ⟨_, Outcome.map_eq_ok.2 ⟨_, houtlined, rfl⟩, Block.ofOutline_joined h h' span⟩⟩⟩

/-! ## Positions -/

/-- The ends of the tokens of a source lie within it. -/
theorem Token.Corresponds.byte_le {source : Source} {tokens : List (Token Position)}
    (hsize : source.text.utf8ByteSize < 2 ^ 32) (htokens : source.tokens = .ok tokens)
    {pos other : Position}
    (h : Corresponds (source.place 0) tokens (source.place 0) tokens pos other) :
    pos.byte ≤ source.text.utf8ByteSize := by
  have hcovers := (Source.tokens_cover hsize htokens).1
  cases h with
  | origin => exact Nat.zero_le _
  | @start index token _ htoken _ =>
    have hmem := List.mem_map_of_mem (f := Token.map Position.byte) (List.mem_of_getElem? htoken)
    exact (hcovers.boundaries _ hmem).1.le_utf8ByteSize
  | @stop index token _ htoken _ =>
    have hmem := List.mem_map_of_mem (f := Token.map Position.byte) (List.mem_of_getElem? htoken)
    exact (hcovers.boundaries _ hmem).2.le_utf8ByteSize

/-- Moving the positions of a program moves positions within its source only. -/
theorem Source.map_congr_of_program {source : Source} {limit : Nat} {program : Block Position}
    (hsize : source.text.utf8ByteSize < 2 ^ 32) (h : source.program limit = .ok program) {Q : Type}
    {f g : Position → Q} (hfg : ∀ pos, pos.byte ≤ source.text.utf8ByteSize → f pos = g pos) :
    program.map f = program.map g := by
  obtain ⟨tokens, htokens, -⟩ := Outcome.bind_eq_ok.1 h
  obtain ⟨A, place, _, outcome, hcorresponds, hprogram, -⟩ :=
    Block.ofTokens_corresponds limit (source.place 0) (source.place 0)
      (rfl : tokens.map Token.spelling = tokens.map Token.spelling)
  rw [program_eq htokens, hprogram] at h
  cases outcome with
  | error fault => cases h
  | ok anchored =>
    cases h
    have hplace : f ∘ place = g ∘ place :=
      funext fun a => hfg _ ((hcorresponds a).byte_le hsize htokens)
    rw [Block.map_map, Block.map_map, hplace]

/-! ## Sources -/

/-- The last statement of a source is a tree that stands alone at its end. -/
def Source.EndsLone (source : Source) (limit : Nat) : Prop :=
  ∃ region stmts, source.region limit (source.place 0) = .ok region ∧
    Outline.ofTrees region.trees = .ok stmts ∧ Outline.EndsLone region.trees stmts

/-- Two sources of one file that spell programs, with a line feed between them, spell the statements
of the first and then those of the second, further on by the first and the line feed, unless the
first ends with a lone tree. As long as the offsets are below `2 ^ 32`, these add up. -/
theorem Source.program_joined (a b file : String) (limit : Nat) {program later : Block Position}
    (hsize : (a ++ "\n" ++ b).utf8ByteSize < 2 ^ 32)
    (h : (Source.mk a file).program limit = .ok program)
    (h' : (Source.mk b file).program limit = .ok later)
    (hlone : ¬ (Source.mk a file).EndsLone limit) :
    ∃ joined, (Source.mk (a ++ "\n" ++ b) file).program limit = .ok joined ∧
      joined.stmts =
        program.stmts ++ Stmt.mapAll (Position.shift (a.utf8ByteSize + 1)) later.stmts ∧
      Stmt.mapAll Position.byte joined.stmts =
        Stmt.mapAll Position.byte program.stmts ++
          Stmt.mapAll (fun pos => pos.byte + (a.utf8ByteSize + 1)) later.stmts := by
  obtain ⟨tokens, htokens, -⟩ := Outcome.bind_eq_ok.1 h
  obtain ⟨found, hfound, -⟩ := Outcome.bind_eq_ok.1 h'
  let shift := Position.shift (a.utf8ByteSize + 1)
  have hread := h
  have hread' := h'
  rw [program_eq htokens] at hread
  rw [program_eq hfound] at hread'
  have hlater : Block.ofTokens limit (shift ((Source.mk b file).place 0))
      (found.map (Token.map shift)) = .ok (later.map shift) := by
    rw [← Block.ofTokens_relocate, hread']
    rfl
  have hregion {region : Region Position}
      (hnest : nest limit ((Source.mk a file).place 0) tokens = .ok region) :
      (Source.mk a file).region limit ((Source.mk a file).place 0) = .ok region :=
    Outcome.bind_eq_ok.2 ⟨tokens, htokens, hnest⟩
  obtain ⟨span, hjoined⟩ := Block.ofTokens_joined (tokens_spelled htokens)
    (fun region stmts hnest hstmts hend => hlone ⟨region, stmts, hregion hnest, hstmts, hend⟩)
    hread hlater
  rw [Block.stmts_map] at hjoined
  refine ⟨_, (program_eq (tokens_joined htokens hfound) limit).trans hjoined, rfl, ?_⟩
  have hsum : (a ++ "\n" ++ b).utf8ByteSize = a.utf8ByteSize + 1 + b.utf8ByteSize := by
    simp only [String.utf8ByteSize_append]
    rfl
  have hsize' : (Source.mk b file).text.utf8ByteSize < 2 ^ 32 := by
    show b.utf8ByteSize < 2 ^ 32
    omega
  have hbytes : Stmt.mapAll Position.byte (Stmt.mapAll shift later.stmts) =
      Stmt.mapAll (fun pos => pos.byte + (a.utf8ByteSize + 1)) later.stmts := by
    rw [Stmt.mapAll_mapAll, ← Block.stmts_map, ← Block.stmts_map]
    refine congrArg Block.stmts (map_congr_of_program hsize' h' fun pos hpos => ?_)
    have hpos : pos.byte ≤ b.utf8ByteSize := hpos
    exact Position.byte_shift (by omega)
  rw [Block.stmts, Stmt.mapAll_append, hbytes]

/-- A name with a semicolon and one without. The second begins at the third byte of both
together. -/
theorem Source.program_joined_names :
    let first : Source := ⟨"x;", "demo.let"⟩
    let second : Source := ⟨"y", "demo.let"⟩
    let both : Source := ⟨"x;" ++ "\n" ++ "y", "demo.let"⟩
    let place := both.place
    let stmts : List (Stmt Position) :=
      [.expression (.symbol "x" ⟨place 0, place 1⟩) ⟨place 0, place 2⟩]
    let more (k : Nat) : List (Stmt Position) :=
      [.expression (.symbol "y" ⟨place k, place (k + 1)⟩) ⟨place k, place (k + 1)⟩]
    first.program 3 = .ok (.mk stmts ⟨place 0, place 2⟩) ∧
      second.program 3 = .ok (.mk (more 0) ⟨place 0, place 1⟩) ∧ ¬ first.EndsLone 3 ∧
      ∃ joined, both.program 3 = .ok joined ∧ joined.stmts = stmts ++ more 3 := by
  intro first second both place stmts more
  have htokens : first.tokens = .ok [⟨.identifier, "x", ⟨place 0, place 1⟩⟩,
      ⟨.semicolon, ";", ⟨place 1, place 2⟩⟩] := by decide +kernel
  have htokens' : second.tokens = .ok [⟨.identifier, "y", ⟨place 0, place 1⟩⟩] := by
    decide +kernel
  have hprogram : first.program 3 = .ok (.mk stmts ⟨place 0, place 2⟩) := by
    rw [Source.program_eq htokens]
    cbv
  have hprogram' : second.program 3 = .ok (.mk (more 0) ⟨place 0, place 1⟩) := by
    rw [Source.program_eq htokens']
    cbv
  let name : Tree Position := .leaf ⟨.identifier, "x", ⟨place 0, place 1⟩⟩
  let semicolon : Tree Position := .leaf ⟨.semicolon, ";", ⟨place 1, place 2⟩⟩
  have hregion : first.region 3 (first.place 0) =
      .ok ⟨[name, semicolon], ⟨place 0, place 2⟩⟩ := by
    rw [Source.region, htokens]
    rfl
  have houtline : Outline.ofTrees [name, semicolon] =
      .ok [.expression [name] ⟨place 0, place 2⟩] := by
    rw [Outline.ofTrees_plain rfl, Outline.ofTrees_nil]
    rfl
  have hlone : ¬ first.EndsLone 3 := by
    rintro ⟨_, _, hregion', houtline', before, tree, init, htrees, hlast⟩
    cases hregion.symm.trans hregion'
    cases houtline.symm.trans houtline'
    obtain ⟨-, htree⟩ :=
      List.append_inj' (show [name] ++ [semicolon] = before ++ [tree] from htrees) rfl
    obtain ⟨-, hstmt⟩ := List.append_inj' (show [] ++ [_] = init ++ [_] from hlast) rfl
    injection htree with htree
    subst htree
    simp [name, semicolon] at hstmt
  obtain ⟨joined, hjoined, hstmts, -⟩ := Source.program_joined "x;" "y" "demo.let" 3
    (by decide +kernel) hprogram hprogram' hlone
  exact ⟨hprogram, hprogram', hlone, joined, hjoined, hstmts⟩

end LetWhile
