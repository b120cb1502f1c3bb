import LetWhile.CommandLine
import LetWhile.Proofs.Relocation.Checks
import LetWhile.Proofs.Typing.Bindings

/-!
# Answers of the command line

Whether a text is well typed does not depend on the name of its file, which goes into positions and
nothing else (`Source.checkWithin_file`). A text that is well typed is answered by the lines for the
names that it declares and for the type that it returns (`CommandLine.answer_eq`), and it takes such a
text to exit without a fault (`CommandLine.respond_matches`).
-/

namespace LetWhile

/-! ## File names -/

/-- The same offset in a file of another name. -/
def Position.within (file : String) (pos : Position) : Position := ⟨pos.offset, file⟩

namespace Source
variable {text file : String} {limit : Nat}

/-- The tokens of a text are the same in another file, with their places in that file. -/
theorem tokens_file (other : String) :
    (Source.mk text file).tokens.relocate (Position.within other)
      (List.map (Token.map (Position.within other))) = (Source.mk text other).tokens := by
  unfold tokens
  cases Token.scan text.toList with
  | error => rfl
  | ok tokens =>
    simp only [Outcome.relocate_ok, List.map_map]
    rfl

/-- The program of a text is the same in another file, with its places in that file. -/
theorem program_file (other : String) :
    ((Source.mk text file).program limit).relocate (Position.within other)
      (Block.map (Position.within other)) = (Source.mk text other).program limit :=
  Outcome.relocate_bind (tokens_file other) fun tokens => Block.ofTokens_relocate _ limit _ tokens

/-- What is well typed in one file is well typed in any. -/
theorem checkWithin_file (other : String) {checked : Checked}
    (h : (Source.mk text file).checkWithin limit = .ok checked) :
    (Source.mk text other).checkWithin limit =
      .ok ⟨checked.program.map (Position.within other), checked.session, checked.returns⟩ := by
  obtain ⟨hprogram, hrun⟩ := checkWithin_eq_ok_iff.1 h
  refine checkWithin_eq_ok_iff.2 ⟨?_, ?_⟩
  · exact (program_file other).symm.trans (congrArg (Outcome.relocate _ _) hprogram)
  · rw [Session.run_relocate, hrun]
    rfl

end Source

/-- What a statement declares does not depend on places. -/
theorem Stmt.declared?_map {P Q : Type} (f : P → Q) (stmt : Stmt P) :
    (stmt.map f).declared? = stmt.declared? := by
  cases stmt <;> rfl

/-- What a block declares does not depend on places. -/
theorem Block.bindings_map {P Q : Type} (f : P → Q) (block : Block P) :
    (block.map f).bindings = block.bindings := by
  unfold bindings
  rw [Block.stmts_map, Stmt.mapAll_eq_map, List.filterMap_map]
  exact List.filterMap_congr fun stmt _ => stmt.declared?_map f

/-! ## Answers -/

namespace CommandLine

/-- The line for a name with its type. -/
def typeLine (binding : String × Ty) : String := binding.1 ++ ": " ++ binding.2.text

/-- The line for the type that a program returns. -/
def returnsLine (type : Ty) : String := "returns " ++ type.text

/-- What is printed about a well-typed source: the names that it declares, in order and with their
types, and the type that it returns if there is one. -/
theorem summary_eq {source : Source} {limit : Nat} {checked : Checked}
    (h : source.checkWithin limit = .ok checked) :
    summary checked =
      checked.program.bindings.map typeLine ++ checked.returns.map returnsLine := by
  have hline (stmt) (hmem : stmt ∈ checked.program.stmts) :
      bindingLine? checked.session.scope stmt = stmt.declared?.map typeLine := by
    cases stmt with
    | declare name type value span =>
      have hfind := (Source.find?_of_checkWithin h).2 (Block.mem_bindings.2 ⟨value, span, hmem⟩)
      rw [bindingLine?, hfind]
      rfl
    | _ => rfl
  unfold summary Block.bindings
  rw [List.filterMap_congr hline, List.map_filterMap]
  rcases Source.returns_of_checkWithin h with ⟨-, hreturns⟩ | ⟨-, type, hreturns⟩
  · rw [hreturns]
    rfl
  · rw [hreturns]
    rfl

/-- The answer to a text that is well typed, under whichever name. -/
theorem answer_eq {text file : String} {checked : Checked}
    (h : (Source.mk text file).check = .ok checked) (path : String) :
    answer path text =
      ⟨0, printed (checked.program.bindings.map typeLine ++ checked.returns.map returnsLine),
        ""⟩ := by
  have hcheck := Source.checkWithin_file (fileName path) h
  have hsummary := summary_eq hcheck
  rw [Block.bindings_map] at hsummary
  unfold answer Source.check
  simp only [hcheck, hsummary]

/-- A text is answered without a fault only if it is well typed. -/
theorem answer_exit_iff (path text file : String) :
    (answer path text).exit = 0 ↔ ∃ checked, (Source.mk text file).check = .ok checked := by
  refine ⟨fun h => ?_, ?_⟩
  · cases hcheck : (Source.mk text (fileName path)).check with
    | error fault =>
      unfold answer at h
      simp only [hcheck] at h
      split at h <;> cases h
    | ok checked => exact ⟨_, Source.checkWithin_file file hcheck⟩
  · rintro ⟨checked, hchecked⟩
    rw [answer_eq hchecked]

section
variable {read : String → Except ReadFault String} {path : String}

/-- A file that can be read is answered for its text. -/
theorem respond_of_read {text : String} (h : read path = .ok text) :
    respond (m := Id) read [path] = answer path text := by
  simp only [respond, h]
  rfl

/-- A file that cannot be read is answered with the reason. -/
theorem respond_of_unreadable {fault : ReadFault} (h : read path = .error fault) :
    respond (m := Id) read [path] = unreadable path fault := by
  simp only [respond, h]
  rfl

end

/-- The program exits without a fault exactly if its one argument is the path of a text that is well
typed. -/
theorem respond_exit_iff (read : String → Except ReadFault String) (args : List String)
    (file : String) :
    (respond (m := Id) read args).exit = 0 ↔ ∃ path text checked, args = [path] ∧
      read path = .ok text ∧ (Source.mk text file).check = .ok checked := by
  refine ⟨fun h => ?_, ?_⟩
  · match args with
    | [] | _ :: _ :: _ => cases h
    | [path] =>
      cases hread : read path with
      | error fault =>
        rw [respond_of_unreadable hread] at h
        cases h
      | ok text =>
        rw [respond_of_read hread, answer_exit_iff path text file] at h
        obtain ⟨checked, hchecked⟩ := h
        exact ⟨path, text, checked, rfl, hread, hchecked⟩
  · rintro ⟨path, text, checked, rfl, hread, hchecked⟩
    rw [respond_of_read hread, answer_exit_iff path text file]
    exact ⟨checked, hchecked⟩

/-- The program exits without a fault exactly on the paths of texts that are well typed. The result of
checking such a text says what its program says, and printed are the names that are declared at the
top level, in order and with their types, and then the type that is returned if there is one. The
name of the file does not matter. -/
theorem respond_matches (file : String) (read : String → Except ReadFault String) :
    (∀ args, (respond (m := Id) read args).exit = 0 ↔ ∃ path text checked, args = [path] ∧
      read path = .ok text ∧ (Source.mk text file).check = .ok checked) ∧
    ∀ text checked, (Source.mk text file).check = .ok checked →
      checked.Matches ∧ ∀ path, read path = .ok text →
        respond (m := Id) read [path] = ⟨0, printed
          (checked.program.bindings.map typeLine ++ checked.returns.map returnsLine), ""⟩ := by
  refine ⟨fun args => respond_exit_iff read args file, fun text checked hchecked => ?_⟩
  refine ⟨Source.matches_of_checkWithin hchecked, fun path hread => ?_⟩
  rw [respond_of_read hread, answer_eq hchecked]

/-- A text whose inner declarations have the names of outer ones, and which returns from a branch. -/
def shadowed : String :=
  "let f: (Int) -> Int = (x) => \x7b let f: Bool = true; return x; \x7d; let x: Int = f(1);\n"
    ++ "if (x == 2) \x7b let x: String = \"\"; return x; \x7d else \x7b \x7d\n"

/-- A text whose inner names hide outer ones, in a file, and another file that is missing. -/
theorem respond_matches_shadowed :
    let read (path : String) : Except ReadFault String :=
      if path = "demo.let" then .ok shadowed else .error .missing
    read "demo.let" = .ok shadowed ∧ ∃ checked,
      (Source.mk shadowed "demo.let").check = .ok checked ∧ checked.Matches ∧
      respond (m := Id) read ["demo.let"] =
        ⟨0, "f: (Int) -> Int\nx: Int\nreturns String\n", ""⟩ ∧
      (respond (m := Id) read ["other.let"]).exit ≠ 0 := by
  intro read
  have hfound : (Source.mk shadowed "demo.let").check.map (fun checked =>
      printed (checked.program.bindings.map typeLine ++ checked.returns.map returnsLine)) =
        .ok "f: (Int) -> Int\nx: Int\nreturns String\n" := by
    decide +kernel
  obtain ⟨checked, hcheck, hlines⟩ := Outcome.map_eq_ok.1 hfound
  obtain ⟨hexit, hprints⟩ := respond_matches "demo.let" read
  obtain ⟨hmatches, hprinted⟩ := hprints shadowed checked hcheck
  refine ⟨rfl, checked, hcheck, hmatches, ?_, fun h => ?_⟩
  · exact (hprinted "demo.let" rfl).trans (congrArg (Answer.mk 0 · "") hlines)
  · obtain ⟨path, text, _, hargs, hread, -⟩ := (hexit ["other.let"]).1 h
    cases hargs
    cases hread

end CommandLine

end LetWhile
