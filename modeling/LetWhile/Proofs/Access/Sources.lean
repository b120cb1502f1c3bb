import LetWhile.Proofs.Access.Checking
import LetWhile.Proofs.Access.Reading
import LetWhile.Proofs.Access.Report
import LetWhile.Proofs.Access.Scanning
import LetWhile.Proofs.Fault.Unclosed

/-!
# Sources by indices

A source is scanned, read and checked by stages that access texts, slices, arguments and frames by
index, and a fault is reported likewise. No source and no limit makes the stages go out of range, and
they come to what the source comes to. A report goes out of range where the caret is too far to the
right to be written, and only there (`Source.accesses_in_range`).
-/

namespace LetWhile

namespace Indexed

/-- The tokens of a source. -/
def tokens (source : Source) : Indexed Position (List (Token Position)) :=
  ExceptT.mk ((scan source.text.toList).run.map
    (Outcome.relocate source.place (List.map (Token.map source.place))))

/-- A source is scanned in range. -/
theorem tokens_gives (source : Source) : (tokens source).Gives source.tokens := by
  have hscan := scan_gives source.text.toList
  unfold Gives at hscan
  show ((scan source.text.toList).run.map _) = _
  rw [hscan]
  rfl

/-- A well-typed program, the stack after it and the types that it returns. -/
structure Checked where
  program : Block Position
  stack : Stack
  returns : List Ty

/-- What was checked in a session, with the stack of that session. -/
def Checked.of (checked : LetWhile.Checked) : Checked :=
  ⟨checked.program, Stack.of checked.session, checked.returns⟩

/-- The program that a source spells, nested at most `limit` deep, checked with a stack of one
frame. -/
def check (source : Source) (limit : Nat) : Indexed Position Checked := do
  let tokens ← tokens source
  let program ← ofTokens limit (source.place 0) tokens
  let checked ← access ((Stacked.checkProgram program).run ⟨OperatorTable.builtin, [[]]⟩)
  let returns ← ofOutcome checked.1
  pure ⟨program, checked.2, returns⟩

/-- A source is scanned, read and checked in range. -/
theorem check_gives (source : Source) (limit : Nat) :
    (check source limit).Gives ((source.checkWithin limit).map Checked.of) := by
  have hcheck : (source.checkWithin limit).map Checked.of = (do
      let tokens ← source.tokens
      let program ← Block.ofTokens limit (source.place 0) tokens
      let returns ← (program.check.run Session.builtin).1
      .ok ⟨program, Stack.of (program.check.run Session.builtin).2, returns⟩) := by
    unfold Source.checkWithin Source.program
    cases source.tokens with
    | error fault => rfl
    | ok tokens =>
      simp only [bind, Except.bind]
      cases Block.ofTokens limit (source.place 0) tokens with
      | error fault => rfl
      | ok program =>
        simp only [Session.run]
        cases (program.check.run Session.builtin).1 <;> rfl
  rw [hcheck]
  refine (tokens_gives source).bind fun tokens htokens => ?_
  refine (ofTokens_gives limit _ (Source.tokens_admitted htokens)).bind fun program _ => ?_
  refine .access_bind (Stacked.checkProgram_gives program Session.builtin) ?_
  exact (Gives.ofOutcome _).bind fun returns _ => .pure _

end Indexed

/-- No source makes a stage go out of range, whatever the limit on nesting, and the stages come to
what the source comes to. A report of a fault goes out of range where it breaks off, and comes to its
lines where it does not. In a source whose offsets are below `2 ^ 32` it breaks off exactly if the
caret cannot be written. -/
theorem Source.accesses_in_range (source : Source) (limit : Nat) :
    (Indexed.check source limit).Gives ((source.checkWithin limit).map Indexed.Checked.of) ∧
      ∀ (fault : Fault Position) (file : String),
        Indexed.report fault source.text file = (fault.report source.text file).whole? ∧
        (source.text.utf8ByteSize < 2 ^ 32 →
          ((Indexed.report fault source.text file).isSome = true ↔ fault.CaretFits source.text)) := by
  refine ⟨Indexed.check_gives source limit, fun fault file => ?_⟩
  have hreport := Indexed.report_eq fault source.text file
  refine ⟨hreport, fun hsize => ?_⟩
  rw [hreport, Printout.isSome_whole?,
    fault.complete_report_iff (Text.utf8ByteSize_eq source.text ▸ hsize) file]

/-- The report of a name that is not declared is in range: the fault lies at the start of a line. -/
theorem Source.accesses_in_range_undeclared :
    let source : Source := ⟨"a", Source.shell⟩
    ∃ fault, source.check = .error fault ∧
      (Indexed.report fault source.text Source.shell).isSome = true := by
  intro source
  have htokens : source.tokens = .ok
      [⟨.identifier, "a", ⟨source.place 0, source.place 1⟩⟩] := by
    decide +kernel
  have hcheck : source.check = .error ⟨.notDeclared "a", source.place 0⟩ := by
    unfold check checkWithin
    rw [program_eq htokens]
    cbv
  obtain ⟨-, hreport⟩ := Source.accesses_in_range source depthLimit
  refine ⟨_, hcheck, ((hreport _ Source.shell).2 (by decide +kernel)).2 ?_⟩
  intro place hplace
  cbv at hplace
  cases hplace
  decide

/-- An unclosed quote behind a name of 65535 bytes: the caret would be the last of 65536 characters,
and the report goes out of range. -/
theorem Source.report_out_of_range :
    let source : Source := ⟨String.ofList (List.replicate 65535 'a') ++ "\"", Source.shell⟩
    source.text.utf8ByteSize < 2 ^ 32 ∧ ∃ fault, source.check = .error fault ∧
      Indexed.report fault source.text Source.shell = none := by
  intro source
  obtain ⟨hbytes, fault, hcheck, hreport⟩ :=
    Source.report_letters 65534 (by decide) Source.shell Source.shell
  refine ⟨?_, fault, hcheck, ?_⟩
  · rw [hbytes]
    decide
  · rw [Indexed.report_eq, hreport, if_neg (by decide)]
    rfl

end LetWhile
