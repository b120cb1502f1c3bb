import LetWhile.Fault.Basic
import LetWhile.Position

/-!
# Parsers and what they survive

A parser is the state that a reading carries along. It counts how many levels the reading is inside,
and refuses to go beyond its limit. `Parsing` is the type of readings over such a state. A level is
left on every way out, also when what is read there is at fault (`Parser.nested`), so no reading
should change the parser for good. `Parser.Survives` says so of one reading: it returns, with the
given outcome, and the parser is afterwards what it was before, and was within its limit all the
time. A reading that is put together from such readings is one too.
-/

namespace LetWhile

/-- What a reading carries along: the name of the file, how many levels the reading is inside, and
how many it may be inside. -/
structure Parser where
  file : String
  depth : Nat
  limit : Nat

namespace Parser

/-- The parser of a file, inside no level. -/
def fresh (file : String) (limit : Nat) : Parser := ⟨file, 0, limit⟩

/-- The start of the file. -/
def start (parser : Parser) : Position := ⟨0, parser.file⟩

/-- The parser one level further inside. -/
def deeper (parser : Parser) : Parser := { parser with depth := parser.depth + 1 }

/-- The parser one level further outside. -/
def shallower (parser : Parser) : Parser := { parser with depth := parser.depth - 1 }

/-- A parser, and everything it was set to, latest first. -/
structure Trace where
  now : Parser
  seen : List Parser

/-- The parser is set to another. -/
def Trace.set (trace : Trace) (parser : Parser) : Trace := ⟨parser, parser :: trace.seen⟩

/-- A level is entered. -/
def Trace.enter (trace : Trace) : Trace := trace.set trace.now.deeper

/-- A level is left. -/
def Trace.leave (trace : Trace) : Trace := trace.set trace.now.shallower

end Parser

/-- A reading: it yields a result or finds a fault, and leaves a parser in either case. As `none` it
never returns. -/
abbrev Parsing (α : Type) := ExceptT (Fault Position) (StateT Parser.Trace Option) α

namespace Parser
variable {α β γ : Type} {parser : Parser}

/-- What a reading comes to, and the trace that it leaves. -/
def run (parsing : Parsing α) (trace : Trace) : Option (Outcome Position α × Trace) :=
  StateT.run (ExceptT.run parsing) trace

/-- The parser as it is. -/
def current : Parsing Parser := do return (← get).now

/-- The reading that never returns. -/
def never : Parsing α := fun _ => none

/-- A reading one level further inside, which is refused at the limit. The level is left also when
the reading is at fault. -/
def nested (place : Position) (parsing : Parsing α) : Parsing α := fun trace =>
  if trace.now.limit ≤ trace.now.depth then
    some (.error ⟨.nestingTooDeep trace.now.limit, place⟩, trace)
  else Prod.map id Trace.leave <$> run parsing trace.enter

/-- Readings one after another with the same parser. One that is at fault does not keep the next
from being made. -/
def attempts (read : γ → Parsing α) (items : List γ) :
    StateT Trace Option (List (Outcome Position α)) :=
  items.mapM fun item => ExceptT.run (read item)

/-- A reading goes on where the first part of it left off, if that came to a result. -/
theorem run_bind_ok {parsing : Parsing α} {a : α} {trace after : Trace}
    (h : run parsing trace = some (.ok a, after)) (next : α → Parsing β) :
    run (parsing >>= next) trace = run (next a) after := by
  show (parsing trace).bind (fun (outcome, after) => ExceptT.bindCont next outcome after) = _
  rw [show parsing trace = _ from h]
  rfl

/-- A reading ends where the first part of it left off, if that was at fault. -/
theorem run_bind_error {parsing : Parsing α} {fault : Fault Position} {trace after : Trace}
    (h : run parsing trace = some (.error fault, after)) (next : α → Parsing β) :
    run (parsing >>= next) trace = some (.error fault, after) := by
  show (parsing trace).bind (fun (outcome, after) => ExceptT.bindCont next outcome after) = _
  rw [show parsing trace = _ from h]
  rfl

/-! ## Surviving a reading -/

/-- A state of a parser that has the file and the limit of another, and is within the limit. -/
structure Within (parser state : Parser) : Prop where
  file : state.file = parser.file
  limit : state.limit = parser.limit
  depth : state.depth ≤ state.limit

/-- A reading comes to an outcome and leaves the parser as it was. On the way the parser keeps its
file and its limit, and is never deeper than the limit. -/
def Survives (parser : Parser) (parsing : Parsing α) (outcome : Outcome Position α) : Prop :=
  ∀ seen, ∃ states, run parsing ⟨parser, seen⟩ = some (outcome, ⟨parser, states ++ seen⟩) ∧
    ∀ state ∈ states, parser.Within state

namespace Survives

/-- A value leaves the parser as it was. -/
theorem pure (a : α) : parser.Survives (Pure.pure a) (.ok a) :=
  fun _ => ⟨[], rfl, List.forall_mem_nil _⟩

/-- A fault leaves the parser as it was. -/
theorem throw (fault : Fault Position) :
    parser.Survives (α := α) (MonadExcept.throw fault) (.error fault) :=
  fun _ => ⟨[], rfl, List.forall_mem_nil _⟩

/-- An outcome that does not depend on the parser. -/
theorem ofOutcome (outcome : Outcome Position α) : parser.Survives (liftM outcome) outcome :=
  fun _ => ⟨[], rfl, List.forall_mem_nil _⟩

/-- A reading may look at the parser first. -/
theorem current_bind {next : Parser → Parsing α} {outcome : Outcome Position α}
    (h : parser.Survives (next parser) outcome) : parser.Survives (current >>= next) outcome := h

/-- Readings that leave the parser as it was do so one after another. -/
theorem bind {parsing : Parsing α} {outcome : Outcome Position α} {next : α → Parsing β}
    {next' : α → Outcome Position β} (h : parser.Survives parsing outcome)
    (hn : ∀ a, parser.Survives (next a) (next' a)) :
    parser.Survives (parsing >>= next) (outcome >>= next') := by
  intro seen
  obtain ⟨states, hrun, hstates⟩ := h seen
  cases outcome with
  | error fault => exact ⟨states, run_bind_error hrun next, hstates⟩
  | ok a =>
    obtain ⟨more, hnext, hmore⟩ := hn a (states ++ seen)
    refine ⟨more ++ states, ?_, List.forall_mem_append.2 ⟨hmore, hstates⟩⟩
    rw [run_bind_ok hrun next, hnext, List.append_assoc]
    rfl

/-- A list of readings leaves the parser as it was if each of them does. -/
theorem mapM {read : γ → Parsing α} {read' : γ → Outcome Position α}
    (h : ∀ item, parser.Survives (read item) (read' item)) (items : List γ) :
    parser.Survives (items.mapM read) (items.mapM read') := by
  induction items with
  | nil => exact .pure []
  | cons item items ih =>
    rw [List.mapM_cons, List.mapM_cons]
    exact (h item).bind fun a => ih.bind fun more => .pure (a :: more)

/-- A run of readings leaves the parser as it was if each of its steps does. -/
theorem foldlM {step : α → γ → Parsing α} {step' : α → γ → Outcome Position α}
    (h : ∀ a item, parser.Survives (step a item) (step' a item)) (items : List γ) (a : α) :
    parser.Survives (items.foldlM step a) (items.foldlM step' a) := by
  induction items generalizing a with
  | nil => exact .pure a
  | cons item items ih =>
    rw [List.foldlM_cons, List.foldlM_cons]
    exact (h a item).bind ih

/-- At the limit, no level is entered. -/
theorem refused (h : parser.limit ≤ parser.depth) (place : Position) (parsing : Parsing α) :
    parser.Survives (nested place parsing) (.error ⟨.nestingTooDeep parser.limit, place⟩) :=
  fun _ => ⟨[], if_pos h, List.forall_mem_nil _⟩

/-- Below the limit, a level is entered and left again, whatever the reading inside comes to. -/
theorem nested {parsing : Parsing α} {outcome : Outcome Position α}
    (h : parser.depth < parser.limit) (place : Position)
    (hinner : parser.deeper.Survives parsing outcome) :
    parser.Survives (Parser.nested place parsing) outcome := by
  intro seen
  obtain ⟨states, hrun, hstates⟩ := hinner (parser.deeper :: seen)
  have hin : parser.Within parser.deeper := ⟨rfl, rfl, h⟩
  have hout : parser.Within parser := ⟨rfl, rfl, Nat.le_of_lt h⟩
  refine ⟨parser :: (states ++ [parser.deeper]), ?_, ?_⟩
  · have hnested : Parser.nested place parsing ⟨parser, seen⟩ =
        Prod.map id Trace.leave <$> run parsing ⟨parser.deeper, parser.deeper :: seen⟩ :=
      if_neg (Nat.not_le.2 h)
    show Parser.nested place parsing ⟨parser, seen⟩ = _
    rw [hnested, hrun, List.cons_append, List.append_assoc]
    rfl
  · refine List.forall_mem_cons.2 ⟨hout, List.forall_mem_append.2 ⟨fun state hs => ?_, ?_⟩⟩
    · exact ⟨(hstates state hs).file, (hstates state hs).limit, (hstates state hs).depth⟩
    · exact List.forall_mem_singleton.2 hin

/-- Readings that each leave the parser as it was come to the same one after another as alone. -/
theorem attempts {read : γ → Parsing α} {read' : γ → Outcome Position α}
    (h : ∀ item, parser.Survives (read item) (read' item)) (items : List γ) (seen : List Parser) :
    ∃ after, (Parser.attempts read items).run ⟨parser, seen⟩ =
      some (items.map read', ⟨parser, after⟩) := by
  induction items generalizing seen with
  | nil => exact ⟨seen, rfl⟩
  | cons item items ih =>
    obtain ⟨states, hrun, -⟩ := h item seen
    obtain ⟨after, hitems⟩ := ih (states ++ seen)
    refine ⟨after, ?_⟩
    unfold Parser.attempts at hitems ⊢
    rw [List.mapM_cons, StateT.run_bind, show StateT.run _ _ = _ from hrun, Option.bind_eq_bind,
      Option.bind_some, StateT.run_bind, hitems]
    rfl

end Survives

end Parser

end LetWhile
