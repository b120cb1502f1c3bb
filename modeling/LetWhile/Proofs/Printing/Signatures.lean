import LetWhile.Proofs.Printing.ReadBack
import LetWhile.Proofs.Program.Level
import LetWhile.Proofs.Scanning.Words
import LetWhile.Proofs.Tree.Depth
import Mathlib.Control.Monad.Basic

/-!
# Types in parentheses

A type may be written with any number of parentheses around it and around its parts (`Signature`).
They are levels of their own to the reader, which needs a limit of as many levels as there are and no
more (`Signature.ofTrees_trees`). So every way to write a type is read as the type, and what is read
from anywhere in a source is read again from its shown form within the same limit
(`Source.type_signature`).
-/

namespace LetWhile

/-! ## Signatures -/

/-- A type as it may be written: its parts as they may be written, and any of it in parentheses. -/
inductive Signature
  | name (name : String)
  | function (params : List Signature) (result : Signature)
  | parens (inner : Signature)

namespace Signature

mutual

/-- The type that is written. -/
def type : Signature → Ty
  | name n => .name n
  | function params result => .function (types params) result.type
  | parens inner => inner.type

/-- The types that several signatures are for. -/
def types : List Signature → List Ty
  | [] => []
  | signature :: rest => signature.type :: types rest

end

mutual

/-- The text of a signature. -/
def text : Signature → String
  | name n => n
  | function params result => "(" ++ ", ".intercalate (texts params) ++ ") -> " ++ result.text
  | parens inner => "(" ++ inner.text ++ ")"

/-- The texts of several signatures. -/
def texts : List Signature → List String
  | [] => []
  | signature :: rest => signature.text :: texts rest

end

mutual

/-- The trees of a signature. -/
def trees : Signature → List (Tree Unit)
  | name n => [.placeless .typeName n]
  | function params result =>
    .within .paren (Tree.commas (allTrees params)) :: .placeless .arrow "->" :: result.trees
  | parens inner => [.within .paren inner.trees]

/-- The trees of each of several signatures. -/
def allTrees : List Signature → List (List (Tree Unit))
  | [] => []
  | signature :: rest => signature.trees :: allTrees rest

end

mutual

/-- The level of a signature, of which parentheses are a part. -/
def level : Signature → Nat
  | name _ => 1
  | function params result => 1 + max (maxLevel params) result.level
  | parens inner => 1 + inner.level

/-- The largest level of several signatures. -/
def maxLevel : List Signature → Nat
  | [] => 0
  | signature :: rest => max signature.level (maxLevel rest)

end

/-- A signature is at least one level high. -/
theorem level_pos (signature : Signature) : 0 < signature.level := by
  cases signature <;> simp [level]

end Signature

mutual

/-- A type as it is shown, in no parentheses but those of parameter lists. -/
def Ty.shown : Ty → Signature
  | .name n => .name n
  | .function params result => .function (Ty.allShown params) result.shown

/-- Several types as they are shown. -/
def Ty.allShown : List Ty → List Signature
  | [] => []
  | type :: rest => type.shown :: Ty.allShown rest

end

namespace Signature

mutual

/-- The shown form of a type is a signature of that type. -/
theorem type_shown : ∀ type : Ty, type.shown.type = type
  | .name _ => rfl
  | .function params result => congrArg₂ Ty.function (types_allShown params) (type_shown result)

/-- The shown forms of types are signatures of these types. -/
theorem types_allShown : ∀ types : List Ty, Signature.types (Ty.allShown types) = types
  | [] => rfl
  | type :: rest => congrArg₂ List.cons (type_shown type) (types_allShown rest)

end

mutual

/-- The shown form of a type has its text. -/
theorem text_shown : ∀ type : Ty, type.shown.text = type.text
  | .name _ => rfl
  | .function params result => by
    rw [Ty.shown, text, Ty.text, texts_allShown params, text_shown result]

/-- The shown forms of types have their texts. -/
theorem texts_allShown : ∀ types : List Ty, texts (Ty.allShown types) = Ty.texts types
  | [] => rfl
  | type :: rest => congrArg₂ List.cons (text_shown type) (texts_allShown rest)

end

mutual

/-- The shown form of a type has its level. -/
theorem level_shown : ∀ type : Ty, type.shown.level = type.level
  | .name _ => rfl
  | .function params result => by
    rw [Ty.shown, level, Ty.level, maxLevel_allShown params, level_shown result]

/-- The shown forms of types have their largest level. -/
theorem maxLevel_allShown : ∀ types : List Ty, maxLevel (Ty.allShown types) = Ty.maxLevel types
  | [] => rfl
  | type :: rest => congrArg₂ max (level_shown type) (maxLevel_allShown rest)

end

/-! ## Trees -/

mutual

/-- What is written of a signature forms its trees. -/
theorem forms : ∀ {signature : Signature}, signature.type.WellFormed →
    Forms signature.text.toList signature.trees
  | .name _, h => .leaf (.typeName h) trivial
  | .function _ _, h => .arrow (forms_all h.1) (forms h.2)
  | .parens inner, h => by
    have hinner : inner.type.WellFormed := h
    exact (FormsOpen.parenthesised (forms hinner)).forms

/-- Each of several signatures of well-formed types forms its trees. -/
theorem forms_all : ∀ {signatures : List Signature}, Ty.AllWellFormed (types signatures) →
    List.Forall₂ (fun text part => Forms text.toList part) (texts signatures) (allTrees signatures)
  | [], _ => .nil
  | _ :: _, h => .cons (forms h.1) (forms_all h.2)

end

/-- A signature has trees. -/
theorem trees_ne_nil (signature : Signature) : signature.trees ≠ [] := by
  cases signature <;> simp [trees]

/-- Nothing is cut at the trees of a signature. -/
theorem inner : ∀ (signature : Signature), ∀ tree ∈ signature.trees, tree.Inner
  | .name _ => List.forall_mem_singleton.2 ⟨rfl, rfl, rfl, fun _ => rfl⟩
  | .function _ result => List.forall_mem_cons.2 ⟨.within _ _,
      List.forall_mem_cons.2 ⟨⟨rfl, rfl, rfl, fun _ => rfl⟩, result.inner⟩⟩
  | .parens _ => List.forall_mem_singleton.2 (.within _ _)

/-- Nothing is cut at the trees of signatures, and each has some. -/
theorem allTrees_inner (signatures : List Signature) :
    ∀ part ∈ allTrees signatures, part ≠ [] ∧ ∀ tree ∈ part, tree.Inner := by
  induction signatures with
  | nil => exact List.forall_mem_nil _
  | cons signature rest ih =>
    exact List.forall_mem_cons.2 ⟨⟨signature.trees_ne_nil, signature.inner⟩, ih⟩

end Signature

/-- Commas do not make trees deeper. -/
theorem Tree.maxDepth_commas_le {parts : List (List (Tree Unit))} {n : Nat}
    (h : ∀ part ∈ parts, Tree.maxDepth part ≤ n) : Tree.maxDepth (Tree.commas parts) ≤ n := by
  induction parts with
  | nil => exact Nat.zero_le n
  | cons part rest ih =>
    obtain ⟨hpart, hrest⟩ := List.forall_mem_cons.1 h
    cases rest with
    | nil => simpa [Tree.commas, List.intercalate] using hpart
    | cons next rest =>
      have htrees : Tree.commas (part :: next :: rest) =
          part ++ (.placeless .comma "," :: Tree.commas (next :: rest)) := by
        simp [Tree.commas, List.intercalate]
      rw [htrees, Tree.maxDepth_append, Tree.maxDepth]
      exact Nat.max_le.2 ⟨hpart, Nat.max_le.2 ⟨Nat.zero_le n, ih hrest⟩⟩

namespace Signature

mutual

/-- Groups are nested less deep than the levels of a signature. -/
theorem maxDepth_trees_le : ∀ (signature : Signature) {n : Nat}, signature.level ≤ n + 1 →
    Tree.maxDepth signature.trees ≤ n
  | .name _, n, _ => Nat.zero_le n
  | .function params result, n, h => by
    have hresult := result.level_pos
    rw [level] at h
    obtain ⟨m, rfl⟩ : ∃ m, n = m + 1 := ⟨n - 1, by omega⟩
    have hparams : Tree.maxDepth (Tree.commas (allTrees params)) ≤ m :=
      Tree.maxDepth_commas_le (maxDepth_allTrees_le params (by omega))
    have hrest : Tree.maxDepth result.trees ≤ m + 1 := maxDepth_trees_le result (by omega)
    rw [trees, Tree.maxDepth, Tree.maxDepth]
    exact Nat.max_le.2 ⟨Nat.succ_le_succ hparams, Nat.max_le.2 ⟨Nat.zero_le _, hrest⟩⟩
  | .parens inner, n, h => by
    have hpos := inner.level_pos
    rw [level] at h
    obtain ⟨m, rfl⟩ : ∃ m, n = m + 1 := ⟨n - 1, by omega⟩
    have hinner : Tree.maxDepth inner.trees ≤ m := maxDepth_trees_le inner (by omega)
    rw [trees, Tree.maxDepth]
    exact Nat.max_le.2 ⟨Nat.succ_le_succ hinner, Nat.zero_le _⟩

/-- The trees of signatures are at most as deep as the signatures are high, less one. -/
theorem maxDepth_allTrees_le : ∀ (signatures : List Signature) {n : Nat},
    maxLevel signatures ≤ n + 1 → ∀ part ∈ allTrees signatures, Tree.maxDepth part ≤ n
  | [], _, _ => List.forall_mem_nil _
  | signature :: rest, n, h => by
    obtain ⟨hsignature, hrest⟩ := Nat.max_le.1 h
    exact List.forall_mem_cons.2
      ⟨maxDepth_trees_le signature hsignature, maxDepth_allTrees_le rest hrest⟩

end

-- The recursion is on the signature and each of its levels takes one unit of the budget, as in the
-- reader.
mutual

/-- The trees of a signature are read as its type, within a budget of its level. -/
theorem ofTrees_trees (limit : Nat) : ∀ (signature : Signature) {budget : Nat},
    signature.level ≤ budget → ∀ origin, Ty.ofTrees limit budget origin signature.trees =
      .ok signature.type
  | signature, 0, h, _ => absurd signature.level_pos (by omega)
  | .name n, budget + 1, _, origin => rfl
  | .function params result, budget + 1, h, origin => by
    rw [level] at h
    obtain ⟨tree, rest, htrees⟩ := List.exists_cons_of_ne_nil result.trees_ne_nil
    have hlevels : maxLevel params ≤ budget ∧ result.level ≤ budget := by omega
    have hresult := ofTrees_trees limit result hlevels.2
    rw [htrees] at hresult
    rw [trees, htrees, Tree.within, Ty.ofTrees, Tree.commaParts_commas (allTrees_inner params),
      ofTrees_allTrees limit params hlevels.1, hresult]
    rfl
  | .parens inner, budget + 1, h, origin => by
    rw [level] at h
    exact ofTrees_trees limit inner (by omega) ()

/-- The trees of signatures are read as their types, one by one. -/
theorem ofTrees_allTrees (limit : Nat) : ∀ (signatures : List Signature) {budget : Nat},
    maxLevel signatures ≤ budget → ∀ origin,
      (allTrees signatures).mapM (Ty.ofTrees limit budget origin) = .ok (types signatures)
  | [], _, _, _ => rfl
  | signature :: rest, budget, h, origin => by
    obtain ⟨hsignature, hrest⟩ := Nat.max_le.1 h
    rw [allTrees, List.mapM_cons, ofTrees_trees limit signature hsignature origin,
      ofTrees_allTrees limit rest hrest origin]
    rfl

end

end Signature

/-! ## Sources -/

/-- A type has no places, so a source spells the type that its tokens spell without theirs. -/
theorem Source.type_of_placeless {source : Source} {found : List (Token Position)}
    (h : source.tokens = .ok found) {limit : Nat} {type : Ty}
    (htype : (nest limit () (found.map (Token.map nowhere)) >>= fun region =>
      Ty.ofTrees limit limit () region.trees) = .ok type) (origin : Position) :
    source.type limit origin = .ok type := by
  have hrelocate : (nest limit origin found >>= fun region =>
      Ty.ofTrees limit limit origin region.trees).relocate nowhere id = .ok type :=
    (Outcome.relocate_bind (nest_relocate nowhere limit origin found) fun region =>
      Ty.ofTrees_relocate nowhere limit limit origin region.trees).trans htype
  obtain ⟨_, hread, rfl⟩ := Outcome.relocate_eq_ok.1 hrelocate
  rw [Source.type, Source.region, h]
  exact hread

/-- A signature is read from any file within a limit of its level. -/
theorem Source.type_text {signature : Signature} (h : signature.type.WellFormed) {limit : Nat}
    (hlimit : signature.level ≤ limit) (file : String) (origin : Position) :
    (Source.mk signature.text file).type limit origin = .ok signature.type := by
  obtain ⟨tokens, hwrites, hnests⟩ := Signature.forms h
  have hmarks := (nestsTo_of_nest (hnests.nest (Nat.le_refl _))).marks
  have hdepth : Tree.maxDepth signature.trees ≤ limit :=
    signature.maxDepth_trees_le (Nat.le_succ_of_le hlimit)
  let source : Source := ⟨signature.text, file⟩
  have hscans : Scans source.text.toList tokens := hwrites.scans
  obtain ⟨found, hfound, rfl⟩ := Source.tokens_of_scans hscans
  refine Source.type_of_placeless hfound ?_ origin
  rw [nest_of_marks hmarks hdepth]
  exact Signature.ofTrees_trees limit signature hlimit ()

mutual

/-- The names of a type that is drawn from the words of sources can be written. -/
theorem Ty.wellFormed_of_drawn : ∀ {type : Ty}, type.Drawn Kind.Admits → type.WellFormed
  | .name _, h => h
  | .function _ _, h => ⟨Ty.allWellFormed_of_drawn h.1, Ty.wellFormed_of_drawn h.2⟩

/-- Types that are drawn from type names are well formed. -/
theorem Ty.allWellFormed_of_drawn : ∀ {types : List Ty}, Ty.AllDrawn Kind.Admits types →
    Ty.AllWellFormed types
  | [], _ => trivial
  | _ :: _, h => ⟨Ty.wellFormed_of_drawn h.1, Ty.allWellFormed_of_drawn h.2⟩

end

/-- What is read as a type from a slice of a source can be written, within the levels that reading
had left. -/
theorem Source.type_of_slice {source : Source} {limit : Nat} {origin : Position}
    {region : Region Position} (h : source.region limit origin = .ok region)
    {part : List (Tree Position)} (hpart : Tree.Slice part region.trees) {total budget : Nat}
    {pos : Position} {type : Ty} (htype : Ty.ofTrees total budget pos part = .ok type) :
    type.WellFormed ∧ type.level ≤ budget := by
  obtain ⟨tokens, htokens, hnest⟩ := Outcome.bind_eq_ok.1 h
  have hholds := hpart.holds (Tree.holds_of_nest hnest (Source.tokens_admitted htokens))
  exact ⟨Ty.wellFormed_of_drawn (Ty.ofTrees_drawn total budget pos part hholds type htype),
    Ty.ofTrees_level total budget pos part type htype⟩

/-- Types are read back. A type in any number of parentheses, around it or around its parameters and
results at any depth, is read from its text in any file as that type, within every limit that its
levels fit in; and without added parentheses its text is what is shown. What is read from a slice of a
source is read again from the shown text, within the budget that it was read with. -/
theorem Source.type_signature :
    (∀ signature : Signature, signature.type.WellFormed → ∀ limit, signature.level ≤ limit →
      ∀ file origin, (Source.mk signature.text file).type limit origin = .ok signature.type) ∧
    (∀ type : Ty, type.shown.type = type ∧ type.shown.text = type.text) ∧
    ∀ (source : Source) (limit : Nat) (origin : Position) (region : Region Position),
      source.region limit origin = .ok region → ∀ part, Tree.Slice part region.trees →
        ∀ total budget pos type, Ty.ofTrees total budget pos part = .ok type →
          ∀ more, budget ≤ more → ∀ file start,
            (Source.mk type.text file).type more start = .ok type := by
  refine ⟨fun signature h limit hlimit => Source.type_text h hlimit,
    fun type => ⟨Signature.type_shown type, Signature.text_shown type⟩, ?_⟩
  intro source limit origin region hregion part hpart total budget pos type htype more hmore file
    start
  obtain ⟨hwellFormed, hlevel⟩ := type_of_slice hregion hpart htype
  rw [← Signature.type_shown type] at hwellFormed
  have hshown : type.shown.level ≤ more := by
    rw [Signature.level_shown]
    exact Nat.le_trans hlevel hmore
  have hread := type_text hwellFormed hshown file start
  rwa [Signature.type_shown, Signature.text_shown] at hread

/-- A type with parentheses around two parameters and around its result. -/
def Signature.padded : Signature :=
  .function [.parens (.parens (.name "Int")), .parens (.function [.name "Int"] (.name "Bool"))]
    (.parens (.function [] (.parens (.name "Int"))))

/-- The type of a declaration, from the colon to the equals sign. -/
theorem Source.type_signature_padded :
    let type : Ty := .function [.name "Int", .function [.name "Int"] (.name "Bool")]
      (.function [] (.name "Int"))
    let written : Source := ⟨"(((Int)), ((Int) -> Bool)) -> (() -> (Int))", "demo.let"⟩
    let shown : Source := ⟨"(Int, (Int) -> Bool) -> () -> Int", "demo.let"⟩
    let source : Source := ⟨"let f: " ++ written.text ++ " = g;", "demo.let"⟩
    written.type 5 (written.place 0) = .ok type ∧ ∃ region,
      source.region 256 (source.place 0) = .ok region ∧
      Ty.ofTrees 256 5 (source.place 0) ((region.trees.drop 3).take 3) = .ok type ∧
      shown.type 5 (shown.place 0) = .ok type := by
  intro type written shown source
  have hint : IsWord Char.isUpper "Int" := by decide
  have hbool : IsWord Char.isUpper "Bool" := by decide
  have hwellFormed : Signature.padded.type.WellFormed :=
    ⟨⟨hint, ⟨⟨hint, trivial⟩, hbool⟩, trivial⟩, trivial, hint⟩
  obtain ⟨hwritten, -, hslice⟩ := Source.type_signature
  refine ⟨hwritten Signature.padded hwellFormed 5 (by decide) "demo.let" _, ?_⟩
  have hfound : (source.region 256 (source.place 0)).map (fun region =>
      Ty.ofTrees 256 5 (source.place 0) ((region.trees.drop 3).take 3)) = .ok (.ok type) := by
    decide +kernel
  obtain ⟨region, hregion, htype⟩ := Outcome.map_eq_ok.1 hfound
  have hpart : Tree.Slice ((region.trees.drop 3).take 3) region.trees :=
    .here ((List.take_prefix 3 _).isInfix.trans (List.drop_suffix 3 _).isInfix)
  have hshown := hslice source 256 _ region hregion _ hpart 256 5 _ type htype 5 (Nat.le_refl 5)
    "demo.let" (shown.place 0)
  exact ⟨region, hregion, htype, hshown⟩

end LetWhile
