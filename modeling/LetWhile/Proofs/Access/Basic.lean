import LetWhile.Fault.Basic
import LetWhile.Text.Utf8

/-!
# Accesses by index

Elements and slices can be accessed by index, and an index can be out of range. `Indexed` is the
type of computations that make such accesses, and stop short at one that is out of range. A
computation of this kind gives an outcome if all its accesses are in range and it comes to that
outcome (`Indexed.Gives`). The stages from scanning to checking are given in this form here, with an
index wherever a part of a text, a slice or a stack is taken, and each of them is proved to give what
the stage itself does.
-/

namespace LetWhile

/-- A computation that yields a result, finds a fault or, as `none`, goes out of range. -/
abbrev Indexed (P α : Type) := ExceptT (Fault P) Option α

namespace Indexed
variable {P α β γ : Type}

/-! ## Accesses -/

/-- The element at an index. -/
def element (items : List α) (index : Nat) : Option α := items[index]?

/-- The elements from an index on. -/
def sliceFrom (items : List α) (start : Nat) : Option (List α) :=
  if start ≤ items.length then some (items.drop start) else none

/-- The elements before an index. -/
def sliceTo (items : List α) (stop : Nat) : Option (List α) :=
  if stop ≤ items.length then some (items.take stop) else none

/-- The elements between two indices. -/
def slice (items : List α) (start stop : Nat) : Option (List α) :=
  (sliceTo items stop).bind (sliceFrom · start)

/-- A difference that must not be negative. -/
def difference (m n : Nat) : Option Nat := if n ≤ m then some (m - n) else none

/-- The element at the last index. -/
def lastElement (items : List α) : Option α :=
  (difference items.length 1).bind (element items)

/-- A text cut at a byte offset, which must be at the front of a character or at the end. -/
def cutText (offset : Nat) : List Char → Option (List Char × List Char)
  | [] => if offset = 0 then some ([], []) else none
  | c :: cs =>
    if offset = 0 then some ([], c :: cs)
    else if c.utf8Size ≤ offset then
      (cutText (offset - c.utf8Size) cs).map fun (front, back) => (c :: front, back)
    else none

/-- The text from a byte offset on. -/
def textFrom (cs : List Char) (start : Nat) : Option (List Char) :=
  (cutText start cs).map Prod.snd

/-- The text before a byte offset. -/
def textTo (cs : List Char) (stop : Nat) : Option (List Char) := (cutText stop cs).map Prod.fst

/-- An offset inside a character is out of range. -/
example : textFrom ['é'] 1 = none := rfl

/-- The element behind a front is in range at the length of the front. -/
@[simp]
theorem element_append (l m : List α) (a : α) : element (l ++ a :: m) l.length = some a := by
  simp [element]

/-- The slice behind a front begins at the length of the front. -/
@[simp]
theorem sliceFrom_append (l m : List α) : sliceFrom (l ++ m) l.length = some m := by
  simp [sliceFrom]

/-- The slice up to the length of a front is the front. -/
@[simp]
theorem sliceTo_append (l m : List α) : sliceTo (l ++ m) l.length = some l := by
  simp [sliceTo]

/-- The elements between the ends of a run of neighbours are that run. -/
theorem slice_append (l m r : List α) :
    slice (l ++ m ++ r) l.length (l ++ m).length = some m := by
  rw [slice, sliceTo_append, Option.bind_some, sliceFrom_append]

/-- A smaller number can be taken from a larger one. -/
theorem difference_of_le {m n : Nat} (h : n ≤ m) : difference m n = some (m - n) := if_pos h

/-- What was added can be taken away again. -/
theorem difference_add_right (m n : Nat) : difference (m + n) n = some m := by
  rw [difference_of_le (Nat.le_add_left n m), Nat.add_sub_cancel]

/-- A list with an element at its end has a last element. -/
theorem lastElement_append (l : List α) (a : α) : lastElement (l ++ [a]) = some a := by
  rw [lastElement, List.length_append, List.length_singleton, difference_add_right,
    Option.bind_some]
  exact element_append l [] a

/-- A text can be cut at the size of its front. -/
theorem cutText_append (cs ds : List Char) :
    cutText (Text.utf8Size cs) (cs ++ ds) = some (cs, ds) := by
  induction cs with
  | nil => cases ds <;> rfl
  | cons c cs ih =>
    have hne : c.utf8Size + Text.utf8Size cs ≠ 0 := by
      have := c.utf8Size_pos
      omega
    rw [List.cons_append, Text.utf8Size_cons, cutText, if_neg hne, if_pos (Nat.le_add_right _ _),
      Nat.add_sub_cancel_left, ih]
    rfl

/-- What is behind a front begins at the size of the front. -/
theorem textFrom_append (cs ds : List Char) :
    textFrom (cs ++ ds) (Text.utf8Size cs) = some ds := by
  rw [textFrom, cutText_append, Option.map_some]

/-- What is in front of the size of a front is the front. -/
theorem textTo_append (cs ds : List Char) : textTo (cs ++ ds) (Text.utf8Size cs) = some cs := by
  rw [textTo, cutText_append, Option.map_some]

/-! ## Computations that stay in range -/

/-- A computation stays in range and comes to an outcome. -/
def Gives (indexed : Indexed P α) (outcome : Outcome P α) : Prop := indexed.run = some outcome

/-- A value is in range. -/
theorem Gives.pure (a : α) : Gives (P := P) (pure a) (.ok a) := rfl

/-- A fault is in range. -/
theorem Gives.throw (fault : Fault P) : Gives (α := α) (throw fault) (.error fault) := rfl

/-- An outcome that is computed without indices. -/
def ofOutcome (outcome : Outcome P α) : Indexed P α := ExceptT.mk (some outcome)

/-- What comes to an outcome without any access is in range. -/
theorem Gives.ofOutcome (outcome : Outcome P α) : Gives (ofOutcome outcome) outcome := rfl

/-- After a fault nothing goes out of range. -/
theorem Gives.bind_error {indexed : Indexed P α} {fault : Fault P} {next : α → Indexed P β}
    (h : indexed.Gives (.error fault)) : Gives (indexed >>= next) (.error fault) := by
  unfold Gives at h ⊢
  rw [ExceptT.run_bind, h]
  rfl

/-- After a value, what is next must stay in range for that value. -/
theorem Gives.bind_ok {indexed : Indexed P α} {a : α} {next : α → Indexed P β}
    {outcome : Outcome P β} (h : indexed.Gives (.ok a)) (hn : (next a).Gives outcome) :
    Gives (indexed >>= next) outcome := by
  unfold Gives at h ⊢
  rw [ExceptT.run_bind, h]
  exact hn

/-- Stages that stay in range do so one after another, the second given what the first comes to. -/
theorem Gives.bind {indexed : Indexed P α} {outcome : Outcome P α} {next : α → Indexed P β}
    {next' : α → Outcome P β} (h : indexed.Gives outcome)
    (hn : ∀ a, outcome = .ok a → (next a).Gives (next' a)) :
    Gives (indexed >>= next) (outcome >>= next') := by
  cases outcome with
  | error fault => exact h.bind_error
  | ok a => exact h.bind_ok (hn a rfl)

/-- A computation that begins with one whose result is another form of the expected one. -/
theorem Gives.bind_map {indexed : Indexed P α} {form : γ → α} {outcome : Outcome P γ}
    {next : α → Indexed P β} {next' : γ → Outcome P β} (h : indexed.Gives (outcome.map form))
    (hn : ∀ c, outcome = .ok c → (next (form c)).Gives (next' c)) :
    Gives (indexed >>= next) (outcome >>= next') := by
  cases outcome with
  | error fault => exact h.bind_error
  | ok c => exact h.bind_ok (hn c rfl)

/-- An access, which must be in range. -/
def access (found : Option α) : Indexed P α := ExceptT.lift found

/-- An access that finds something is in range. -/
theorem Gives.access {found : Option α} {a : α} (h : found = some a) :
    Gives (P := P) (access found) (.ok a) := by
  subst h
  rfl

/-- A computation that begins with an access in range. -/
theorem Gives.access_bind {found : Option α} {a : α} {next : α → Indexed P β}
    {outcome : Outcome P β} (h : found = some a) (hn : (next a).Gives outcome) :
    Gives (Indexed.access found >>= next) outcome :=
  (Gives.access h).bind_ok hn

/-- A list is read in range if each of its items is. -/
theorem Gives.mapM {read : γ → Indexed P α} {read' : γ → Outcome P α} {items : List γ}
    (h : ∀ item ∈ items, (read item).Gives (read' item)) :
    Gives (items.mapM read) (items.mapM read') := by
  induction items with
  | nil => exact .pure []
  | cons item items ih =>
    obtain ⟨hitem, hitems⟩ := List.forall_mem_cons.1 h
    rw [List.mapM_cons, List.mapM_cons]
    exact hitem.bind fun a _ => (ih hitems).bind fun more _ => .pure (a :: more)

end Indexed

end LetWhile
