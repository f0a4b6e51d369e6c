import Mathlib.Data.List.Basic

/-! # Marks of keys in a log

An entry of a log may mark a key, clear the mark of a key, and move marks from
one key to another. Whether a key is marked after a log can be read off the log
from its end: there is an entry that marked the key under the name it had then,
and none of the later entries has cleared the mark. What the state of a machine
says about its keys is of this form if each of its steps is.
-/

namespace Frame

structure Marking (Entry Key : Type) where
  marks : Entry → Key → Prop
  clears : Entry → Key → Prop
  /-- The key at which the mark of a key stood before the entry. -/
  source : Entry → Key → Key

namespace Marking

variable {Entry Key : Type} (marking : Marking Entry Key)

/-- The key at which the mark of a key stood before the entries. -/
def trace (entries : List Entry) (key : Key) : Key :=
  entries.foldr marking.source key

/-- None of the entries clears the mark of the key on its way. -/
def Keeps : List Entry → Key → Prop
  | [], _ => True
  | entry :: after, key => ¬ marking.clears entry (marking.trace after key) ∧ Keeps after key

/-- One of the entries marks the key, and the later ones keep the mark. -/
def Granted (entries : List Entry) (key : Key) : Prop :=
  ∃ before entry after, entries = before ++ entry :: after ∧
    marking.marks entry (marking.trace after key) ∧ marking.Keeps after key

theorem trace_cons (entry : Entry) (after : List Entry) (key : Key) :
    marking.trace (entry :: after) key = marking.source entry (marking.trace after key) :=
  rfl

theorem not_granted_nil (key : Key) : ¬ marking.Granted [] key := by
  rintro ⟨before, entry, after, hsplit, -⟩
  exact List.append_ne_nil_of_right_ne_nil before (List.cons_ne_nil entry after) hsplit.symm

theorem granted_cons_iff (entry : Entry) (after : List Entry) (key : Key) :
    marking.Granted (entry :: after) key ↔
      marking.marks entry (marking.trace after key) ∧ marking.Keeps after key ∨
        marking.Granted after key := by
  constructor
  · rintro ⟨before, other, rest, hsplit, hmarks, hkeeps⟩
    cases before with
    | nil =>
        obtain ⟨rfl, rfl⟩ := List.cons.inj hsplit
        exact Or.inl ⟨hmarks, hkeeps⟩
    | cons first before =>
        exact Or.inr ⟨before, other, rest, (List.cons.inj hsplit).2, hmarks, hkeeps⟩
  · rintro (⟨hmarks, hkeeps⟩ | ⟨before, other, rest, rfl, hmarks, hkeeps⟩)
    · exact ⟨[], entry, after, rfl, hmarks, hkeeps⟩
    · exact ⟨entry :: before, other, rest, rfl, hmarks, hkeeps⟩

/-- A property of keys that every step marks, clears and moves holds after a log
if it was granted there, or if it held before and has been kept. -/
theorem holds_foldl_iff {State : Type} {evolve : State → Entry → State}
    (holds : State → Key → Prop)
    (hstep : ∀ state entry key, holds (evolve state entry) key ↔
      marking.marks entry key ∨
        ¬ marking.clears entry key ∧ holds state (marking.source entry key))
    (state : State) (entries : List Entry) (key : Key) :
    holds (entries.foldl evolve state) key ↔
      marking.Granted entries key ∨
        marking.Keeps entries key ∧ holds state (marking.trace entries key) := by
  induction entries generalizing state with
  | nil => simp [marking.not_granted_nil, Keeps, trace]
  | cons entry after ih =>
      rw [List.foldl_cons, ih, hstep, granted_cons_iff, Keeps, trace_cons]
      tauto

end Marking

end Frame
