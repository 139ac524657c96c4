import Mathlib.Data.List.Flatten

/-! A writer and a reader with a wire between them.  Each letter on the wire holds items.  The
reader takes the next letter when it has done the items of the last one, and it may give up, also in
the middle of a letter.  What it has done is at every time a prefix of what was written. -/

namespace Whisperv6.ProofKit

/-- `wire` are the letters that the reader has not taken, and `todo` the items of the last one that
it has not done. -/
@[ext] structure Conduit (L A : Type) where
  written : List L
  wire : List L
  todo : List A
  done : List A
  closed : Bool

namespace Conduit

variable {L A : Type} {items : L → List A} {c c' : Conduit L A}

/-- What may happen in one step, where `items` are the items of a letter. -/
inductive Move (items : L → List A) (c : Conduit L A) : Conduit L A → Prop
  | rest : Move items c c
  | write (xs : List L) : Move items c { c with written := c.written ++ xs, wire := c.wire ++ xs }
  | read (x : L) (wire : List L) (hwire : c.wire = x :: wire) (htodo : c.todo = [])
      (hopen : c.closed = false) : Move items c { c with wire, todo := items x }
  | work (a : A) (todo : List A) (htodo : c.todo = a :: todo) :
      Move items c { c with todo, done := c.done ++ [a] }
  | close (wire : List L) : Move items c { c with wire, todo := [], closed := true }
  | last (a : A) (todo : List A) (htodo : c.todo = a :: todo) :
      Move items c { c with todo := [], done := c.done ++ [a], closed := true }

/-- No item is lost, doubled or overtaken before the reader gives up. -/
structure InOrder (items : L → List A) (c : Conduit L A) : Prop where
  started : c.done ++ c.todo <+: c.written.flatMap items
  all : c.closed = false → c.done ++ c.todo ++ c.wire.flatMap items = c.written.flatMap items

theorem InOrder.move (h : c.InOrder items) (hmove : c.Move items c') : c'.InOrder items := by
  obtain ⟨hstarted, hall⟩ := h
  cases hmove with
  | rest => exact ⟨hstarted, hall⟩
  | write xs =>
    refine ⟨?_, fun hopen => ?_⟩
    · dsimp only
      rw [List.flatMap_append]
      exact hstarted.trans (List.prefix_append _ _)
    · dsimp only
      rw [List.flatMap_append, List.flatMap_append, ← hall hopen, ← List.append_assoc]
  | read x wire hwire htodo hopen =>
    have hwritten := hall hopen
    rw [hwire, htodo, List.append_nil, List.flatMap_cons, ← List.append_assoc] at hwritten
    exact ⟨⟨_, hwritten⟩, fun _ => hwritten⟩
  | work a todo htodo =>
    have happend : (c.done ++ [a]) ++ todo = c.done ++ c.todo := by rw [htodo]; simp
    refine ⟨?_, fun hopen => ?_⟩
    · dsimp only
      rw [happend]
      exact hstarted
    · dsimp only
      rw [happend]
      exact hall hopen
  | close wire =>
    refine ⟨?_, fun hopen => by cases hopen⟩
    dsimp only
    rw [List.append_nil]
    exact (List.prefix_append _ _).trans hstarted
  | last a todo htodo =>
    refine ⟨?_, fun hopen => by cases hopen⟩
    dsimp only
    rw [List.append_nil]
    rw [htodo, ← List.singleton_append, ← List.append_assoc] at hstarted
    exact (List.prefix_append _ _).trans hstarted

/-- The reader has done a first part of what was written. -/
theorem InOrder.done_prefix (h : c.InOrder items) : c.done <+: c.written.flatMap items :=
  (List.prefix_append _ _).trans h.started

/-- A reader that has not given up and has nothing left to read or to do has done everything. -/
theorem InOrder.done_eq (h : c.InOrder items) (hopen : c.closed = false) (hwire : c.wire = [])
    (htodo : c.todo = []) : c.done = c.written.flatMap items := by
  have hall := h.all hopen
  rw [hwire, htodo] at hall
  simpa using hall

end Conduit

end Whisperv6.ProofKit
