import Mathlib.Data.List.Count
import Mockinx.Lib.Run

/-!
A pool of slots and its users. A user takes a slot once, when one is free, and gives it back once.
The moves are all that a system with such a pool may do; the account of slots and the history of
each user follow from them.
-/

set_option autoImplicit false
set_option relaxedAutoImplicit false

namespace Mockinx.Lib

inductive SlotEvent where
  | took
  | gave
  deriving DecidableEq

inductive Stage where
  | idle
  | holding
  | done
  deriving DecidableEq

/-- What a user has done with the pool so far. -/
def Stage.history : Stage → List SlotEvent
  | .idle => []
  | .holding => [.took]
  | .done => [.took, .gave]

structure Slots where
  free : ℕ
  stages : List Stage

namespace Slots

open Run

inductive Move : Slots → Option (ℕ × SlotEvent) → Slots → Prop
  | stay (p : Slots) : Move p none p
  | enter (p : Slots) : Move p none { p with stages := p.stages ++ [.idle] }
  | take {p : Slots} {i : ℕ} (hidle : p.stages[i]? = some .idle) (hfree : 0 < p.free) :
      Move p (some (i, .took)) { free := p.free - 1, stages := p.stages.set i .holding }
  | enterHolding {p : Slots} (hfree : 0 < p.free) : Move p (some (p.stages.length, .took))
      { free := p.free - 1, stages := p.stages ++ [.holding] }
  | give {p : Slots} {i : ℕ} (hholding : p.stages[i]? = some .holding) :
      Move p (some (i, .gave)) { free := p.free + 1, stages := p.stages.set i .done }

def held (p : Slots) : ℕ := p.stages.countP fun stage => stage = .holding

def stageOf (p : Slots) (i : ℕ) : Stage := (p.stages[i]?).getD .idle

private theorem stageOf_set {p : Slots} {i : ℕ} {old : Stage} (h : p.stages[i]? = some old)
    (free : ℕ) (new : Stage) (j : ℕ) :
    stageOf { free, stages := p.stages.set i new } j = if i = j then new else p.stageOf j := by
  obtain ⟨hi, _⟩ := List.getElem?_eq_some_iff.mp h
  rw [stageOf, List.getElem?_set, if_pos hi]
  split_ifs <;> rfl

private theorem held_set {p : Slots} {i : ℕ} {old : Stage} (h : p.stages[i]? = some old) (free : ℕ)
    (new : Stage) :
    held { free, stages := p.stages.set i new } + (if old = .holding then 1 else 0) =
      p.held + if new = .holding then 1 else 0 := by
  obtain ⟨hi, rfl⟩ := List.getElem?_eq_some_iff.mp h
  have hle := List.boole_getElem_le_countP (p := fun stage : Stage => stage = .holding) hi
  rw [held, List.countP_set hi, held]
  simp only [decide_eq_true_eq] at hle ⊢
  omega

/-- Every slot is free or held, and the log tells the history of each user. -/
structure Accounted (total : ℕ) (p : Slots) (log : List (Option (ℕ × SlotEvent))) : Prop where
  slots : p.free + p.held = total
  history : ∀ i, outputsOf i log = (p.stageOf i).history

private theorem Accounted.quiet {total : ℕ} {p : Slots} {log : List (Option (ℕ × SlotEvent))}
    (h : Accounted total p log) : Accounted total p (log ++ [none]) :=
  ⟨h.slots, fun i => (outputsOf_none i log).trans (h.history i)⟩

private theorem Accounted.enter {total : ℕ} {p : Slots} {log : List (Option (ℕ × SlotEvent))}
    (h : Accounted total p log) :
    Accounted total { p with stages := p.stages ++ [.idle] } log := by
  refine ⟨?_, fun i => (h.history i).trans (congrArg Stage.history ?_)⟩
  · rw [held, List.countP_append]
    exact h.slots
  · rw [stageOf, stageOf, List.getElem?_append]
    split_ifs with hi
    · rfl
    · rw [List.getElem?_eq_none (Nat.le_of_not_lt hi)]
      cases i - p.stages.length <;> rfl

private theorem Accounted.change {total : ℕ} {p : Slots} {log : List (Option (ℕ × SlotEvent))}
    {i : ℕ} {old new : Stage} {e : SlotEvent} {free : ℕ} (h : Accounted total p log)
    (hold : p.stages[i]? = some old) (hnew : new.history = old.history ++ [e])
    (hfree : free + (if new = .holding then 1 else 0) =
      p.free + if old = .holding then 1 else 0) :
    Accounted total { free, stages := p.stages.set i new } (log ++ [some (i, e)]) := by
  refine ⟨?_, fun j => ?_⟩
  · have hheld := held_set hold free new
    have hslots := h.slots
    dsimp only
    omega
  · have hstage : p.stageOf i = old := by rw [stageOf, hold, Option.getD_some]
    rw [outputsOf_some, h.history j, stageOf_set hold]
    split_ifs with hij
    · subst hij
      rw [hstage, hnew]
    · rw [List.append_nil]

theorem Accounted.move {total : ℕ} {p q : Slots} {log : List (Option (ℕ × SlotEvent))}
    {out : Option (ℕ × SlotEvent)} (h : Accounted total p log) (hmove : Move p out q) :
    Accounted total q (log ++ [out]) := by
  cases hmove with
  | stay => exact h.quiet
  | enter => exact h.enter.quiet
  | take hidle hfree => exact h.change hidle rfl (Nat.sub_add_cancel hfree)
  | enterHolding hfree =>
    have hlast : (p.stages ++ [Stage.idle])[p.stages.length]? = some .idle := by simp
    have htaken : Accounted total
        { free := p.free - 1, stages := (p.stages ++ [Stage.idle]).set p.stages.length .holding }
        (log ++ [some (p.stages.length, .took)]) :=
      h.enter.change hlast rfl (Nat.sub_add_cancel hfree)
    simpa using htaken
  | give hholding => exact h.change hholding rfl rfl

end Slots

end Mockinx.Lib
