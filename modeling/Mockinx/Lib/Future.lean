import Mathlib.Data.List.Basic

/-!
Asynchronous computations that are driven by polls, and a timeout around one. Each poll reads what
its environment holds at that moment; what the computation does without waiting happens within one
poll.
-/

set_option autoImplicit false
set_option relaxedAutoImplicit false

namespace Mockinx.Lib

universe u v w

inductive Future (ε : Type u) (α : Type v) where
  | done (a : α)
  | waits (resume : ε → Future ε α)

namespace Future

variable {ε : Type u} {α : Type v} {β : Type w}

def poll : Future ε α → ε → Future ε α
  | done a, _ => done a
  | waits resume, e => resume e

def map (f : α → β) : Future ε α → Future ε β
  | done a => done (f a)
  | waits resume => waits fun e => (resume e).map f

def call (body : ε → Future ε α) : Future ε α := waits body

/-- A timeout around a computation. Each poll polls the computation first, and only while that is
not done does it look whether the time is over. -/
def timeout (expired : ε → Bool) : Future ε α → Future ε (Option α)
  | done a => done (some a)
  | waits resume => waits fun e =>
    match resume e with
    | done a => done (some a)
    | waits _ => if expired e then done none else (resume e).timeout expired

/-- The result after a schedule of polls, if the computation is done by then. -/
def await : Future ε α → List ε → Option α
  | done a, _ => some a
  | waits _, [] => none
  | waits resume, e :: es => (resume e).await es

@[simp] theorem await_done (a : α) (es : List ε) : (done a : Future ε α).await es = some a := by
  cases es <;> rfl

@[simp] theorem await_call_nil (body : ε → Future ε α) : (call body).await [] = none := rfl

@[simp] theorem await_call_cons (body : ε → Future ε α) (e : ε) (es : List ε) :
    (call body).await (e :: es) = (body e).await es := rfl

theorem poll_timeout_call {body : ε → Future ε α} {e : ε} {a : α} (h : body e = done a)
    (expired : ε → Bool) : ((call body).timeout expired).poll e = done (some a) := by
  rw [call, timeout, poll, h]

end Future

end Mockinx.Lib
