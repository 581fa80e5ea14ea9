import Mathlib.Logic.Function.Basic
import Mockinx.Rule

/-!
The priority-ordered list of registered rules. A rule entry and the objects created with it carry
where they were allocated, which is what tells apart two that hold the same data.
-/

set_option autoImplicit false
set_option relaxedAutoImplicit false

namespace Mockinx

open Lib

structure Origin (ι : Type) where
  handler : ι
  position : ℕ
  deriving DecidableEq

/-- A registered rule with its index for the runtime and the resource store. -/
structure RuleEntry (ι : Type) where
  rule : Rule
  index : ℕ
  origin : Origin ι

/-- A shared object, with the entry it was created for, if any. -/
structure Arc (ι α : Type) where
  value : α
  origin : Option (Origin ι)

/-- The calls of a sequence so far, by the peer's address. A count that overflows panics under the
lock of the counters, which stays poisoned. -/
structure ConnCounters (α : Type) where
  count : α → UInt64
  poisoned : Bool := false

/-- Count a call from an address, and return the number of calls before it. -/
def ConnCounters.nextCallFor {α : Type} [DecidableEq α] (o : OverflowChecks)
    (c : ConnCounters α) (addr : α) : ConnCounters α × Option UInt64 :=
  if c.poisoned then (c, none)
  else
    match o.succ (c.count addr) with
    | .ok next => ({ c with count := Function.update c.count addr next }, some (c.count addr))
    | .error _ => ({ c with poisoned := true }, none)

theorem ConnCounters.nextCallFor_of_lt {α : Type} [DecidableEq α] (o : OverflowChecks)
    {c : ConnCounters α} {addr : α} (hsound : c.poisoned = false)
    (hlt : (c.count addr).toNat + 1 < 2 ^ 64) :
    c.nextCallFor o addr =
      ({ c with count := Function.update c.count addr (c.count addr + 1) },
        some (c.count addr)) := by
  rw [nextCallFor, if_neg (by simp [hsound]), o.succ_of_lt hlt]

variable {ι : Type}

def RuleEntry.matches (e : RuleEntry ι) (method path : String) : Bool :=
  e.rule.matchRule.matches method path

/-- The best matching rule: the last added one that matches. -/
def matchRequest (entries : List (RuleEntry ι)) (method path : String) : Option (RuleEntry ι) :=
  entries.reverse.find? fun e => e.matches method path

/-- The rule sources, most recent first. -/
def listSources (entries : List (RuleEntry ι)) : List Value :=
  entries.reverse.map fun e => e.rule.source

theorem matchRequest_append (l₁ l₂ : List (RuleEntry ι)) (method path : String) :
    matchRequest (l₁ ++ l₂) method path =
      (matchRequest l₂ method path).or (matchRequest l₁ method path) := by
  simp [matchRequest]

theorem matchRequest_eq_none {entries : List (RuleEntry ι)} {method path : String} :
    matchRequest entries method path = none ↔ ∀ e ∈ entries, e.matches method path = false := by
  simp [matchRequest]

theorem mem_of_matchRequest {entries : List (RuleEntry ι)} {method path : String}
    {e : RuleEntry ι} (h : matchRequest entries method path = some e) : e ∈ entries :=
  List.mem_reverse.mp (List.mem_of_find?_eq_some h)

theorem matchRequest_spec (entries : List (RuleEntry ι)) (method path : String) :
    (matchRequest entries method path = none ∧ ∀ e ∈ entries, e.matches method path = false) ∨
      ∃ (i : ℕ) (e : RuleEntry ι), matchRequest entries method path = some e ∧
        entries[i]? = some e ∧ e.matches method path = true ∧
        ∀ (j : ℕ) (e' : RuleEntry ι), i < j → entries[j]? = some e' →
          e'.matches method path = false := by
  induction entries using List.reverseRecOn with
  | nil => exact Or.inl ⟨rfl, by simp⟩
  | append_singleton entries e ih =>
    rw [matchRequest_append]
    cases he : e.matches method path with
    | true =>
      refine Or.inr ⟨entries.length, e, by simp [matchRequest, he], by simp, he, ?_⟩
      intro j e' hj hget
      have := (List.getElem?_eq_some_iff.mp hget).1
      simp at this
      omega
    | false =>
      have hlast : matchRequest [e] method path = none := by simp [matchRequest, he]
      rw [hlast, Option.none_or]
      rcases ih with ⟨hnone, hall⟩ | ⟨i, e₀, hsome, hget, hmatch, hlater⟩
      · refine Or.inl ⟨hnone, fun e' hmem => ?_⟩
        rcases List.mem_append.mp hmem with hmem | hmem
        · exact hall e' hmem
        · rw [List.mem_singleton.mp hmem, he]
      · have hi := (List.getElem?_eq_some_iff.mp hget).1
        refine Or.inr ⟨i, e₀, hsome, by rw [List.getElem?_append_left hi, hget], hmatch, ?_⟩
        intro j e' hj hget'
        rw [List.getElem?_append] at hget'
        split_ifs at hget' with hlen
        · exact hlater j e' hj hget'
        · obtain rfl := List.mem_singleton.mp (List.mem_of_getElem? hget')
          exact he

end Mockinx
