import Mockinx.Server.Isolation
import Mockinx.Server.Resource
import Mockinx.Server.SequenceCycle

/-!
A sequence as its clients see it. Each address is given the replies in their turn, whatever the
other addresses ask and whatever else the server is asked.
-/

set_option autoImplicit false
set_option relaxedAutoImplicit false

namespace Mockinx

open Lib Lib.Run Lib.Parts

variable {α : Type} [DecidableEq α]

def RuleState.counted (st : RuleState α) (addr : α) : RuleState α :=
  { st with calls :=
      { st.calls with count := Function.update st.calls.count addr (st.calls.count addr + 1) } }

namespace SequenceRule

/-- What the `k`-th request of an address is answered with. -/
def answerTo (r : SequenceRule) (x : External) (c : Call α) (k : ℕ) : Option Response :=
  (buildDeliveryResponse (x.withFiles c.files)
    (resolveReflect (x.withFiles c.files) (r.replyTo k) c.req) r.rule.delivery false c.out
    c.rng).toOption.map Prod.fst

/-- A sequence without limits and chaos. -/
structure Plain (r : SequenceRule) : Prop where
  behavior : r.rule.behavior = {}
  chaos : r.rule.chaos = none

variable {r : SequenceRule} {x : External} {o : OverflowChecks} {live : LiveRule α}

/-- The step lemma: a request is answered by the count of its address, which it increases. -/
private theorem Plain.serve (h : r.Plain) (hrule : live.rule = r.rule)
    (hsound : live.state.calls.poisoned = false) {c : Call α}
    (hlt : (live.state.calls.count c.addr).toNat + 1 < 2 ^ 64) :
    live.serve x o c = (⟨live.rule, live.state.counted c.addr⟩,
      r.answerTo x c (live.state.calls.count c.addr).toNat) := by
  have hget : r.replies[(live.state.calls.count c.addr).toNat % r.replies.length]? =
      some (r.replyTo (live.state.calls.count c.addr).toNat) :=
    List.getElem?_eq_getElem (Nat.mod_lt _ r.length_pos)
  have hresolve : Handling.resolveStrategy (x.withFiles c.files) o r.rule.reply c.addr c.req c.out
      (live.state, c.rng) = (some (some (r.replyTo (live.state.calls.count c.addr).toNat)),
        (live.state.counted c.addr, c.rng)) := by
    simp only [Handling.resolveStrategy, OptionT.mk, r.sequence]
    rw [ConnCounters.nextCallFor_of_lt o hsound hlt, Option.bind_some, hget]
    rfl
  have hroll : rollChaos r.rule.chaos c.rng = .ok ((none, none), c.rng) := by
    rw [h.chaos]
    rfl
  have hdeliver : Handling.handleMatched (x.withFiles c.files) o r.rule c.addr c.req c.out
      (live.state, c.rng) = (Handling.draw (buildDeliveryResponse (x.withFiles c.files)
        (resolveReflect (x.withFiles c.files) (r.replyTo (live.state.calls.count c.addr).toNat)
          c.req) r.rule.delivery false c.out) : Handling α Response)
        (live.state.counted c.addr, c.rng) := by
    rw [Handling.handleMatched, Handling.bind_apply, h.behavior, Handling.checkPolicies_unlimited]
    dsimp only
    rw [Handling.resolveAndDeliver, Handling.bind_apply, Handling.draw_apply, hroll]
    dsimp only
    rw [Handling.bind_apply, hresolve, h.behavior]
    rfl
  rw [LiveRule.serve, LiveRule.handle, hrule]
  refine (congrArg (fun done => ((⟨r.rule, done.2.1⟩ : LiveRule α), done.1)) hdeliver).trans ?_
  rw [Handling.draw_apply, answerTo]
  cases buildDeliveryResponse (x.withFiles c.files) _ r.rule.delivery false c.out c.rng <;> rfl

end SequenceRule

end Mockinx
