import Mockinx.Reply.CrudReads
import Mockinx.Server.Isolation

/-!
A resource as its clients see it. The requests that find its rule are operations on one store, in
the order in which they come, whatever else the server is asked in between.
-/

set_option autoImplicit false
set_option relaxedAutoImplicit false

namespace Mockinx

open Lib Lib.Run Lib.Parts Lib.Text

/-- A resource without limits, chaos and shaping. -/
structure Rule.PlainResource (spec : CrudSpec) (headers : Map) (rule : Rule) : Prop where
  reply : rule.reply = .crud spec headers
  behavior : rule.behavior = {}
  chaos : rule.chaos = none
  delivery : rule.delivery = {}

def valueBytes : Value → List UInt8
  | .string s => utf8 s
  | other => utf8 other.toString

/-- An answer of a resource as it is sent; an answer without content has no bytes. -/
def answerResponse (x : External) (headers : Map) (answer : CrudResponse) : Response :=
  buildResponse x (Handling.crudReply headers answer)
    (.full (if answer.2 = .null ∧ answer.1 = 204 then [] else valueBytes answer.2))

namespace Handling

private theorem build_crudReply (x : External) (headers : Map) (answer : CrudResponse)
    (req : Request) (permit : Bool) (out : Outside) (rng : Rng) :
    buildDeliveryResponse x (resolveReflect x (crudReply headers answer) req) {} permit out rng =
      .ok (answerResponse x headers answer, rng) := by
  have hreflect : resolveReflect x (crudReply headers answer) req = crudReply headers answer := by
    rw [resolveReflect, crudReply]
    split_ifs <;> rfl
  have hbytes : generateBody x (crudReply headers answer).body =
      .ok (if answer.2 = .null ∧ answer.1 = 204 then [] else valueBytes answer.2) := by
    rw [crudReply]
    split_ifs
    · rfl
    · cases answer.2 <;> rfl
  rw [hreflect, buildDeliveryResponse,
    sampler_bind_of_ok (liftPanic_ok.mpr ⟨hbytes, rfl⟩), if_pos rfl, buildReplyResponse, hbytes]
  rfl

theorem checkPolicies_unlimited {α : Type} (out : Outside) (st : RuleState α) (rng : Rng) :
    checkPolicies {} out (st, rng) = (some (.proceed false), (st, rng)) := by
  obtain ⟨_ | ⟨_ | _, _ | _⟩, crud, calls⟩ := st <;> rfl

end Handling

variable {α : Type} [DecidableEq α]

private theorem Rule.PlainResource.serve {spec : CrudSpec} {headers : Map} {live : LiveRule α}
    (h : live.rule.PlainResource spec headers) (x : External) (o : OverflowChecks)
    {store store' : CrudStore} (hstore : live.state.crud = some (.sound store)) {c : Call α}
    {answer : CrudResponse}
    (hstep : store.step o (crudRequestOp x c.req c.out.uuid) = some (store', answer)) :
    live.serve x o c =
      (⟨live.rule, { live.state with crud := some (.sound store') }⟩,
        some (answerResponse x headers answer)) := by
  have happ : (LockedStore.sound store).apply o (crudRequestOp x c.req c.out.uuid) =
      (.sound store', some answer) := by
    rw [LockedStore.apply_sound]
    rw [CrudStore.step] at hstep
    rcases happ : store.apply o (crudRequestOp x c.req c.out.uuid) with p | r <;> rw [happ] at hstep
    · cases hstep
    · rw [Option.some.inj hstep]
  have hresolve : Handling.resolveStrategy { x with readFile := c.files } o (.crud spec headers)
      c.addr c.req c.out (live.state, c.rng) =
        (some (some (Handling.crudReply headers answer)),
          ({ live.state with crud := some (.sound store') }, c.rng)) := by
    simp only [Handling.resolveStrategy, OptionT.mk, hstore]
    rw [show crudRequestOp { x with readFile := c.files } c.req c.out.uuid =
      crudRequestOp x c.req c.out.uuid from rfl, happ]
    rfl
  have hroll : rollChaos live.rule.chaos c.rng = .ok ((none, none), c.rng) := by
    rw [h.chaos]
    rfl
  have hdeliver : Handling.handleMatched { x with readFile := c.files } o live.rule c.addr c.req
      c.out (live.state, c.rng) = (some (answerResponse x headers answer),
        ({ live.state with crud := some (.sound store') }, c.rng)) := by
    rw [Handling.handleMatched, Handling.bind_apply, h.behavior, Handling.checkPolicies_unlimited]
    dsimp only
    rw [Handling.resolveAndDeliver, Handling.bind_apply, Handling.draw_apply, hroll]
    dsimp only
    rw [Handling.bind_apply, h.reply, hresolve]
    dsimp only
    rw [h.delivery, Handling.draw_apply, h.behavior]
    have hbuild := Handling.build_crudReply { x with readFile := c.files } headers answer c.req
      false c.out c.rng
    rw [withTimeout]
    simp only [Option.getD_none]
    rw [hbuild]
    rfl
  rw [LiveRule.serve, LiveRule.handle, hdeliver]

end Mockinx
