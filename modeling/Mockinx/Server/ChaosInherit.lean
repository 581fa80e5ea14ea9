import Mockinx.Chaos.Selection
import Mockinx.Server.Handler

/-!
What a chaos entry leaves of its rule. The reply is overridden on its own; the delivery of an entry
takes the place of the rule's as a whole, where the fields that it leaves out are documented to come
from the rule.
-/

set_option autoImplicit false
set_option relaxedAutoImplicit false

namespace Mockinx

open Lib

/-- The delivery of a request for which an entry was selected. -/
def deliveryInEffect (rule : Rule) (entry : ChaosEntry F64) : DeliverySpec :=
  entry.serve.getD rule.delivery

/-- From an admitted request to its response, once chaos has been resolved: a chaos reply, or the
reply of the rule's own strategy. -/
def respondWith (x : External) (o : OverflowChecks) (rule : Rule) (crud : Option CrudStore)
    (req : Request) (permit : Bool) (out : Outside) (chaosReply : Option ReplySpec)
    (delivery : DeliverySpec) : Sampler (Option CrudStore × Response) := do
  match chaosReply with
  | some reply =>
    return (crud, ← withTimeout rule.behavior.timeout
      (buildDeliveryResponse x reply delivery permit out))
  | none =>
    let (crud, reply) ← liftPanic (resolveStrategy x o rule.reply crud req out)
    match reply with
    | some reply =>
      return (crud, ← withTimeout rule.behavior.timeout
        (buildDeliveryResponse x (resolveReflect x reply req) delivery permit out))
    | none => return (crud, .ofStatus 500)

def entryField {α : Type} (f : DeliverySpec → Option α) (entry : ChaosEntry F64) : Option α :=
  entry.serve.bind f

/-- The documented value of a delivery field: the entry's own, else the rule's. -/
def inheritedField {α : Type} (f : DeliverySpec → Option α) (rule : Rule)
    (entry : ChaosEntry F64) : Option α :=
  (entryField f entry).or (f rule.delivery)

/-- Every field of the delivery in effect has its documented value. -/
structure InheritsFields (rule : Rule) (entry : ChaosEntry F64) : Prop where
  pace : (deliveryInEffect rule entry).pace = inheritedField DeliverySpec.pace rule entry
  drop : (deliveryInEffect rule entry).drop = inheritedField DeliverySpec.drop rule entry
  hang : (deliveryInEffect rule entry).hang = inheritedField DeliverySpec.hang rule entry
  firstByte :
    (deliveryInEffect rule entry).firstByte = inheritedField DeliverySpec.firstByte rule entry

def KeepsField {α : Type} (f : DeliverySpec → Option α) (rule : Rule)
    (entry : ChaosEntry F64) : Prop :=
  entry.serve.isSome → (f rule.delivery).isSome → (entryField f entry).isSome

/-- An entry with a delivery sets every field that the rule sets. -/
structure SetsRuleFields (rule : Rule) (entry : ChaosEntry F64) : Prop where
  pace : KeepsField DeliverySpec.pace rule entry
  drop : KeepsField DeliverySpec.drop rule entry
  hang : KeepsField DeliverySpec.hang rule entry
  firstByte : KeepsField DeliverySpec.firstByte rule entry

private theorem field_inherited_iff {α : Type} (f : DeliverySpec → Option α) (rule : Rule)
    (entry : ChaosEntry F64) :
    f (deliveryInEffect rule entry) = inheritedField f rule entry ↔ KeepsField f rule entry := by
  rw [deliveryInEffect, inheritedField, KeepsField, entryField]
  cases entry.serve with
  | none => simp
  | some serve =>
    rw [Option.getD_some, Option.bind_some]
    cases f serve <;> cases f rule.delivery <;> simp

private theorem inheritsFields_iff (rule : Rule) (entry : ChaosEntry F64) :
    InheritsFields rule entry ↔ SetsRuleFields rule entry := by
  constructor
  · intro h
    exact ⟨(field_inherited_iff _ rule entry).mp h.pace,
      (field_inherited_iff _ rule entry).mp h.drop,
      (field_inherited_iff _ rule entry).mp h.hang,
      (field_inherited_iff _ rule entry).mp h.firstByte⟩
  · intro h
    exact ⟨(field_inherited_iff _ rule entry).mpr h.pace,
      (field_inherited_iff _ rule entry).mpr h.drop, (field_inherited_iff _ rule entry).mpr h.hang,
      (field_inherited_iff _ rule entry).mpr h.firstByte⟩

private theorem rollChaos_of_selectedAt {entries : List (ChaosEntry F64)} {entry : ChaosEntry F64}
    {i : ℕ} {rng : Rng} (hentry : entries[i]? = some entry)
    (hselected : selectedAt entries (rng.float * F64.ofNat 100) = some i) :
    rollChaos (some entries) rng = .ok ((entry.reply, entry.serve), rng.next) := by
  have hresult : resolveChaos entries (rng.float * F64.ofNat 100) =
      .override entry.reply entry.serve := by
    rw [resolveChaos_eq, hselected, resultAt, Option.bind_some, hentry]
  have hdraw : drawFloat rng = .ok (rng.float, rng.next) := rfl
  rw [rollChaos, sampler_bind_of_ok hdraw, hresult]
  rfl

private theorem resolveAndDeliver_of_selectedAt {x : External} {o : OverflowChecks} {rule : Rule}
    {entries : List (ChaosEntry F64)} {entry : ChaosEntry F64} {i : ℕ} {rng : Rng}
    (hchaos : rule.chaos = some entries) (hentry : entries[i]? = some entry)
    (hselected : selectedAt entries (rng.float * F64.ofNat 100) = some i)
    (crud : Option CrudStore) (req : Request) (permit : Bool) (out : Outside) :
    resolveAndDeliver x o rule crud req permit out rng =
      respondWith x o rule crud req permit out entry.reply (deliveryInEffect rule entry)
        rng.next := by
  have hroll := rollChaos_of_selectedAt hentry hselected
  rw [← hchaos] at hroll
  rw [resolveAndDeliver, sampler_bind_of_ok hroll]
  rfl

/-- A request for which an entry is selected gets the entry's reply, or that of the rule's own
strategy where the entry has none, under the delivery in effect. That delivery has the documented
fields exactly when the entry leaves out none that the rule sets. -/
theorem chaos_inherits_iff {x : External} {o : OverflowChecks} {rule : Rule}
    {entries : List (ChaosEntry F64)} {entry : ChaosEntry F64} {i : ℕ} {rng : Rng}
    (hchaos : rule.chaos = some entries) (hentry : entries[i]? = some entry)
    (hselected : selectedAt entries (rng.float * F64.ofNat 100) = some i)
    (crud : Option CrudStore) (req : Request) (permit : Bool) (out : Outside) :
    resolveAndDeliver x o rule crud req permit out rng =
        respondWith x o rule crud req permit out entry.reply (deliveryInEffect rule entry)
          rng.next ∧
      (InheritsFields rule entry ↔ SetsRuleFields rule entry) :=
  ⟨resolveAndDeliver_of_selectedAt hchaos hentry hselected crud req permit out,
    inheritsFields_iff rule entry⟩

/-- An override of the delivery for every request. -/
def alwaysServe (serve : DeliverySpec) : ChaosEntry F64 where
  p := F64.ofNat 100
  reply := none
  serve := some serve

/-- A rule that delays its first byte by two seconds, with one chaos entry. -/
def delayedRule (entry : ChaosEntry F64) : Rule where
  matchRule := .catchAll
  reply := .static {}
  delivery := { firstByte := some (.fixed ⟨2000000000, by decide⟩) }
  behavior := {}
  chaos := some [entry]
  source := .null

private theorem selectedAt_alwaysServe (serve : DeliverySpec) :
    selectedAt [alwaysServe serve] ((⟨fun _ => 0⟩ : Rng).float * F64.ofNat 100) = some 0 := by
  have hpercentages : percentages [alwaysServe serve] = [F64.ofNat 100] := rfl
  rw [selectedAt, hpercentages]
  decide +kernel

theorem chaos_inherits_first_byte :
    let entry := alwaysServe
      { drop := some (.afterBytes (.fixed ⟨1024⟩))
        firstByte := some (.fixed ⟨1000000000, by decide⟩) }
    let out : Outside := ⟨.zero, true, 0, "", .zero, .zero⟩
    resolveAndDeliver default .checked (delayedRule entry) none default false out ⟨fun _ => 0⟩ =
        respondWith default .checked (delayedRule entry) none default false out none
          (deliveryInEffect (delayedRule entry) entry) (⟨fun _ => 0⟩ : Rng).next ∧
      InheritsFields (delayedRule entry) entry := by
  intro entry out
  have hinherits := @chaos_inherits_iff default .checked (delayedRule entry) [entry] entry 0
    ⟨fun _ => 0⟩ rfl rfl (selectedAt_alwaysServe _) none default false out
  refine ⟨hinherits.1, hinherits.2.mpr ⟨?_, ?_, ?_, ?_⟩⟩
  · exact fun _ h => absurd h (by decide)
  · exact fun _ h => absurd h (by decide)
  · exact fun _ h => absurd h (by decide)
  · exact fun _ _ => rfl

/-- An entry that only sets a drop: the stream has no first-byte delay. -/
theorem first_byte_not_inherited :
    let entry := alwaysServe { drop := some (.afterBytes (.fixed ⟨1024⟩)) }
    let out : Outside := ⟨.zero, true, 0, "", .zero, .zero⟩
    ∃ resp stream rng', resolveAndDeliver default .checked (delayedRule entry) none default false
          out ⟨fun _ => 0⟩ = .ok ((none, resp), rng') ∧
        resp.body = .stream stream false ∧ stream.firstByteDelay = none ∧
        (inheritedField DeliverySpec.firstByte (delayedRule entry) entry).isSome ∧
        ¬ InheritsFields (delayedRule entry) entry := by
  intro entry out
  have hresult := @resolveAndDeliver_of_selectedAt default .checked (delayedRule entry) [entry]
    entry 0 ⟨fun _ => 0⟩ rfl rfl (selectedAt_alwaysServe _) none default false out
  refine ⟨_, _, _, hresult.trans rfl, rfl, rfl, rfl, fun hinherits => ?_⟩
  cases hinherits.firstByte

end Mockinx
