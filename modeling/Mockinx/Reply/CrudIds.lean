import Mathlib.Data.List.Range
import Mockinx.Lib.F64Bounds
import Mockinx.Reply.CrudFresh

/-!
The counter of automatic ids over whole runs. The ids that creates hand out are consecutive from the
counter of the new store on, as long as they and the counter fit into 64 bits.
-/

set_option autoImplicit false
set_option relaxedAutoImplicit false

namespace Mockinx

open Lib Lib.Run

def Number.value : Number → Option ℚ
  | .posInt n => some (n.toNat : ℚ)
  | .negInt i => some (i.1 : ℚ)
  | .float t => (F64.parse t.text.toList).bind F64.value

def Value.asNumber : Value → Option Number
  | .number n => some n
  | _ => none

def CrudSpec.seedNumbers (spec : CrudSpec) : List Number :=
  spec.data.filterMap fun item => (item.get? spec.id.name).bind Value.asNumber

def handedOut (idField : String) (outs : List CrudResponse) : List ℕ :=
  outs.filterMap fun r =>
    if r.1 = 201 then ((r.2.get? idField).bind Value.asU64).map UInt64.toNat else none

private theorem handedOut_append (idField : String) (outs outs' : List CrudResponse) :
    handedOut idField (outs ++ outs') = handedOut idField outs ++ handedOut idField outs' :=
  List.filterMap_append

private theorem handedOut_created {idField : String} {item v : Value}
    (h : item.get? idField = some v) :
    handedOut idField [(201, item)] = (v.asU64.map UInt64.toNat).toList := by
  rw [handedOut]
  cases hv : v.asU64 <;> simp [h, hv]

private theorem handedOut_other {idField : String} {r : CrudResponse} (h : r.1 ≠ 201) :
    handedOut idField [r] = [] := by
  simp [handedOut, h]

/-- The counter is past all numbers among the initial ids and all ids that were handed out, and
these have only increased. -/
structure IdsInOrder (spec : CrudSpec) (nextId : UInt64) (handed : List ℕ) : Prop where
  seeds : ∀ n ∈ spec.seedNumbers, ∀ q ∈ n.value, q < nextId.toNat
  ahead : ∀ id ∈ handed, id < nextId.toNat
  increasing : handed.Pairwise (· < ·)

/-- The store is created and runs through the operations without a panic, with its ids in order. -/
def RunsInOrder (o : OverflowChecks) (spec : CrudSpec) (ops : List CrudOp) : Prop :=
  ∃ s s' outs, CrudStore.new o spec = .ok s ∧ run (CrudStore.step o) s ops = some (s', outs) ∧
    IdsInOrder spec s'.state.nextId (handedOut spec.id.name outs)

/-- How many ids a strategy draws from the counter. -/
def draws (strategy : String) (ops : List CrudOp) : ℕ :=
  if strategy = "uuid" then 0 else ops.countP CrudOp.isCreate

private theorem draws_append (strategy : String) (ops ops' : List CrudOp) :
    draws strategy (ops ++ ops') = draws strategy ops + draws strategy ops' := by
  rw [draws, draws, draws]
  split_ifs
  · rfl
  · rw [List.countP_append]

namespace CrudStore

theorem createdItem_id (s : CrudStore) (uuid : String) (body : Value) :
    (s.createdItem uuid body).get? s.idField = some (s.createdId uuid) :=
  IndexMap.get?_insert_self _ _ _

private theorem status_of_not_create {o : OverflowChecks} {s : CrudStore} {op : CrudOp}
    {r : CrudStore × CrudResponse} (h : s.step o op = some r) (hop : op.isCreate = false) :
    r.2.1 ≠ 201 := by
  cases op with
  | create uuid body => simp [CrudOp.isCreate] at hop
  | list =>
    obtain rfl := Option.some.inj h
    change 200 ≠ 201
    decide
  | methodNotAllowed =>
    obtain rfl := Option.some.inj h
    change 405 ≠ 201
    decide
  | get id =>
    obtain rfl := Option.some.inj h
    change (s.get id).1 ≠ 201
    rw [get]
    split <;> simp [notFound]
  | replace id body =>
    obtain rfl := Option.some.inj h
    rw [replace]
    split_ifs <;> simp [notFound]
  | patch id body =>
    obtain rfl := Option.some.inj h
    rw [patch]
    split <;> simp [notFound]
  | delete id =>
    obtain rfl := Option.some.inj h
    rw [delete]
    split <;> simp [notFound]

theorem step_idField {o : OverflowChecks} {s : CrudStore} {op : CrudOp}
    {r : CrudStore × CrudResponse} (h : s.step o op = some r) : r.1.idField = s.idField := by
  cases op with
  | create uuid body =>
    rw [step, CrudStore.apply, create_eq] at h
    cases hn : s.nextIdAfter o with
    | error p =>
      rw [hn] at h
      cases h
    | ok n =>
      rw [hn] at h
      rw [← Option.some.inj h]
  | list | get | methodNotAllowed =>
    obtain rfl := Option.some.inj h
    rfl
  | replace id body =>
    obtain rfl := Option.some.inj h
    rw [replace]
    split_ifs <;> rfl
  | patch id body =>
    obtain rfl := Option.some.inj h
    rw [patch]
    split <;> rfl
  | delete id =>
    obtain rfl := Option.some.inj h
    rw [delete]
    split <;> rfl

structure Draws (s : CrudStore) (ops : List CrudOp) (s' : CrudStore) (outs : List CrudResponse) :
    Prop where
  idField : s'.idField = s.idField
  idStrategy : s'.idStrategy = s.idStrategy
  nextId : s'.state.nextId.toNat = s.state.nextId.toNat + draws s.idStrategy ops
  handed : handedOut s.idField outs =
    List.range' s.state.nextId.toNat (draws s.idStrategy ops)

/-- The step lemma. -/
private theorem exists_draws_step (o : OverflowChecks) {s : CrudStore} {op : CrudOp}
    (hroom : s.state.nextId.toNat + draws s.idStrategy [op] < 2 ^ 64) :
    ∃ s' r, s.step o op = some (s', r) ∧ Draws s [op] s' [r] := by
  cases hop : op.isCreate with
  | false =>
    have hdraws : draws s.idStrategy [op] = 0 := by simp [draws, hop]
    obtain ⟨r, hr⟩ : ∃ r, s.step o op = some r := by
      cases op with
      | create uuid body => simp [CrudOp.isCreate] at hop
      | _ => exact ⟨_, rfl⟩
    obtain ⟨hnext, hstrategy, _⟩ := step_of_not_create hr hop
    refine ⟨r.1, r.2, hr, step_idField hr, hstrategy, ?_, ?_⟩
    · rw [hdraws, hnext, Nat.add_zero]
    · rw [hdraws, handedOut_other (status_of_not_create hr hop)]
      rfl
  | true =>
    obtain ⟨uuid, body, rfl⟩ := CrudOp.exists_of_isCreate hop
    have hid := s.createdItem_id uuid body
    by_cases huuid : s.idStrategy = "uuid"
    · have hn : s.nextIdAfter o = .ok s.state.nextId := if_pos huuid
      have hstep : s.step o (.create uuid body) = some
          ({ s with
              state := {
                items := s.state.items.insert (s.createdKey uuid) (s.createdItem uuid body)
                nextId := s.state.nextId } },
            (201, s.createdItem uuid body)) := by
        rw [step, CrudStore.apply, create_eq, hn]
        rfl
      have hdraws : draws s.idStrategy [.create uuid body] = 0 := if_pos huuid
      refine ⟨_, _, hstep, rfl, rfl, by rw [hdraws, Nat.add_zero], ?_⟩
      rw [hdraws, handedOut_created hid, createdId, if_pos huuid]
      rfl
    · have hdraws : draws s.idStrategy [.create uuid body] = 1 := if_neg huuid
      rw [hdraws] at hroom
      refine ⟨_, _, step_create_inc huuid hroom uuid body, rfl, rfl, ?_, ?_⟩
      · rw [hdraws]
        exact OverflowChecks.toNat_add_one hroom
      · rw [hdraws, handedOut_created hid, createdId, if_neg huuid]
        rfl

/-- The run lemma: the ids that are handed out are consecutive. -/
theorem exists_draws_run (o : OverflowChecks) {s : CrudStore} {ops : List CrudOp}
    (hroom : s.state.nextId.toNat + draws s.idStrategy ops < 2 ^ 64) :
    ∃ s' outs, run (CrudStore.step o) s ops = some (s', outs) ∧ Draws s ops s' outs := by
  induction ops generalizing s with
  | nil =>
    have hdraws : draws s.idStrategy [] = 0 := by simp [draws]
    exact ⟨s, [], rfl, rfl, rfl, by rw [hdraws, Nat.add_zero], by rw [hdraws]; rfl⟩
  | cons op ops ih =>
    have hsplit : draws s.idStrategy (op :: ops) =
        draws s.idStrategy [op] + draws s.idStrategy ops := draws_append s.idStrategy [op] ops
    have hfirst : s.state.nextId.toNat + draws s.idStrategy [op] < 2 ^ 64 := by omega
    obtain ⟨m, r, hstep, hm⟩ := exists_draws_step o hfirst
    have hrest : m.state.nextId.toNat + draws m.idStrategy ops < 2 ^ 64 := by
      rw [hm.nextId, hm.idStrategy]
      omega
    obtain ⟨s', outs, hrun, hs'⟩ := ih hrest
    refine ⟨s', r :: outs, run_cons_eq_some.mpr ⟨m, r, outs, hstep, hrun, rfl⟩, ?_⟩
    refine ⟨hs'.idField.trans hm.idField, hs'.idStrategy.trans hm.idStrategy, ?_, ?_⟩
    · rw [hs'.nextId, hm.nextId, hm.idStrategy, hsplit, Nat.add_assoc]
    · rw [← List.singleton_append, handedOut_append, hm.handed, ← hm.idField, hs'.handed, hm.nextId,
        hm.idStrategy, hsplit, List.range'_append_1]

private theorem foldl_max_eq_or_mem (l : List UInt64) (m : UInt64) :
    l.foldl max m = m ∨ l.foldl max m ∈ l := by
  induction l generalizing m with
  | nil => exact Or.inl rfl
  | cons a l ih =>
    rw [List.foldl_cons]
    have hmax : max m a = m ∨ max m a = a := by
      simp only [max]
      split_ifs <;> simp
    rcases ih (max m a) with heq | hmem
    · rw [heq]
      refine hmax.imp_right fun ha => ?_
      rw [ha]
      exact List.mem_cons_self
    · exact Or.inr (List.mem_cons_of_mem a hmem)

end CrudStore

private theorem mem_loadIds_iff {spec : CrudSpec} {n : UInt64} :
    n ∈ CrudStore.loadIds spec.id.name spec.data ↔ .posInt n ∈ spec.seedNumbers := by
  rw [CrudStore.loadIds, CrudSpec.seedNumbers, List.mem_filterMap, List.mem_filterMap]
  refine exists_congr fun item => and_congr_right fun _ => ?_
  rw [Option.bind_eq_some_iff, Option.bind_eq_some_iff]
  refine exists_congr fun v => and_congr_right fun _ => ?_
  rcases v with _ | _ | (m | m | m) | _ | _ | _ <;>
    simp [Value.asU64, Value.asNumber, Number.asU64]

theorem le_maxId {spec : CrudSpec} {n : UInt64} (h : .posInt n ∈ spec.seedNumbers) :
    n.toNat ≤ spec.maxId.toNat :=
  CrudStore.toNat_le_foldl_max (Or.inr (mem_loadIds_iff.mpr h))

private theorem nextId_new {o : OverflowChecks} {spec : CrudSpec} {s : CrudStore}
    (h : CrudStore.new o spec = .ok s) : s.state.nextId = spec.maxId + 1 := by
  have hn := (CrudStore.new_eq_ok h).2.2.2
  rw [CrudStore.load_eq] at hn
  exact OverflowChecks.eq_of_succ hn

/-- Every float among the initial ids is below the counter of the new store. -/
def FloatsBehind (spec : CrudSpec) : Prop :=
  ∀ t, .float t ∈ spec.seedNumbers → ∀ q ∈ (Number.float t).value, q < (spec.maxId.toNat + 1 : ℕ)

/-- The counter of the new store and the ids that are drawn from it fit into 64 bits. -/
def CounterHasRoom (spec : CrudSpec) (ops : List CrudOp) : Prop :=
  spec.maxId.toNat + 1 + draws spec.id.new ops < 2 ^ 64

private theorem seeds_lt {spec : CrudSpec} (h : FloatsBehind spec) {n : Number}
    (hn : n ∈ spec.seedNumbers) {q : ℚ} (hq : q ∈ n.value) : q < (spec.maxId.toNat + 1 : ℕ) := by
  cases n with
  | posInt m =>
    obtain rfl := Option.some.inj hq
    exact_mod_cast Nat.lt_succ_of_le (le_maxId hn)
  | negInt i =>
    obtain rfl := Option.some.inj hq
    have hneg : (i.1 : ℚ) < 0 := by exact_mod_cast i.2.2
    exact hneg.trans_le (Nat.cast_nonneg _)
  | float t => exact h t hn q hq

private theorem runsInOrder_of_room (o : OverflowChecks) {spec : CrudSpec} {ops : List CrudOp}
    (hroom : CounterHasRoom spec ops) (hfloats : FloatsBehind spec) :
    RunsInOrder o spec ops := by
  rw [CounterHasRoom] at hroom
  have hfirst : spec.maxId.toNat + 1 < 2 ^ 64 := by omega
  obtain ⟨s, hs⟩ := CrudStore.exists_new o hfirst
  obtain ⟨_, hidField, hstrategy, _⟩ := CrudStore.new_eq_ok hs
  have hnext := CrudStore.toNat_nextId_new hs hfirst
  rw [← hstrategy, ← hnext] at hroom
  obtain ⟨s', outs, hrun, hdraws⟩ := CrudStore.exists_draws_run o hroom
  refine ⟨s, s', outs, hs, hrun, ?_⟩
  rw [← hidField, hdraws.handed]
  constructor
  · intro n hn q hq
    refine (seeds_lt hfloats hn hq).trans_le ?_
    rw [hdraws.nextId, hnext]
    exact_mod_cast Nat.le_add_right _ _
  · intro id hid
    rw [hdraws.nextId]
    exact (List.mem_range'_1.mp hid).2
  · exact List.pairwise_lt_range'

private theorem maxId_lt_of_runsInOrder {o : OverflowChecks} {spec : CrudSpec}
    (h : RunsInOrder o spec []) : spec.maxId.toNat + 1 < 2 ^ 64 ∧ FloatsBehind spec := by
  obtain ⟨s, _, _, hs, hnil, hids⟩ := h
  obtain ⟨rfl, rfl⟩ := Prod.mk.inj (Option.some.inj hnil)
  have hseeds := hids.seeds
  rw [nextId_new hs] at hseeds
  have hroom : spec.maxId.toNat + 1 < 2 ^ 64 := by
    by_contra hnot
    have hlt := spec.maxId.toNat_lt
    have hmax : spec.maxId.toNat + 1 = 2 ^ 64 := by omega
    have hmem : .posInt spec.maxId ∈ spec.seedNumbers := by
      refine mem_loadIds_iff.mp ((CrudStore.foldl_max_eq_or_mem _ 0).resolve_left fun hzero => ?_)
      have : spec.maxId.toNat = 0 := congrArg UInt64.toNat hzero
      omega
    have hwrapped := hseeds _ hmem _ rfl
    rw [OverflowChecks.toNat_add_one_of_max hmax, Nat.cast_zero] at hwrapped
    exact absurd hwrapped (not_lt.mpr (Nat.cast_nonneg _))
  refine ⟨hroom, fun t ht q hq => ?_⟩
  rw [← OverflowChecks.toNat_add_one hroom]
  exact hseeds _ ht q hq

private theorem not_runsInOrder_of_last {o : OverflowChecks} {spec : CrudSpec} {s m : CrudStore}
    {before : List CrudOp} {bs : List CrudResponse} (hs : CrudStore.new o spec = .ok s)
    (hbefore : run (CrudStore.step o) s before = some (m, bs))
    (hidField : m.idField = spec.id.name) (hinc : m.idStrategy ≠ "uuid")
    (hlast : m.state.nextId.toNat + 1 = 2 ^ 64) (uuid : String) (body : Value) :
    ¬ RunsInOrder o spec (before ++ [.create uuid body]) := by
  rintro ⟨s₀, s', outs, hs₀, hrun, hids⟩
  obtain rfl := Except.ok.inj (hs.symm.trans hs₀)
  obtain ⟨m', cs, cs', hrun₁, hrun₂, rfl⟩ := run_append_eq_some.mp hrun
  obtain ⟨rfl, rfl⟩ := Prod.mk.inj (Option.some.inj (hbefore.symm.trans hrun₁))
  obtain ⟨t, r, ds, hstep, hnil, rfl⟩ := run_cons_eq_some.mp hrun₂
  obtain ⟨rfl, rfl⟩ := Prod.mk.inj (Option.some.inj hnil)
  rw [CrudStore.step, CrudStore.apply, CrudStore.create_eq, CrudStore.nextIdAfter, if_neg hinc]
    at hstep
  cases hnext : o.succ m.state.nextId with
  | error p =>
    rw [hnext] at hstep
    cases hstep
  | ok next =>
    rw [hnext] at hstep
    obtain ⟨rfl, rfl⟩ := Prod.mk.inj (Option.some.inj hstep)
    have hzero : next.toNat = 0 := by
      rw [OverflowChecks.eq_of_succ hnext, OverflowChecks.toNat_add_one_of_max hlast]
    have hid := m.createdItem_id uuid body
    rw [hidField, CrudStore.createdId, if_neg hinc] at hid
    have hmem : m.state.nextId.toNat ∈ handedOut spec.id.name
        (bs ++ [(201, m.createdItem uuid body)]) := by
      rw [handedOut_append, handedOut_created hid]
      exact List.mem_append_right _ List.mem_cons_self
    have hahead := hids.ahead _ hmem
    change m.state.nextId.toNat < next.toNat at hahead
    omega

private theorem exists_prefix_of_lt_countP {α : Type} {p : α → Bool} {l : List α} {k : ℕ}
    (h : k < l.countP p) :
    ∃ before a after, l = before ++ a :: after ∧ p a = true ∧ before.countP p = k := by
  induction l generalizing k with
  | nil => simp at h
  | cons a l ih =>
    cases hp : p a with
    | false =>
      rw [List.countP_cons_of_neg (by simp [hp])] at h
      obtain ⟨before, b, after, rfl, hb, hk⟩ := ih h
      exact ⟨a :: before, b, after, rfl, hb, by rw [List.countP_cons_of_neg (by simp [hp]), hk]⟩
    | true =>
      cases k with
      | zero => exact ⟨[], a, l, rfl, hp, rfl⟩
      | succ k =>
        rw [List.countP_cons_of_pos hp] at h
        obtain ⟨before, b, after, rfl, hb, hk⟩ := ih (Nat.lt_of_succ_lt_succ h)
        exact ⟨a :: before, b, after, rfl, hb, by rw [List.countP_cons_of_pos hp, hk]⟩

/-- In every state of a run the ids are in order exactly when the counter has room for the creates
of the run, and no float among the initial ids is ahead of the counter. -/
theorem ids_in_order_iff (o : OverflowChecks) (spec : CrudSpec) (ops : List CrudOp) :
    (∀ before after, ops = before ++ after → RunsInOrder o spec before) ↔
      CounterHasRoom spec ops ∧ FloatsBehind spec := by
  constructor
  · intro h
    obtain ⟨hfirst, hfloats⟩ := maxId_lt_of_runsInOrder (h [] ops rfl)
    refine ⟨?_, hfloats⟩
    by_contra hfull
    rw [CounterHasRoom, draws] at hfull
    split_ifs at hfull with huuid
    · omega
    · -- the create that draws the last id
      obtain ⟨before, op, after, rfl, hop, hcount⟩ := exists_prefix_of_lt_countP
        (show 2 ^ 64 - 1 - (spec.maxId.toNat + 1) < ops.countP CrudOp.isCreate by omega)
      obtain ⟨uuid, body, rfl⟩ := CrudOp.exists_of_isCreate hop
      obtain ⟨s, hs⟩ := CrudStore.exists_new o hfirst
      obtain ⟨_, hidField, hstrategy, _⟩ := CrudStore.new_eq_ok hs
      have hnext := CrudStore.toNat_nextId_new hs hfirst
      have hinc : s.idStrategy ≠ "uuid" := hstrategy ▸ huuid
      have hdraws : draws s.idStrategy before = 2 ^ 64 - 1 - (spec.maxId.toNat + 1) :=
        (if_neg hinc).trans hcount
      obtain ⟨m, bs, hrun, hm⟩ := CrudStore.exists_draws_run o
        (show s.state.nextId.toNat + draws s.idStrategy before < 2 ^ 64 by omega)
      refine not_runsInOrder_of_last hs hrun (hm.idField.trans hidField)
        (hm.idStrategy ▸ hinc) ?_ uuid body (h _ after (by simp))
      rw [hm.nextId, hdraws, hnext]
      omega
  · rintro ⟨hroom, hfloats⟩ before after rfl
    refine runsInOrder_of_room o ?_ hfloats
    rw [CounterHasRoom, draws_append] at hroom
    rw [CounterHasRoom]
    omega

/-- The largest 64-bit integer as an initial id: the counter of the new store overflows. -/
theorem largest_id_overflows :
    let crudObj : Map := IndexMap.ofEntries [("data", .array [.obj
      [("id", .ofNat 18446744073709551615)] (by decide)])] (by decide)
    ∃ spec, parseCrudSpec crudObj = .ok spec ∧
      CrudStore.new .checked spec = .error .overflow ∧ ¬ RunsInOrder .checked spec [] ∧
      ¬ RunsInOrder .wrapping spec [] := by
  intro crudObj
  have hmax : ∀ o, ¬ RunsInOrder o
      { data := [.obj [("id", .ofNat 18446744073709551615)] (by decide)] } [] := by
    intro o h
    exact absurd (maxId_lt_of_runsInOrder h).1 (by decide)
  exact ⟨_, rfl, rfl, hmax _, hmax _⟩

end Mockinx
