import Mockinx.Lib.Run
import Mockinx.Lib.Slots
import Mockinx.Server.ShapedReply

/-!
The requests of one rule with a concurrency limit, from their arrival to the end of their response:
who holds a permit of the semaphore, and when it is given back.
-/

set_option autoImplicit false
set_option relaxedAutoImplicit false

namespace Mockinx

open Lib Lib.Run

/-- A rule with a concurrency limit. -/
structure LimitedRule where
  rule : Rule
  conc : ConcurrencySpec
  limited : rule.behavior.concurrency = some conc

/-- Where a request stands. -/
inductive Phase where
  /-- It waits for a permit, for a bounded time or not. -/
  | waiting (bounded : Bool)
  /-- It has been admitted, and its handler runs. -/
  | admitted
  /-- Its body is a shaped stream, which the client still reads unless it has ended. -/
  | streaming (inner : DeliveryStream) (permit : Bool) (ended : Bool)
  /-- It is over, without having been admitted. -/
  | rejected
  /-- It was admitted and is over. -/
  | finished

namespace Phase

/-- An admitted request whose handler runs or whose stream is alive. -/
def occupies : Phase → Bool
  | .admitted | .streaming _ _ _ => true
  | _ => false

/-- What the request has done with the semaphore. -/
def stage : Phase → Stage
  | .waiting _ | .rejected => .idle
  | .admitted | .streaming _ _ _ => .holding
  | .finished => .done

private theorem stage_eq_holding (p : Phase) : (p.stage = .holding) = (p.occupies = true) := by
  cases p <;> simp [stage, occupies]

def KeepsPermit : Phase → Prop
  | .streaming _ permit _ => permit = true
  | _ => True

end Phase

/-- What the requests of a rule share, and the requests in the order of their arrival. -/
structure Admission where
  free : ℕ
  runtime : BehaviorRuntime
  requests : List Phase

/-- What can happen: a request arrives and passes the limits as far as it can without waiting, it
gets a permit, its wait is over without one, its handler builds the response, its stream is polled,
is dropped behind its end, or the client goes away. -/
inductive AdmissionAction where
  | arrive (now : Instant) (rng : Rng)
  | grant (i : ℕ)
  | timeOut (i : ℕ)
  | respond (i : ℕ) (crud : Option CrudStore) (req : Request) (out : Outside) (rng : Rng)
  | poll (i : ℕ) (env : PollEnv)
  | complete (i : ℕ)
  | disconnect (i : ℕ)

namespace Admission

/-- A runtime as it is created for the rule, before any request. -/
def start (r : LimitedRule) : Admission where
  free := (BehaviorRuntime.new r.rule.behavior).semaphore.getD 0
  runtime := .new r.rule.behavior
  requests := []

def add (s : Admission) (p : Phase) : Admission := { s with requests := s.requests ++ [p] }

def setPhase (s : Admission) (i : ℕ) (p : Phase) : Admission :=
  { s with requests := s.requests.set i p }

def finish (s : Admission) (i : ℕ) (permit : Bool) : Admission × Option (ℕ × SlotEvent) :=
  if permit then ({ s.setPhase i .finished with free := s.free + 1 }, some (i, .gave))
  else (s.setPhase i .finished, none)

def queue (conc : ConcurrencySpec) (s : Admission) (rng : Rng) :
    Admission × Option (ℕ × SlotEvent) :=
  match conc.«over» with
  | .reply _ =>
    if 0 < s.free then
      ({ s.add .admitted with free := s.free - 1 }, some (s.requests.length, .took))
    else (s.add .rejected, none)
  | .block => (s.add (.waiting false), none)
  | .blockWithTimeout timeout _ =>
    match timeout.sample rng with
    | .ok _ => (s.add (.waiting true), none)
    | .error _ => (s.add .rejected, none)

/-- One step of the system. A handler that panics drops what it holds. -/
def step (x : External) (o : OverflowChecks) (r : LimitedRule) (s : Admission) :
    AdmissionAction → Option (Admission × Option (ℕ × SlotEvent))
  | .arrive now rng =>
    match s.runtime.checkRate r.rule.behavior now with
    | .error _ => some (s.add .rejected, none)
    | .ok (runtime, some _) => some ({ s with runtime }.add .rejected, none)
    | .ok (runtime, none) => some (queue r.conc { s with runtime } rng)
  | .grant i =>
    match s.requests[i]? with
    | some (.waiting _) =>
      if 0 < s.free then
        some ({ s.setPhase i .admitted with free := s.free - 1 }, some (i, .took))
      else none
    | _ => none
  | .timeOut i =>
    match s.requests[i]? with
    | some (.waiting true) => some (s.setPhase i .rejected, none)
    | _ => none
  | .respond i crud req out rng =>
    match s.requests[i]? with
    | some .admitted =>
      match resolveAndDeliver x o r.rule crud req true out rng with
      | .ok ((_, resp), _) =>
        match resp.body with
        | .stream inner true => some (s.setPhase i (.streaming inner true false), none)
        | .stream inner false =>
          some ({ s.setPhase i (.streaming inner false false) with free := s.free + 1 },
            some (i, .gave))
        | .full _ => some (s.finish i true)
      | .error _ => some (s.finish i true)
    | _ => none
  | .poll i env =>
    match s.requests[i]? with
    | some (.streaming inner permit false) =>
      (inner.pollStep env).map fun q =>
        (s.setPhase i (.streaming q.1 permit (decide (q.2 = .ready none))), none)
    | _ => none
  | .complete i =>
    match s.requests[i]? with
    | some (.streaming _ permit true) => some (s.finish i permit)
    | _ => none
  | .disconnect i =>
    match s.requests[i]? with
    | some (.waiting _) => some (s.setPhase i .rejected, none)
    | some .admitted => some (s.finish i true)
    | some (.streaming _ permit _) => some (s.finish i permit)
    | _ => none

def slots (s : Admission) : Slots where
  free := s.free
  stages := s.requests.map Phase.stage

def KeepsPermits (s : Admission) : Prop := ∀ p ∈ s.requests, p.KeepsPermit

private theorem held_slots (s : Admission) : s.slots.held = s.requests.countP Phase.occupies := by
  rw [Slots.held, slots, List.countP_map]
  refine List.countP_congr fun p _ => ?_
  simp [Phase.stage_eq_holding]

private theorem stages_getElem? {s : Admission} {i : ℕ} {p : Phase} (h : s.requests[i]? = some p) :
    s.slots.stages[i]? = some p.stage := by
  rw [slots, List.getElem?_map, h, Option.map_some]

private theorem stages_add (s : Admission) (p : Phase) :
    (s.add p).slots.stages = s.slots.stages ++ [p.stage] := by
  simp [slots, add]

private theorem stages_setPhase (s : Admission) (i : ℕ) (p : Phase) :
    (s.setPhase i p).slots.stages = s.slots.stages.set i p.stage := by
  simp [slots, setPhase, List.map_set]

private theorem slots_setPhase_of_stage {s : Admission} {i : ℕ} {p q : Phase}
    (h : s.requests[i]? = some p) (hstage : q.stage = p.stage) :
    (s.setPhase i q).slots = s.slots := by
  obtain ⟨hi, hget⟩ := List.getElem?_eq_some_iff.mp (stages_getElem? h)
  have hstages := stages_setPhase s i q
  rw [hstage, ← hget, List.set_getElem_self] at hstages
  exact congrArg (Slots.mk s.free) hstages

private theorem KeepsPermits.add {s : Admission} {p : Phase} (h : s.KeepsPermits)
    (hp : p.KeepsPermit) :
    (s.add p).KeepsPermits := by
  intro q hq
  rcases List.mem_append.mp hq with hq | hq
  · exact h q hq
  · rwa [List.mem_singleton.mp hq]

private theorem KeepsPermits.setPhase {s : Admission} {p : Phase} (h : s.KeepsPermits)
    (hp : p.KeepsPermit) (i : ℕ) : (s.setPhase i p).KeepsPermits := by
  intro q hq
  rcases List.mem_or_eq_of_mem_set hq with hq | rfl
  · exact h q hq
  · exact hp

private theorem KeepsPermits.permit {s : Admission} {i : ℕ} {inner : DeliveryStream}
    {permit ended : Bool} (h : s.KeepsPermits)
    (hi : s.requests[i]? = some (.streaming inner permit ended)) : permit = true :=
  h _ (List.mem_of_getElem? hi)

structure Moves (s : Admission) (r : Admission × Option (ℕ × SlotEvent)) : Prop where
  move : Slots.Move s.slots r.2 r.1.slots
  keeps : r.1.KeepsPermits

private theorem moves_finish {s : Admission} {i : ℕ} {p : Phase} (hkeeps : s.KeepsPermits)
    (hi : s.requests[i]? = some p) (hholding : p.stage = .holding) : Moves s (s.finish i true) := by
  have hslots : (s.finish i true).1.slots =
      { free := s.slots.free + 1, stages := s.slots.stages.set i .done } :=
    congrArg (Slots.mk _) (stages_setPhase s i .finished)
  refine ⟨?_, hkeeps.setPhase (p := .finished) trivial i⟩
  rw [hslots]
  exact .give (hholding ▸ stages_getElem? hi)

private theorem moves_setPhase {s : Admission} {i : ℕ} {p q : Phase} (hkeeps : s.KeepsPermits)
    (hi : s.requests[i]? = some p) (hstage : q.stage = p.stage) (hq : q.KeepsPermit) :
    Moves s (s.setPhase i q, none) := by
  refine ⟨?_, hkeeps.setPhase hq i⟩
  rw [slots_setPhase_of_stage hi hstage]
  exact .stay _

private theorem moves_add {s : Admission} {p : Phase} (hkeeps : s.KeepsPermits)
    (hstage : p.stage = .idle) (hp : p.KeepsPermit) : Moves s (s.add p, none) := by
  have hstages := stages_add s p
  rw [hstage] at hstages
  have hslots : (s.add p).slots = { s.slots with stages := s.slots.stages ++ [.idle] } :=
    congrArg (Slots.mk s.free) hstages
  refine ⟨?_, hkeeps.add hp⟩
  rw [hslots]
  exact .enter _

private theorem moves_queue {s : Admission} (hkeeps : s.KeepsPermits) (conc : ConcurrencySpec)
    (rng : Rng) : Moves s (queue conc s rng) := by
  rw [queue]
  cases conc.«over» with
  | reply reply =>
    dsimp only
    split_ifs with hfree
    · have hlength : s.requests.length = s.slots.stages.length := (List.length_map _).symm
      have hslots : Admission.slots { s.add .admitted with free := s.free - 1 } =
          { free := s.slots.free - 1, stages := s.slots.stages ++ [.holding] } :=
        congrArg (Slots.mk _) (stages_add s .admitted)
      refine ⟨?_, hkeeps.add (p := .admitted) trivial⟩
      rw [hslots, hlength]
      exact .enterHolding hfree
    · exact moves_add hkeeps rfl trivial
  | block => exact moves_add hkeeps rfl trivial
  | blockWithTimeout timeout andThen =>
    dsimp only
    split
    · exact moves_add hkeeps rfl trivial
    · exact moves_add hkeeps rfl trivial

private theorem moves_grant {s : Admission} {i : ℕ} {bounded : Bool} (hkeeps : s.KeepsPermits)
    (hi : s.requests[i]? = some (.waiting bounded)) (hfree : 0 < s.free) :
    Moves s ({ s.setPhase i .admitted with free := s.free - 1 }, some (i, .took)) := by
  have hslots : Admission.slots { s.setPhase i .admitted with free := s.free - 1 } =
      { free := s.slots.free - 1, stages := s.slots.stages.set i .holding } :=
    congrArg (Slots.mk _) (stages_setPhase s i .admitted)
  refine ⟨?_, hkeeps.setPhase (p := .admitted) trivial i⟩
  rw [hslots]
  exact .take (stages_getElem? hi) hfree

private theorem stream_permit {x : External} {o : OverflowChecks} {rule : Rule}
    {crud crud' : Option CrudStore} {req : Request} {out : Outside} {rng rng' : Rng}
    {resp : Response} {inner : DeliveryStream} {permit : Bool}
    (h : resolveAndDeliver x o rule crud req true out rng = .ok ((crud', resp), rng'))
    (hbody : resp.body = .stream inner permit) : permit = true := by
  obtain ⟨_, _, _, _, rfl | ⟨reply, bytes, rng₂, hshaped⟩⟩ := resolveAndDeliver_shaped h
  · cases hbody
  · cases hshaped with
    | whole =>
      rw [buildResponse_eq] at hbody
      split_ifs at hbody
      cases hbody
    | stream hshaped hstream =>
      rw [buildResponse_eq] at hbody
      split_ifs at hbody
      · cases hbody
        rfl
      · cases hbody

private theorem moves_arrive {x : External} {o : OverflowChecks} {r : LimitedRule} {s : Admission}
    {now : Instant} {rng : Rng} {q : Admission × Option (ℕ × SlotEvent)}
    (hkeeps : s.KeepsPermits) (h : step x o r s (.arrive now rng) = some q) : Moves s q := by
  simp only [step] at h
  cases hrate : s.runtime.checkRate r.rule.behavior now with
  | error p =>
    rw [hrate] at h
    rw [← Option.some.inj h]
    exact moves_add hkeeps rfl trivial
  | ok verdict =>
    obtain ⟨runtime, reply⟩ := verdict
    rw [hrate] at h
    cases reply with
    | some reply =>
      have hmoves := @moves_add { s with runtime } .rejected hkeeps rfl trivial
      rw [← Option.some.inj h]
      exact ⟨hmoves.move, hmoves.keeps⟩
    | none =>
      have hmoves := @moves_queue { s with runtime } hkeeps r.conc rng
      rw [← Option.some.inj h]
      exact ⟨hmoves.move, hmoves.keeps⟩

private theorem moves_respond {x : External} {o : OverflowChecks} {r : LimitedRule} {s : Admission}
    {i : ℕ} {crud : Option CrudStore} {req : Request} {out : Outside} {rng : Rng}
    {q : Admission × Option (ℕ × SlotEvent)} (hkeeps : s.KeepsPermits)
    (hi : s.requests[i]? = some .admitted)
    (h : step x o r s (.respond i crud req out rng) = some q) : Moves s q := by
  simp only [step, hi] at h
  cases hresp : resolveAndDeliver x o r.rule crud req true out rng with
  | error p =>
    rw [hresp] at h
    rw [← Option.some.inj h]
    exact moves_finish hkeeps hi rfl
  | ok answer =>
    obtain ⟨⟨crud', resp⟩, rng'⟩ := answer
    simp only [hresp] at h
    cases hbody : resp.body with
    | full bytes =>
      rw [hbody] at h
      rw [← Option.some.inj h]
      exact moves_finish hkeeps hi rfl
    | stream inner permit =>
      obtain rfl := stream_permit hresp hbody
      rw [hbody] at h
      rw [← Option.some.inj h]
      exact moves_setPhase hkeeps hi rfl rfl

private theorem moves_poll {x : External} {o : OverflowChecks} {r : LimitedRule} {s : Admission}
    {i : ℕ} {inner : DeliveryStream} {permit : Bool} {env : PollEnv}
    {q : Admission × Option (ℕ × SlotEvent)} (hkeeps : s.KeepsPermits)
    (hi : s.requests[i]? = some (.streaming inner permit false))
    (h : step x o r s (.poll i env) = some q) : Moves s q := by
  simp only [step, hi] at h
  obtain ⟨polled, _, rfl⟩ := Option.map_eq_some_iff.mp h
  exact moves_setPhase hkeeps hi rfl (hkeeps.permit hi)

private theorem step_moves {x : External} {o : OverflowChecks} {r : LimitedRule} {s : Admission}
    {a : AdmissionAction} {q : Admission × Option (ℕ × SlotEvent)} (hkeeps : s.KeepsPermits)
    (h : step x o r s a = some q) : Moves s q := by
  cases a with
  | arrive now rng => exact moves_arrive hkeeps h
  | grant i =>
    rw [step] at h
    split at h
    next bounded hi =>
      split_ifs at h with hfree
      rw [← Option.some.inj h]
      exact moves_grant hkeeps hi hfree
    next => cases h
  | timeOut i =>
    rw [step] at h
    split at h
    next hi =>
      rw [← Option.some.inj h]
      exact moves_setPhase hkeeps hi rfl trivial
    next => cases h
  | respond i crud req out rng =>
    have hstep := h
    rw [step] at h
    split at h
    next hi => exact moves_respond hkeeps hi hstep
    next => cases h
  | poll i env =>
    have hstep := h
    rw [step] at h
    split at h
    next inner permit hi => exact moves_poll hkeeps hi hstep
    next => cases h
  | complete i =>
    rw [step] at h
    split at h
    next inner permit hi =>
      rw [← Option.some.inj h, hkeeps.permit hi]
      exact moves_finish hkeeps hi rfl
    next => cases h
  | disconnect i =>
    rw [step] at h
    split at h
    next bounded hi =>
      rw [← Option.some.inj h]
      exact moves_setPhase hkeeps hi rfl trivial
    next hi =>
      rw [← Option.some.inj h]
      exact moves_finish hkeeps hi rfl
    next inner permit ended hi =>
      rw [← Option.some.inj h, hkeeps.permit hi]
      exact moves_finish hkeeps hi rfl
    next => cases h

end Admission

open Admission

/-- In every run of a rule's requests the admitted ones that are not over are at most the limit,
free and taken permits add up to it, and each request took its permit when it was admitted and gave
it back once, when it was over. -/
theorem slots_accounted {x : External} {o : OverflowChecks} {r : LimitedRule}
    {actions : List AdmissionAction} {s : Admission} {outs : List (Option (ℕ × SlotEvent))}
    (hrun : run (step x o r) (start r) actions = some (s, outs)) :
    s.requests.countP Phase.occupies ≤ r.conc.max.toNat ∧
      s.free + s.requests.countP Phase.occupies = r.conc.max.toNat ∧
      ∀ i p, s.requests[i]? = some p → outputsOf i outs = p.stage.history := by
  have hfree : (start r).free = r.conc.max.toNat := by
    simp [start, BehaviorRuntime.new, r.limited]
  have hstart : Slots.Accounted r.conc.max.toNat (start r).slots [] ∧ (start r).KeepsPermits := by
    refine ⟨⟨?_, fun i => rfl⟩, ?_⟩
    · rw [held_slots]
      exact hfree
    · intro p hp
      cases hp
  have haccount : Slots.Accounted r.conc.max.toNat s.slots outs ∧ s.KeepsPermits := by
    refine run_history (I := fun s outs => Slots.Accounted r.conc.max.toNat s.slots outs ∧
      s.KeepsPermits) ?_ hrun hstart
    rintro u log a v out ⟨hu, hkeeps⟩ hstep
    have hmoves := step_moves hkeeps hstep
    exact ⟨hu.move hmoves.move, hmoves.keeps⟩
  obtain ⟨haccount, _⟩ := haccount
  have htotal := haccount.slots
  rw [held_slots] at htotal
  refine ⟨?_, htotal, ?_⟩
  · omega
  · intro i p hi
    rw [haccount.history i, Slots.stageOf, stages_getElem? hi, Option.getD_some]

/-- A paced reply under a limit of one request. -/
def oneAtATime : LimitedRule where
  rule := {
    matchRule := .catchAll
    reply := .static {}
    delivery := { pace := some (.chunk (.fixed ⟨2⟩) (.fixed .zero)) }
    behavior := { concurrency := some { max := 1, «over» := .reply {} } }
    chaos := none
    source := .null }
  conc := { max := 1, «over» := .reply {} }
  limited := rfl

theorem slots_accounted_three_requests :
    let rng : Rng := ⟨fun _ => 0⟩
    let out : Outside := ⟨.zero, true, 0, "", .zero, .zero⟩
    let actions : List AdmissionAction := [.arrive .zero rng, .respond 0 none default out rng,
      .arrive .zero rng, .disconnect 0, .arrive .zero rng]
    ∃ s outs, run (step default .checked oneAtATime) (start oneAtATime) actions = some (s, outs) ∧
      s.requests.countP Phase.occupies ≤ 1 ∧ outputsOf 0 outs = [.took, .gave] ∧
      outputsOf 1 outs = [] ∧ outputsOf 2 outs = [.took] := by
  intro rng out actions
  have hrun : run (step default .checked oneAtATime) (start oneAtATime) actions =
    some (_, _) := rfl
  obtain ⟨hle, _, hevents⟩ := slots_accounted hrun
  exact ⟨_, _, hrun, hle, hevents 0 _ rfl, hevents 1 _ rfl, hevents 2 _ rfl⟩

end Mockinx
