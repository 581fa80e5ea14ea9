import Mathlib.Algebra.Order.Group.Int
import Mockinx.Serve.RateConcurrent

/-!
Calls of one rate limiter one after the other. The limiter forgets the timestamps that it prunes;
on a clock that does not go back it still decides as if it had kept its whole history.
-/

set_option autoImplicit false
set_option relaxedAutoImplicit false

namespace Mockinx

open Lib Lib.Run

/-- A limiter with the reading of its last call. -/
structure SequentialLimiter where
  limiter : RateLimiter
  clock : Instant

namespace SequentialLimiter

def start (maxRps : UInt32) (clock : Instant) : SequentialLimiter where
  limiter := .new maxRps
  clock := clock

/-- One call at a reading that is not before the last one. Its output has the decision, and none
when the call panics. -/
def step (s : SequentialLimiter) (now : Instant) :
    Option (SequentialLimiter × (Instant × Option Bool)) :=
  if s.clock ≤ now then
    match s.limiter.tryAcquire now with
    | .ok (limiter, allowed) => some ({ limiter, clock := now }, (now, some allowed))
    | .error _ => some ({ s with clock := now }, (now, none))
  else none

/-- The full history: the readings of the allowed calls. -/
def history (outs : List (Instant × Option Bool)) : List ℤ :=
  outs.filterMap fun out => if out.2 = some true then some out.1.nanos else none

private theorem history_concat (outs : List (Instant × Option Bool)) (now : Instant)
    (decision : Option Bool) :
    history (outs ++ [(now, decision)]) =
      history outs ++ if decision = some true then [now.nanos] else [] := by
  rw [history, List.filterMap_append]
  by_cases h : decision = some true <;> simp [history, h]

structure Remembers (maxRps : UInt32) (s : SequentialLimiter)
    (outs : List (Instant × Option Bool)) : Prop where
  limit : s.limiter.maxRps = maxRps
  past : ∀ t ∈ history outs, t ≤ s.clock.nanos
  timestamps : s.limiter.timestamps.map Instant.nanos =
    (history outs).filter fun t => s.clock.nanos - second < t
  size : s.limiter.timestamps.length ≤ maxRps.toNat
  atMost : AtMost second maxRps.toNat (history outs)

/-- What a call decides by: the calls allowed in the second before it. -/
def Decides (maxRps : UInt32) (before : List (Instant × Option Bool))
    (out : Instant × Option Bool) : Prop :=
  match out.2 with
  | some allowed =>
    allowed = true ↔ within second out.1.nanos (history before) < maxRps.toNat
  | none => out.1.checkedSub oneSecond = none

variable {maxRps : UInt32} {s t : SequentialLimiter} {outs : List (Instant × Option Bool)}
  {now : Instant}

private theorem kept_eq (h : Remembers maxRps s outs) (hclock : s.clock ≤ now) :
    (s.limiter.kept now).map Instant.nanos =
      (history outs).filter fun t => now.nanos - second < t := by
  have hcomm : (s.limiter.kept now).map Instant.nanos =
      (s.limiter.timestamps.map Instant.nanos).filter fun t => now.nanos - second < t := by
    rw [RateLimiter.kept, List.filter_map]
    rfl
  have hle : s.clock.nanos ≤ now.nanos := hclock
  rw [hcomm, h.timestamps]
  exact filter_filter_recent hle (history outs)

private theorem length_kept (h : Remembers maxRps s outs) (hclock : s.clock ≤ now) :
    (s.limiter.kept now).length = within second now.nanos (history outs) := by
  have hpast : ∀ t ∈ history outs, t ≤ now.nanos := fun t ht => (h.past t ht).trans hclock
  rw [← recent_eq_within hpast, recent, List.countP_eq_length_filter, ← kept_eq h hclock,
    List.length_map]

private theorem mem_history {t : ℤ} (h : t ∈ history outs) : ∃ now : Instant, now.nanos = t := by
  obtain ⟨out, _, heq⟩ := List.mem_filterMap.mp h
  split_ifs at heq
  exact ⟨out.1, Option.some.inj heq⟩

private theorem filter_of_checkedSub_none (hnone : now.checkedSub oneSecond = none) {time : ℤ}
    (hle : time ≤ now.nanos) (outs : List (Instant × Option Bool)) :
    ((history outs).filter fun t => time - second < t) = history outs := by
  refine List.filter_eq_self.mpr fun t ht => ?_
  obtain ⟨instant, rfl⟩ := mem_history ht
  have hrange := instant.inRange.1
  rw [Instant.checkedSub] at hnone
  split_ifs at hnone with hsub
  change ¬ -(2 ^ 63 * 10 ^ 9) ≤ now.nanos - second at hsub
  rw [decide_eq_true_eq]
  omega

private theorem Remembers.panic (h : Remembers maxRps s outs) (hclock : s.clock ≤ now)
    (hnone : now.checkedSub oneSecond = none) :
    Remembers maxRps { s with clock := now } (outs ++ [(now, none)]) := by
  have hle : s.clock.nanos ≤ now.nanos := hclock
  have hsame : history (outs ++ [(now, none)]) = history outs := by
    rw [history_concat]
    exact List.append_nil _
  refine ⟨h.limit, ?_, ?_, h.size, hsame ▸ h.atMost⟩
  · rw [hsame]
    exact fun t ht => (h.past t ht).trans hle
  · rw [hsame, h.timestamps, filter_of_checkedSub_none hnone hle,
      filter_of_checkedSub_none hnone le_rfl]

private theorem Remembers.decide (h : Remembers maxRps s outs) (hclock : s.clock ≤ now)
    {limiter : RateLimiter} {allowed : Bool}
    (hcall : s.limiter.tryAcquire now = .ok (limiter, allowed)) :
    Remembers maxRps { limiter, clock := now } (outs ++ [(now, some allowed)]) ∧
      Decides maxRps outs (now, some allowed) := by
  have hle : s.clock.nanos ≤ now.nanos := hclock
  have hpast : ∀ t ∈ history outs, t ≤ now.nanos := fun t ht => (h.past t ht).trans hle
  have hlength := length_kept h hclock
  obtain ⟨hallowed, rfl⟩ := RateLimiter.tryAcquire_spec hcall
  rw [hlength, h.limit] at hallowed
  have hsecond : now.nanos - second < now.nanos := by
    have hpos : 0 < second := by decide
    omega
  have hdecides : Decides maxRps outs (now, some allowed) := by
    change allowed = true ↔ _
    rw [hallowed]
    exact decide_eq_true_iff
  refine ⟨?_, hdecides⟩
  cases allowed with
  | false =>
    have hsame : history (outs ++ [(now, some false)]) = history outs := by
      rw [history_concat]
      exact List.append_nil _
    refine ⟨h.limit, hsame ▸ hpast, ?_, ?_, hsame ▸ h.atMost⟩
    · rw [hsame]
      dsimp only
      rw [if_neg Bool.false_ne_true, List.append_nil, kept_eq h hclock]
    · dsimp only
      rw [if_neg Bool.false_ne_true, List.append_nil]
      exact (List.length_filter_le _ _).trans h.size
  | true =>
    have hroom : within second now.nanos (history outs) < maxRps.toNat :=
      of_decide_eq_true hallowed.symm
    have hmore : history (outs ++ [(now, some true)]) = history outs ++ [now.nanos] := by
      rw [history_concat, if_pos rfl]
    refine ⟨h.limit, ?_, ?_, ?_, ?_⟩
    · rw [hmore]
      intro t ht
      rcases List.mem_append.mp ht with ht | ht
      · exact hpast t ht
      · exact (List.mem_singleton.mp ht).le
    · rw [hmore, List.filter_append]
      dsimp only
      rw [if_pos rfl, List.map_append, kept_eq h hclock]
      simp [hsecond]
    · dsimp only
      rw [if_pos rfl, List.length_append, hlength]
      exact hroom
    · rw [hmore]
      refine h.atMost.concat ?_
      rwa [recent_eq_within hpast]

/-- The step lemma: one call decides by the history, and the list goes on to remember it. -/
theorem Remembers.step (h : Remembers maxRps s outs) {out : Instant × Option Bool}
    (hstep : s.step now = some (t, out)) :
    Remembers maxRps t (outs ++ [out]) ∧ Decides maxRps outs out := by
  rw [SequentialLimiter.step] at hstep
  split_ifs at hstep with hclock
  cases hcall : s.limiter.tryAcquire now with
  | error p =>
    have hnone : now.checkedSub oneSecond = none := by
      rw [RateLimiter.tryAcquire] at hcall
      cases hsub : now.checkedSub oneSecond with
      | none => rfl
      | some oneSecAgo =>
        rw [hsub] at hcall
        dsimp only at hcall
        split_ifs at hcall
    rw [hcall] at hstep
    obtain ⟨rfl, rfl⟩ := Prod.mk.inj (Option.some.inj hstep)
    exact ⟨h.panic hclock hnone, hnone⟩
  | ok r =>
    rw [hcall] at hstep
    obtain ⟨rfl, rfl⟩ := Prod.mk.inj (Option.some.inj hstep)
    exact h.decide hclock hcall

theorem remembers_start (maxRps : UInt32) (clock : Instant) :
    Remembers maxRps (start maxRps clock) [] where
  limit := rfl
  past := by simp [history]
  timestamps := rfl
  size := Nat.zero_le _
  atMost := atMost_nil _ _

theorem exists_run_of_isChain {calls : List Instant} {s : SequentialLimiter}
    (h : (s.clock :: calls).IsChain (· ≤ ·)) : ∃ t outs, run step s calls = some (t, outs) := by
  induction calls generalizing s with
  | nil => exact ⟨s, [], rfl⟩
  | cons now calls ih =>
    obtain ⟨hclock, hrest⟩ := List.isChain_cons_cons.mp h
    have hstep : ∃ m out, s.step now = some (m, out) ∧ m.clock = now := by
      rw [step, if_pos hclock]
      cases s.limiter.tryAcquire now with
      | error p => exact ⟨_, _, rfl, rfl⟩
      | ok r => exact ⟨_, _, rfl, rfl⟩
    obtain ⟨m, out, hm, rfl⟩ := hstep
    obtain ⟨t, outs, hrun⟩ := ih hrest
    exact ⟨t, out :: outs, run_cons_eq_some.mpr ⟨m, out, outs, hm, hrun, rfl⟩⟩

end SequentialLimiter

open SequentialLimiter

/-- The rate limiter refines its full history. Calls at readings that do not go back run to the
end; each decides by the number of calls that were allowed in the second before it, no window of a
second has more allowed calls than the limit, and neither has the list of timestamps. -/
theorem limiter_refines_history (maxRps : UInt32) (clock : Instant) (calls : List Instant) :
    ((clock :: calls).IsChain (· ≤ ·) →
        ∃ s outs, run SequentialLimiter.step (start maxRps clock) calls = some (s, outs)) ∧
      ∀ s outs, run SequentialLimiter.step (start maxRps clock) calls = some (s, outs) →
        (∀ before out after, outs = before ++ out :: after → Decides maxRps before out) ∧
          AtMost second maxRps.toNat (history outs) ∧
          s.limiter.timestamps.length ≤ maxRps.toNat := by
  refine ⟨fun h => exists_run_of_isChain h, ?_⟩
  intro s outs hrun
  have hs := remembers_start maxRps clock
  have hend : Remembers maxRps s outs :=
    run_history (fun s bs a t out hs hstep => (hs.step hstep).1) hrun hs
  refine ⟨?_, hend.atMost, hend.size⟩
  intro before out after hsplit
  subst hsplit
  obtain ⟨m, _, now, _, _, _, hbefore, hstep, _⟩ := exists_step_of_append hrun
  have hm : Remembers maxRps m before :=
    run_history (fun s bs a t out hs hstep => (hs.step hstep).1) hbefore hs
  exact (hm.step hstep).2

end Mockinx
