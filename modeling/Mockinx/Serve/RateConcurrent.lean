import Mathlib.Algebra.Order.Group.Int
import Mockinx.Lib.Run
import Mockinx.Lib.Window
import Mockinx.Serve.Runtime

/-!
Calls of one rate limiter that run at the same time. A call reads the clock before it takes the
lock, so the calls can decide in another order than that of their readings; the timestamps that
they prune are recorded beside the limiter.
-/

set_option autoImplicit false
set_option relaxedAutoImplicit false

namespace Mockinx

open Lib Lib.Run

/-- The width of the window, on the clock's scale. -/
def second : ℤ := oneSecond.nanos

namespace RateLimiter

def kept (l : RateLimiter) (now : Instant) : List Instant :=
  l.timestamps.filter fun t => now.nanos - second < t.nanos

def pruned (l : RateLimiter) (now : Instant) : List Instant :=
  l.timestamps.filter fun t => !decide (now.nanos - second < t.nanos)

private theorem kept_append_pruned (l : RateLimiter) (now : Instant) :
    (l.kept now ++ l.pruned now).Perm l.timestamps :=
  List.filter_append_perm _ _

private theorem recent_timestamps (l : RateLimiter) (now : Instant) :
    recent second now.nanos (l.timestamps.map Instant.nanos) = (l.kept now).length := by
  rw [recent, List.countP_map, List.countP_eq_length_filter]
  rfl

theorem tryAcquire_spec {l l' : RateLimiter} {now : Instant} {allowed : Bool}
    (h : l.tryAcquire now = .ok (l', allowed)) :
    allowed = decide ((l.kept now).length < l.maxRps.toNat) ∧
      l' = { l with timestamps := l.kept now ++ if allowed then [now] else [] } := by
  rw [tryAcquire, Instant.checkedSub] at h
  split_ifs at h with hrange
  · dsimp only at h
    change (if (l.kept now).length < l.maxRps.toNat then
      Except.ok ({ l with timestamps := l.kept now ++ [now] }, true)
      else Except.ok ({ l with timestamps := l.kept now }, false)) = _ at h
    split_ifs at h with hroom
    · obtain ⟨rfl, rfl⟩ := Prod.mk.inj (Except.ok.inj h)
      exact ⟨(decide_eq_true hroom).symm, rfl⟩
    · obtain ⟨rfl, rfl⟩ := Prod.mk.inj (Except.ok.inj h)
      refine ⟨(decide_eq_false hroom).symm, ?_⟩
      rw [if_neg Bool.false_ne_true, List.append_nil]

end RateLimiter

/-- A limiter with the clock, the calls that have read it and not decided yet, and the timestamps
pruned so far. -/
structure RateState (κ : Type) where
  clock : Instant
  limiter : RateLimiter
  reading : κ → Option Instant
  pruned : List Instant

/-- A call reads the clock, or takes the lock and decides. -/
inductive RateAction (κ : Type) where
  | read (k : κ) (now : Instant)
  | decide (k : κ)

variable {κ : Type}

namespace RateState

def start (maxRps : UInt32) (clock : Instant) : RateState κ where
  clock := clock
  limiter := .new maxRps
  reading := fun _ => none
  pruned := []

/-- One step of a call; an allowed call puts out its reading. A reading that has no instant a second
before it makes the call panic before it takes the lock. -/
def step [DecidableEq κ] (s : RateState κ) : RateAction κ → Option (RateState κ × Option Instant)
  | .read k now =>
    if s.clock ≤ now ∧ s.reading k = none then
      some ({ s with clock := now, reading := Function.update s.reading k (some now) }, none)
    else none
  | .decide k =>
    (s.reading k).map fun now =>
      let reading := Function.update s.reading k none
      match s.limiter.tryAcquire now with
      | .ok (limiter, allowed) =>
        ({ s with limiter, reading, pruned := s.pruned ++ s.limiter.pruned now },
          if allowed then some now else none)
      | .error _ => ({ s with reading }, none)

/-- A deciding call that finds room in the list would find room with everything still in the list
that was pruned so far and is less than a second before its reading. -/
def CountsRight (s : RateState κ) : RateAction κ → Prop
  | .read _ _ => True
  | .decide k => ∀ now ∈ s.reading k,
    recent second now.nanos (s.limiter.timestamps.map Instant.nanos) < s.limiter.maxRps.toNat →
      recent second now.nanos ((s.pruned ++ s.limiter.timestamps).map Instant.nanos) <
        s.limiter.maxRps.toNat

instance (s : RateState κ) (a : RateAction κ) : Decidable (s.CountsRight a) :=
  match a with
  | .read _ _ => isTrue trivial
  | .decide k => inferInstanceAs (Decidable (∀ now ∈ s.reading k, _ → _))

/-- The readings of the allowed calls, in the order in which they were allowed. -/
def allowed (outs : List (Option Instant)) : List Instant := outs.filterMap id

structure Limited (maxRps : UInt32) (s : RateState κ) (outs : List (Option Instant)) : Prop where
  limit : s.limiter.maxRps = maxRps
  log : (allowed outs).Perm (s.pruned ++ s.limiter.timestamps)
  atMost : AtMost second maxRps.toNat ((allowed outs).map Instant.nanos)

private theorem Limited.skip {maxRps : UInt32} {s t : RateState κ} {outs : List (Option Instant)}
    (h : Limited maxRps s outs) (hlimiter : t.limiter = s.limiter) (hpruned : t.pruned = s.pruned) :
    Limited maxRps t (outs ++ [none]) := by
  have hallowed : allowed (outs ++ [none]) = allowed outs := by
    rw [allowed, List.filterMap_append]
    exact List.append_nil _
  refine ⟨hlimiter ▸ h.limit, ?_, hallowed ▸ h.atMost⟩
  rw [hallowed, hlimiter, hpruned]
  exact h.log

private theorem Limited.decide {maxRps : UInt32} {s : RateState κ} {outs : List (Option Instant)}
    {k : κ} {now : Instant} {l' : RateLimiter} {ok : Bool} (h : Limited maxRps s outs)
    (hread : s.reading k = some now) (hcall : s.limiter.tryAcquire now = .ok (l', ok))
    (hright : s.CountsRight (.decide k)) (reading : κ → Option Instant) :
    Limited maxRps { s with limiter := l', reading, pruned := s.pruned ++ s.limiter.pruned now }
      (outs ++ [if ok then some now else none]) := by
  obtain ⟨hok, rfl⟩ := RateLimiter.tryAcquire_spec hcall
  have hallowed : allowed (outs ++ [if ok then some now else none]) =
      allowed outs ++ if ok then [now] else [] := by
    rw [allowed, List.filterMap_append]
    cases ok <;> rfl
  refine ⟨h.limit, ?_, ?_⟩
  · rw [hallowed]
    dsimp only
    have hsplit : (s.pruned ++ s.limiter.timestamps).Perm
        (s.pruned ++ s.limiter.pruned now ++ s.limiter.kept now) := by
      rw [List.append_assoc]
      exact (((s.limiter.kept_append_pruned now).symm.trans List.perm_append_comm).append_left _)
    rw [← List.append_assoc]
    exact (h.log.trans hsplit).append_right _
  · rw [hallowed]
    cases ok with
    | false =>
      rw [if_neg Bool.false_ne_true, List.append_nil]
      exact h.atMost
    | true =>
      rw [if_pos rfl, List.map_append]
      refine h.atMost.concat ?_
      have hroom := of_decide_eq_true hok.symm
      rw [← RateLimiter.recent_timestamps] at hroom
      have hfull := hright now hread hroom
      rwa [recent_perm (h.log.map Instant.nanos), ← h.limit]

private theorem Limited.step [DecidableEq κ] {maxRps : UInt32} {s t : RateState κ}
    {outs : List (Option Instant)}
    {a : RateAction κ} {out : Option Instant} (h : Limited maxRps s outs)
    (hstep : s.step a = some (t, out)) (hright : s.CountsRight a) :
    Limited maxRps t (outs ++ [out]) := by
  cases a with
  | read k now =>
    rw [RateState.step] at hstep
    split_ifs at hstep
    obtain ⟨rfl, rfl⟩ := Prod.mk.inj (Option.some.inj hstep)
    exact h.skip rfl rfl
  | decide k =>
    obtain ⟨now, hread, heq⟩ := Option.map_eq_some_iff.mp hstep
    cases hcall : s.limiter.tryAcquire now with
    | error p =>
      rw [hcall] at heq
      obtain ⟨rfl, rfl⟩ := Prod.mk.inj heq
      exact h.skip rfl rfl
    | ok r =>
      rw [hcall] at heq
      obtain ⟨rfl, rfl⟩ := Prod.mk.inj heq
      exact h.decide hread hcall hright _

def EarliestFirst (s : RateState κ) : RateAction κ → Prop
  | .read _ _ => True
  | .decide k => ∀ now ∈ s.reading k, ∀ k', ∀ now' ∈ s.reading k', now.nanos ≤ now'.nanos

structure Settled (s : RateState κ) : Prop where
  readings : ∀ k, ∀ now ∈ s.reading k, now.nanos ≤ s.clock.nanos
  clock : ∀ t ∈ s.pruned, t.nanos + second ≤ s.clock.nanos
  pruned : ∀ t ∈ s.pruned, ∀ k, ∀ now ∈ s.reading k, t.nanos + second ≤ now.nanos

private theorem Settled.countsRight {s : RateState κ} (h : s.Settled) (a : RateAction κ) :
    s.CountsRight a := by
  cases a with
  | read k now => trivial
  | decide k =>
    intro now hread hroom
    have hnone : recent second now.nanos (s.pruned.map Instant.nanos) = 0 := by
      rw [recent, List.countP_eq_zero]
      intro t ht
      obtain ⟨t, hmem, rfl⟩ := List.mem_map.mp ht
      have hold := h.pruned t hmem k now hread
      rw [decide_eq_true_eq]
      omega
    rwa [List.map_append, recent_append, hnone, Nat.zero_add]

private theorem Settled.step [DecidableEq κ] {s t : RateState κ} {a : RateAction κ}
    {out : Option Instant} (h : s.Settled) (hstep : s.step a = some (t, out))
    (horder : s.EarliestFirst a) : t.Settled := by
  cases a with
  | read k now =>
    rw [RateState.step] at hstep
    split_ifs at hstep with hguard
    obtain ⟨rfl, _⟩ := Prod.mk.inj (Option.some.inj hstep)
    have hclock : s.clock.nanos ≤ now.nanos := hguard.1
    refine ⟨?_, fun t ht => (h.clock t ht).trans hclock, ?_⟩
    · refine (Function.forall_update_iff _
        fun _ (r : Option Instant) => ∀ n ∈ r, n.nanos ≤ now.nanos).mpr ⟨?_, ?_⟩
      · simp
      · exact fun k' _ n hn => (h.readings k' n hn).trans hclock
    · intro t ht
      refine (Function.forall_update_iff _
        fun _ (r : Option Instant) => ∀ n ∈ r, t.nanos + second ≤ n.nanos).mpr ⟨?_, ?_⟩
      · simpa using (h.clock t ht).trans hclock
      · exact fun k' _ => h.pruned t ht k'
  | decide k =>
    obtain ⟨now, hread, heq⟩ := Option.map_eq_some_iff.mp hstep
    -- the readings that are left were there before
    have hleft : ∀ k', ∀ n ∈ Function.update s.reading k none k', n ∈ s.reading k' := by
      refine (Function.forall_update_iff _
        fun k' (r : Option Instant) => ∀ n ∈ r, n ∈ s.reading k').mpr ⟨?_, ?_⟩
      · simp
      · exact fun k' _ n hn => hn
    cases hcall : s.limiter.tryAcquire now with
    | error p =>
      rw [hcall] at heq
      obtain ⟨rfl, _⟩ := Prod.mk.inj heq
      exact ⟨fun k' n hn => h.readings k' n (hleft k' n hn), h.clock,
        fun t ht k' n hn => h.pruned t ht k' n (hleft k' n hn)⟩
    | ok r =>
      rw [hcall] at heq
      obtain ⟨rfl, _⟩ := Prod.mk.inj heq
      have hnow := h.readings k now hread
      have hold : ∀ t ∈ s.limiter.pruned now, t.nanos + second ≤ now.nanos := by
        intro t ht
        have hnot := (List.mem_filter.mp ht).2
        simp only [Bool.not_eq_true', decide_eq_false_iff_not] at hnot
        omega
      refine ⟨fun k' n hn => h.readings k' n (hleft k' n hn), ?_, ?_⟩
      · intro t ht
        rcases List.mem_append.mp ht with ht | ht
        · exact h.clock t ht
        · exact (hold t ht).trans hnow
      · intro t ht k' n hn
        rcases List.mem_append.mp ht with ht | ht
        · exact h.pruned t ht k' n (hleft k' n hn)
        · exact (hold t ht).trans (horder now hread k' n (hleft k' n hn))

/-- Calls that decide in the order of their readings count right. -/
theorem along_countsRight [DecidableEq κ] {maxRps : UInt32} {clock : Instant}
    {actions : List (RateAction κ)}
    (horder : Along RateState.step (fun s a _ => s.EarliestFirst a) (start maxRps clock) actions) :
    Along RateState.step (fun s a _ => s.CountsRight a) (start maxRps clock) actions := by
  have hstart : (start maxRps clock : RateState κ).Settled := by
    constructor <;> simp [start]
  exact along_of_inv (fun s a r hs hstep hc => ⟨hs.countsRight a, hs.step hstep hc⟩) hstart horder

end RateState

open RateState

/-- The rate limit holds in every run of calls, in any order, whose decisions count right: no
window of a second has more allowed calls than the limit. -/
theorem rate_limited_of_counts_right [DecidableEq κ] {maxRps : UInt32} {clock : Instant}
    {actions : List (RateAction κ)} {s : RateState κ} {outs : List (Option Instant)}
    (hrun : run RateState.step (start maxRps clock) actions = some (s, outs))
    (hright : Along RateState.step (fun s a _ => s.CountsRight a) (start maxRps clock) actions) :
    AtMost second maxRps.toNat ((allowed outs).map Instant.nanos) := by
  have hstart : Limited maxRps (start maxRps clock : RateState κ) [] :=
    ⟨rfl, List.Perm.refl _, atMost_nil _ _⟩
  exact (run_history_of_along (fun s bs a t out hs hstep hc => hs.step hstep hc) hright hrun
    hstart).atMost

theorem rate_limited_a_second_apart :
    let later : Instant := ⟨1000000000, by decide⟩
    let actions : List (RateAction ℕ) := [.read 0 .zero, .decide 0, .read 1 later, .decide 1]
    ∃ s outs, run RateState.step (start 1 .zero) actions = some (s, outs) ∧
      allowed outs = [.zero, later] ∧ AtMost second 1 ((allowed outs).map Instant.nanos) := by
  intro later actions
  have hrun : run RateState.step (start 1 .zero) actions = some (_, _) := rfl
  exact ⟨_, _, hrun, rfl, rate_limited_of_counts_right hrun (by decide)⟩

/-- A limit of two: two calls at zero, one that reads the clock at 0.9 s, and one that reads it at
1 s and decides before that, pruning the first two. -/
theorem three_allowed_in_a_second :
    let late : Instant := ⟨900000000, by decide⟩
    let later : Instant := ⟨1000000000, by decide⟩
    let actions : List (RateAction ℕ) := [.read 0 .zero, .decide 0, .read 1 .zero, .decide 1,
      .read 2 late, .read 3 later, .decide 3, .decide 2]
    ∃ s outs, run RateState.step (start 2 .zero) actions = some (s, outs) ∧
      allowed outs = [.zero, .zero, later, late] ∧
      ¬ AtMost second 2 ((allowed outs).map Instant.nanos) := by
  intro late later actions
  refine ⟨_, _, rfl, rfl, fun h => ?_⟩
  exact absurd (h 0) (by decide)

end Mockinx
