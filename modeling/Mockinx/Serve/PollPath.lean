import Mockinx.Lib.Run
import Mockinx.Serve.Engine

/-!
The paths of one poll of a delivery stream, each with all the checks that lead to it. Every fact
about what a poll does is read off these paths.
-/

set_option autoImplicit false
set_option relaxedAutoImplicit false

namespace Mockinx

open Lib

theorem reached_eq_true {deadline : Option Instant} {now : Instant} :
    reached deadline now = true ↔ ∃ d, deadline = some d ∧ d ≤ now := by
  cases deadline <;> simp [reached]

theorem reached_eq_false {deadline : Option Instant} {now : Instant} :
    reached deadline now = false ↔ ∀ d, deadline = some d → now.nanos < d.nanos := by
  cases deadline with
  | none => simp [reached]
  | some d =>
    simp only [reached, decide_eq_false_iff_not, Option.some.injEq, forall_eq']
    exact Int.not_le

namespace DeliveryStream

def firstDue (s : DeliveryStream) (env : PollEnv) : Option Instant :=
  if s.firstByteDone then none
  else s.firstByteDelay.map fun delay => s.sleep.getD (env.wakeAt env.firstStart delay)

def firstWait (s : DeliveryStream) (env : PollEnv) : Option Instant :=
  if env.firstReady then none else s.firstDue env

def afterFirst (s : DeliveryStream) : DeliveryStream :=
  { s with
    firstByteDone := true
    sleep := if s.firstByteDone || s.firstByteDelay.isNone then s.sleep else none }

def chunkDue (s : DeliveryStream) (env : PollEnv) : Option Instant :=
  if s.started then
    s.chunkDelay.map fun delay => s.sleep.getD (env.wakeAt env.chunkStart delay)
  else none

def chunkWait (s : DeliveryStream) (env : PollEnv) : Option Instant :=
  if env.chunkReady then none else s.chunkDue env

def afterChunk (s : DeliveryStream) : DeliveryStream :=
  { s with sleep := if s.started && s.chunkDelay.isSome then none else s.sleep }

def afterDelays (s : DeliveryStream) : DeliveryStream := s.afterFirst.afterChunk

structure Passes (s : DeliveryStream) (env : PollEnv) : Prop where
  notDropped : reached s.dropDeadline env.dropNow = false
  first : s.firstWait env = none
  chunk : s.afterFirst.chunkWait env = none

instance (s : DeliveryStream) (env : PollEnv) : Decidable (s.Passes env) :=
  decidable_of_iff (reached s.dropDeadline env.dropNow = false ∧ s.firstWait env = none ∧
      s.afterFirst.chunkWait env = none)
    ⟨fun ⟨h₁, h₂, h₃⟩ => ⟨h₁, h₂, h₃⟩, fun ⟨h₁, h₂, h₃⟩ => ⟨h₁, h₂, h₃⟩⟩

theorem not_passes_of_firstWait {s : DeliveryStream} {env : PollEnv} {wake : Instant}
    (h : s.firstWait env = some wake) : ¬ s.Passes env := by
  intro hpass
  rw [hpass.first] at h
  cases h

theorem not_passes_of_chunkWait {s : DeliveryStream} {env : PollEnv} {wake : Instant}
    (h : s.afterFirst.chunkWait env = some wake) : ¬ s.Passes env := by
  intro hpass
  rw [hpass.chunk] at h
  cases h

theorem firstDue_of_firstWait {s : DeliveryStream} {env : PollEnv} {wake : Instant}
    (h : s.firstWait env = some wake) : s.firstDue env = some wake := by
  rw [firstWait] at h
  split_ifs at h
  exact h

theorem chunkDue_of_chunkWait {s : DeliveryStream} {env : PollEnv} {wake : Instant}
    (h : s.chunkWait env = some wake) : s.chunkDue env = some wake := by
  rw [chunkWait] at h
  split_ifs at h
  exact h

theorem firstByteDone_of_firstDue {s : DeliveryStream} {env : PollEnv} {wake : Instant}
    (h : s.firstDue env = some wake) : s.firstByteDone = false := by
  rw [firstDue] at h
  split_ifs at h with hdone
  exact Bool.eq_false_of_not_eq_true hdone

private theorem started_of_chunkDue {s : DeliveryStream} {env : PollEnv} {wake : Instant}
    (h : s.chunkDue env = some wake) : s.started = true := by
  rw [chunkDue] at h
  split_ifs at h with hstarted
  exact hstarted

def hangs (s : DeliveryStream) (env : PollEnv) : Bool :=
  reached s.hangDeadline env.hangNow || s.hangAfterBytes.any (· ≤ s.offset)

def nextLen (s : DeliveryStream) : ℕ := min (s.effectiveLen - s.offset) s.chunkSize

def nextChunk (s : DeliveryStream) : List UInt8 := (s.body.drop s.offset).take s.nextLen

inductive PollPath (s : DeliveryStream) (env : PollEnv) :
    DeliveryStream × Poll (Option (List UInt8)) → Prop
  | dropped (hdrop : reached s.dropDeadline env.dropNow = true) : PollPath s env (s, .ready none)
  | awaitsFirst {wake : Instant} (hopen : reached s.dropDeadline env.dropNow = false)
      (hwait : s.firstWait env = some wake) :
      PollPath s env ({ s with sleep := some wake }, .pending (some wake))
  | awaitsChunk {wake : Instant} (hopen : reached s.dropDeadline env.dropNow = false)
      (hfirst : s.firstWait env = none) (hwait : s.afterFirst.chunkWait env = some wake) :
      PollPath s env ({ s.afterFirst with sleep := some wake }, .pending (some wake))
  | hangs (hpass : s.Passes env) (hhang : s.hangs env = true) :
      PollPath s env (s.afterDelays, .pending none)
  | finishes (hpass : s.Passes env) (hhang : s.hangs env = false)
      (hend : s.effectiveLen ≤ s.offset) : PollPath s env (s.afterDelays, .ready none)
  | droppedLate (hpass : s.Passes env) (hhang : s.hangs env = false)
      (hmore : s.offset < s.effectiveLen) (hdrop : reached s.dropDeadline env.lastNow = true) :
      PollPath s env (s.afterDelays, .ready none)
  | sends (hpass : s.Passes env) (hhang : s.hangs env = false)
      (hmore : s.offset < s.effectiveLen) (hdrop : reached s.dropDeadline env.lastNow = false) :
      PollPath s env ({ s.afterDelays with offset := s.offset + s.nextLen, started := true },
        .ready (some s.nextChunk))

theorem firstByteGate_eq (s : DeliveryStream) (env : PollEnv) :
    s.firstByteGate env =
      match s.firstWait env with
      | some wake => ({ s with sleep := some wake }, .pending (some wake))
      | none => (s.afterFirst, .ready ()) := by
  obtain ⟨body, offset, chunkSize, chunkDelay, dropAfterBytes, dropDeadline, hangAfterBytes,
    hangDeadline, firstByteDone, firstByteDelay, sleep, started⟩ := s
  rw [firstByteGate, firstWait, firstDue, afterFirst]
  cases firstByteDone with
  | true => simp
  | false => cases firstByteDelay <;> cases env.firstReady <;> simp

theorem chunkGate_eq (s : DeliveryStream) (env : PollEnv) :
    s.chunkGate env =
      match s.chunkWait env with
      | some wake => ({ s with sleep := some wake }, .pending (some wake))
      | none => (s.afterChunk, .ready ()) := by
  obtain ⟨body, offset, chunkSize, chunkDelay, dropAfterBytes, dropDeadline, hangAfterBytes,
    hangDeadline, firstByteDone, firstByteDelay, sleep, started⟩ := s
  rw [chunkGate, chunkWait, chunkDue, afterChunk]
  cases started with
  | false => simp
  | true => cases chunkDelay <;> cases env.chunkReady <;> simp

theorem effectiveLen_le (s : DeliveryStream) : s.effectiveLen ≤ s.body.length := by
  rw [effectiveLen]
  split
  · exact min_le_left _ _
  · exact le_rfl

private theorem slice_nextLen (s : DeliveryStream) (h : s.offset < s.effectiveLen) :
    slice s.body s.offset (s.offset + s.nextLen) = some s.nextChunk := by
  have hle := s.effectiveLen_le
  have hstop : s.offset ≤ s.offset + s.nextLen ∧ s.offset + s.nextLen ≤ s.body.length := by
    rw [nextLen]
    omega
  rw [slice, if_pos hstop, Nat.add_sub_cancel_left, nextChunk]

theorem yieldChunk_eq (s : DeliveryStream) (env : PollEnv) :
    s.yieldChunk env =
      if s.hangs env then .ok (s, .pending none)
      else if s.effectiveLen ≤ s.offset then .ok (s, .ready none)
      else if reached s.dropDeadline env.lastNow then .ok (s, .ready none)
      else .ok ({ s with offset := s.offset + s.nextLen, started := true },
        .ready (some s.nextChunk)) := by
  rw [yieldChunk, hangs]
  cases htime : reached s.hangDeadline env.hangNow with
  | true => simp
  | false =>
    cases hbytes : s.hangAfterBytes.any (· ≤ s.offset) with
    | true => simp
    | false =>
      by_cases hend : s.effectiveLen ≤ s.offset
      · simp [hend]
      · have hslice := s.slice_nextLen (not_le.mp hend)
        rw [nextLen] at hslice
        simp [hend, hslice, nextLen]

theorem pollNext_path (s : DeliveryStream) (env : PollEnv) :
    ∃ r, s.pollNext env = .ok r ∧ PollPath s env r := by
  rw [pollNext]
  cases hdrop : reached s.dropDeadline env.dropNow with
  | true => exact ⟨_, if_pos rfl, .dropped hdrop⟩
  | false =>
    rw [if_neg Bool.false_ne_true, firstByteGate_eq]
    cases hfirst : s.firstWait env with
    | some wake => exact ⟨_, rfl, .awaitsFirst hdrop hfirst⟩
    | none =>
      dsimp only
      rw [chunkGate_eq]
      cases hchunk : s.afterFirst.chunkWait env with
      | some wake => exact ⟨_, rfl, .awaitsChunk hdrop hfirst hchunk⟩
      | none =>
        have hpass : s.Passes env := ⟨hdrop, hfirst, hchunk⟩
        change ∃ r, s.afterDelays.yieldChunk env = .ok r ∧ PollPath s env r
        rw [yieldChunk_eq]
        split_ifs with hhang hend hlate
        · exact ⟨_, rfl, .hangs hpass hhang⟩
        · exact ⟨_, rfl, .finishes hpass (Bool.eq_false_of_not_eq_true hhang) hend⟩
        · exact ⟨_, rfl, .droppedLate hpass (Bool.eq_false_of_not_eq_true hhang)
            (not_le.mp hend) hlate⟩
        · exact ⟨_, rfl, .sends hpass (Bool.eq_false_of_not_eq_true hhang) (not_le.mp hend)
            (Bool.eq_false_of_not_eq_true hlate)⟩

structure Slotted (s : DeliveryStream) : Prop where
  started : s.started = true → s.firstByteDone = true
  idle : s.started = false → s.firstByteDone = true ∨ s.firstByteDelay = none → s.sleep = none

theorem Slotted.sleep_afterDelays {s : DeliveryStream} (h : s.Slotted) :
    s.afterDelays.sleep = none ∨ s.started = true ∧ s.chunkDelay = none := by
  change (if s.started && s.chunkDelay.isSome then none
    else if s.firstByteDone || s.firstByteDelay.isNone then s.sleep else none) = none ∨ _
  cases hstarted : s.started with
  | false =>
    left
    rw [Bool.false_and, if_neg Bool.false_ne_true]
    split_ifs with hfirst
    · rw [Bool.or_eq_true_iff, Option.isNone_iff_eq_none] at hfirst
      exact h.idle hstarted hfirst
    · rfl
  | true =>
    cases s.chunkDelay with
    | none => exact Or.inr ⟨rfl, rfl⟩
    | some delay => exact Or.inl rfl

theorem Slotted.path {s t : DeliveryStream} {env : PollEnv} {p : Poll (Option (List UInt8))}
    (h : s.Slotted) (hpath : PollPath s env (t, p)) : t.Slotted := by
  cases hpath with
  | dropped hdrop => exact h
  | awaitsFirst hopen hwait =>
    have hdue := firstDue_of_firstWait hwait
    rw [firstDue] at hdue
    split_ifs at hdue with hdone
    obtain ⟨delay, hsome, _⟩ := Option.map_eq_some_iff.mp hdue
    refine ⟨h.started, fun _ hidle => ?_⟩
    rcases hidle with hdone' | hnone
    · exact absurd hdone' hdone
    · cases hnone.symm.trans hsome
  | awaitsChunk hopen hfirst hwait =>
    have hstarted : s.afterFirst.started = true :=
      started_of_chunkDue (chunkDue_of_chunkWait hwait)
    refine ⟨fun _ => rfl, fun hnot => ?_⟩
    cases hstarted.symm.trans hnot
  | hangs | finishes | droppedLate =>
    refine ⟨fun _ => rfl, fun hnot _ => h.sleep_afterDelays.resolve_right ?_⟩
    rintro ⟨hstarted, _⟩
    cases hstarted.symm.trans hnot
  | sends => exact ⟨fun _ => rfl, fun hnot => Bool.noConfusion hnot⟩

end DeliveryStream

end Mockinx
