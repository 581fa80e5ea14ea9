import Mockinx.Serve.PaceTarget

/-!
The timetable of a delivery. Polled at its wake-ups on an ideal clock, a stream sends one chunk
after each delay until a limit or a deadline is met, and what is met decides how it stops.
-/

set_option autoImplicit false
set_option relaxedAutoImplicit false

namespace Mockinx

open Lib

namespace DeliveryStream

inductive Stop where
  | ended
  | hung
  deriving DecidableEq

/-- What a client receives and when, and how and when that stops. -/
structure Reception where
  sent : List (Instant × List UInt8)
  stop : Stop
  time : Instant

/-- Polled from an instant on, at once after a chunk and otherwise at the wake-up, the stream gives
a reception, all of it before the end of the clock. -/
inductive Gives (clockEnd : Instant) : DeliveryStream → Instant → Reception → Prop
  | ends {s t : DeliveryStream} {now : Instant} (hnow : now < clockEnd)
      (hpoll : s.pollNext (s.idealEnv clockEnd now) = .ok (t, .ready none)) :
      Gives clockEnd s now ⟨[], .ended, now⟩
  | hangs {s t : DeliveryStream} {now : Instant} (hnow : now < clockEnd)
      (hpoll : s.pollNext (s.idealEnv clockEnd now) = .ok (t, .pending none)) :
      Gives clockEnd s now ⟨[], .hung, now⟩
  | sends {s t : DeliveryStream} {now : Instant} {chunk : List UInt8} {r : Reception}
      (hnow : now < clockEnd)
      (hpoll : s.pollNext (s.idealEnv clockEnd now) = .ok (t, .ready (some chunk)))
      (hrest : Gives clockEnd t now r) :
      Gives clockEnd s now { r with sent := (now, chunk) :: r.sent }
  | sleeps {s t : DeliveryStream} {now wake : Instant} {r : Reception} (hnow : now < clockEnd)
      (hpoll : s.pollNext (s.idealEnv clockEnd now) = .ok (t, .pending (some wake)))
      (hrest : Gives clockEnd t wake r) : Gives clockEnd s now r

variable {clockEnd now wake : Instant} {s t : DeliveryStream} {r : Reception}

private theorem Gives.now_lt (h : Gives clockEnd s now r) : now < clockEnd := by
  cases h <;> assumption

private theorem gives_iff_of_end (hnow : now < clockEnd)
    (hpoll : s.pollNext (s.idealEnv clockEnd now) = .ok (t, .ready none)) :
    Gives clockEnd s now r ↔ r = ⟨[], .ended, now⟩ := by
  constructor
  · intro h
    cases h with
    | ends => rfl
    | hangs _ hpoll' | sends _ hpoll' | sleeps _ hpoll' => cases hpoll.symm.trans hpoll'
  · rintro rfl
    exact .ends hnow hpoll

private theorem gives_iff_of_hang (hnow : now < clockEnd)
    (hpoll : s.pollNext (s.idealEnv clockEnd now) = .ok (t, .pending none)) :
    Gives clockEnd s now r ↔ r = ⟨[], .hung, now⟩ := by
  constructor
  · intro h
    cases h with
    | hangs => rfl
    | ends _ hpoll' | sends _ hpoll' | sleeps _ hpoll' => cases hpoll.symm.trans hpoll'
  · rintro rfl
    exact .hangs hnow hpoll

private theorem gives_iff_of_chunk {chunk : List UInt8} (hnow : now < clockEnd)
    (hpoll : s.pollNext (s.idealEnv clockEnd now) = .ok (t, .ready (some chunk))) :
    Gives clockEnd s now r ↔
      ∃ rest, r = { rest with sent := (now, chunk) :: rest.sent } ∧ Gives clockEnd t now rest := by
  constructor
  · intro h
    cases h with
    | sends _ hpoll' hrest =>
      cases hpoll.symm.trans hpoll'
      exact ⟨_, rfl, hrest⟩
    | ends _ hpoll' | hangs _ hpoll' | sleeps _ hpoll' => cases hpoll.symm.trans hpoll'
  · rintro ⟨rest, rfl, hrest⟩
    exact .sends hnow hpoll hrest

private theorem gives_iff_of_wake (hnow : now < clockEnd)
    (hpoll : s.pollNext (s.idealEnv clockEnd now) = .ok (t, .pending (some wake))) :
    Gives clockEnd s now r ↔ Gives clockEnd t wake r := by
  constructor
  · intro h
    cases h with
    | sleeps _ hpoll' hrest =>
      cases hpoll.symm.trans hpoll'
      exact hrest
    | ends _ hpoll' | hangs _ hpoll' | sends _ hpoll' => cases hpoll.symm.trans hpoll'
  · exact .sleeps hnow hpoll

def gate (s : DeliveryStream) : Option Duration :=
  if s.started then s.chunkDelay else s.firstByteDelay

structure Rests (s : DeliveryStream) : Prop where
  sleep : s.sleep = none
  firstByteDone : s.firstByteDone = s.started

def passed (s : DeliveryStream) : DeliveryStream :=
  { s with firstByteDone := true, sleep := none }

def arrival (s : DeliveryStream) (now : Instant) :
    DeliveryStream × Poll (Option (List UInt8)) :=
  if reached s.hangDeadline now || s.hangAfterBytes.any (· ≤ s.offset) then
    (s.passed, .pending none)
  else if s.effectiveLen ≤ s.offset then (s.passed, .ready none)
  else (s.startedAt (s.offset + s.nextLen) none, .ready (some s.nextChunk))

def asleep (s : DeliveryStream) (sleep : Option Instant) : DeliveryStream := { s with sleep }

private theorem yieldChunk_passed {env : PollEnv} (hhang : env.hangNow = now)
    (hlast : env.lastNow = now) (hopen : reached s.dropDeadline now = false) :
    s.passed.yieldChunk env = .ok (s.arrival now) := by
  rw [yieldChunk_eq, arrival, DeliveryStream.hangs, hhang, hlast]
  change (if (reached s.hangDeadline now || s.hangAfterBytes.any (· ≤ s.offset)) = true then _
    else if s.effectiveLen ≤ s.offset then _
    else if reached s.dropDeadline now = true then _ else _) = _
  rw [hopen, if_neg Bool.false_ne_true]
  split_ifs <;> rfl

private theorem Rests.poll_asleep (h : s.Rests) {delay : Duration} (hgate : s.gate = some delay)
    (sleep : Option Instant) (hopen : reached s.dropDeadline now = false) :
    (s.asleep sleep).pollNext ((s.asleep sleep).idealEnv clockEnd now) =
      if wakeOf clockEnd delay sleep now ≤ now then .ok (s.arrival now)
      else .ok (s.asleep (some (wakeOf clockEnd delay sleep now)),
        .pending (some (wakeOf clockEnd delay sleep now))) := by
  generalize henv : (s.asleep sleep).idealEnv clockEnd now = env
  have hyield : s.passed.yieldChunk env = .ok (s.arrival now) :=
    yieldChunk_passed (by rw [← henv]; rfl) (by rw [← henv]; rfl) hopen
  rw [← hyield, pollNext, show reached (s.asleep sleep).dropDeadline env.dropNow = false by
    rw [← henv]; exact hopen, if_neg Bool.false_ne_true]
  obtain ⟨body, offset, chunkSize, chunkDelay, dropAfterBytes, dropDeadline, hangAfterBytes,
    hangDeadline, firstByteDone, firstByteDelay, sleep', started⟩ := s
  obtain rfl : firstByteDone = started := h.firstByteDone
  cases firstByteDone with
  | false =>
    obtain rfl : firstByteDelay = some delay := hgate
    have hready : env.firstReady = decide (wakeOf clockEnd delay sleep now ≤ now) := by
      rw [← henv]
      rfl
    have hwake : sleep.getD (env.wakeAt env.firstStart delay) =
        wakeOf clockEnd delay sleep now := by
      rw [← henv]
      rfl
    rw [firstByteGate, if_neg (by simp [asleep])]
    simp only [asleep, hwake, hready, decide_eq_true_eq]
    split_ifs <;> rfl
  | true =>
    obtain rfl : chunkDelay = some delay := hgate
    have hready : env.chunkReady = decide (wakeOf clockEnd delay sleep now ≤ now) := by
      rw [← henv]
      rfl
    have hwake : sleep.getD (env.wakeAt env.chunkStart delay) =
        wakeOf clockEnd delay sleep now := by
      rw [← henv]
      rfl
    rw [firstByteGate, if_pos (by simp [asleep])]
    dsimp only
    rw [chunkGate, if_pos (by simp [asleep])]
    simp only [asleep, hwake, hready, decide_eq_true_eq]
    split_ifs <;> rfl

private theorem Rests.poll_awake (h : s.Rests) (hgate : s.gate = none)
    (hopen : reached s.dropDeadline now = false) :
    s.pollNext (s.idealEnv clockEnd now) = .ok (s.arrival now) := by
  generalize henv : s.idealEnv clockEnd now = env
  have hyield : s.passed.yieldChunk env = .ok (s.arrival now) :=
    yieldChunk_passed (by rw [← henv]; rfl) (by rw [← henv]; rfl) hopen
  rw [← hyield, pollNext, show reached s.dropDeadline env.dropNow = false by
    rw [← henv]; exact hopen, if_neg Bool.false_ne_true]
  obtain ⟨body, offset, chunkSize, chunkDelay, dropAfterBytes, dropDeadline, hangAfterBytes,
    hangDeadline, firstByteDone, firstByteDelay, sleep, started⟩ := s
  obtain rfl : firstByteDone = started := h.firstByteDone
  obtain rfl : sleep = none := h.sleep
  cases firstByteDone with
  | false =>
    obtain rfl : firstByteDelay = none := hgate
    rfl
  | true =>
    obtain rfl : chunkDelay = none := hgate
    rfl

def Arrives (clockEnd : Instant) (s : DeliveryStream) (now : Instant) (r : Reception) : Prop :=
  if reached s.dropDeadline now then r = ⟨[], .ended, now⟩
  else if reached s.hangDeadline now || s.hangAfterBytes.any (· ≤ s.offset) then
    r = ⟨[], .hung, now⟩
  else if s.effectiveLen ≤ s.offset then r = ⟨[], .ended, now⟩
  else ∃ rest, r = { rest with sent := (now, s.nextChunk) :: rest.sent } ∧
    Gives clockEnd (s.startedAt (s.offset + s.nextLen) none) now rest

private theorem gives_iff_arrives {u : DeliveryStream} (hnow : now < clockEnd)
    (hopen : reached s.dropDeadline now = false)
    (hpoll : u.pollNext (u.idealEnv clockEnd now) = .ok (s.arrival now)) :
    Gives clockEnd u now r ↔ s.Arrives clockEnd now r := by
  rw [Arrives, hopen, if_neg Bool.false_ne_true]
  rw [arrival] at hpoll
  split_ifs at hpoll ⊢
  · exact gives_iff_of_hang hnow hpoll
  · exact gives_iff_of_end hnow hpoll
  · exact gives_iff_of_chunk hnow hpoll

def wait (s : DeliveryStream) : ℕ :=
  match s.gate with
  | some delay => delay.nanos
  | none => 0

private theorem gives_iff_of_dropped (hnow : now < clockEnd)
    (hdrop : reached s.dropDeadline now = true) :
    Gives clockEnd s now r ↔ r = ⟨[], .ended, now⟩ :=
  gives_iff_of_end (t := s) hnow (if_pos hdrop)

private theorem Rests.gives_awake_iff (h : s.Rests) {delay : Duration} (hgate : s.gate = some delay)
    {sleep : Option Instant} (hnow : now < clockEnd)
    (hover : wakeOf clockEnd delay sleep now ≤ now) :
    Gives clockEnd (s.asleep sleep) now r ↔ s.Arrives clockEnd now r := by
  cases hdrop : reached s.dropDeadline now with
  | true =>
    have hended : Gives clockEnd (s.asleep sleep) now r ↔ r = ⟨[], .ended, now⟩ :=
      gives_iff_of_dropped hnow hdrop
    rw [hended, Arrives, if_pos hdrop]
  | false =>
    have hpoll := @Rests.poll_asleep clockEnd now s h delay hgate sleep hdrop
    rw [if_pos hover] at hpoll
    exact gives_iff_arrives hnow hdrop hpoll

private theorem Rests.gives_asleep_iff (h : s.Rests) {delay : Duration}
    (hgate : s.gate = some delay)
    {sleep : Option Instant} (hnow : now < clockEnd) (hopen : reached s.dropDeadline now = false)
    (hover : ¬ wakeOf clockEnd delay sleep now ≤ now) :
    Gives clockEnd (s.asleep sleep) now r ↔
      Gives clockEnd (s.asleep (some (wakeOf clockEnd delay sleep now)))
        (wakeOf clockEnd delay sleep now) r := by
  have hpoll := @Rests.poll_asleep clockEnd now s h delay hgate sleep hopen
  rw [if_neg hover] at hpoll
  exact gives_iff_of_wake hnow hpoll

private theorem exists_instant_iff {P : Instant → Prop} {time : ℤ} (h : wake.nanos = time) :
    (∃ w : Instant, w.nanos = time ∧ P w) ↔ P wake := by
  constructor
  · rintro ⟨w, hw, hP⟩
    rwa [← Instant.eq_of_nanos (hw.trans h.symm)]
  · exact fun hP => ⟨wake, h, hP⟩

/-- The step lemma: the delay passes, if the clock has room for it, and the stream arrives at its
next chunk. -/
private theorem Rests.gives_iff (h : s.Rests) (hnow : now < clockEnd)
    (hopen : reached s.dropDeadline now = false) :
    Gives clockEnd s now r ↔
      ∃ wake : Instant, wake.nanos = now.nanos + s.wait ∧ wake < clockEnd ∧
        s.Arrives clockEnd wake r := by
  cases hgate : s.gate with
  | none =>
    have hwait : now.nanos = now.nanos + s.wait := by simp [wait, hgate]
    rw [gives_iff_arrives hnow hopen (h.poll_awake hgate hopen), exists_instant_iff hwait,
      and_iff_right hnow]
  | some delay =>
    have hwait : s.wait = delay.nanos := by rw [wait, hgate]
    have hself : s.asleep none = s := by rw [asleep, ← h.sleep]
    rw [hwait]
    cases hadd : now.checkedAdd delay with
    | none =>
      have hwake : wakeOf clockEnd delay none now = clockEnd := wakeOf_of_no_room hadd
      have hlate : ¬ wakeOf clockEnd delay none now ≤ now := by
        rw [hwake]
        exact Instant.not_le.mpr hnow
      have hwaits := @Rests.gives_asleep_iff clockEnd now s r h delay hgate none hnow hopen hlate
      rw [hself, hwake] at hwaits
      rw [hwaits]
      constructor
      · intro hgives
        exact absurd hgives.now_lt (Instant.lt_irrefl _)
      · rintro ⟨wake, hnanos, _⟩
        rw [Instant.checkedAdd_eq_some.mpr hnanos] at hadd
        cases hadd
    | some wake =>
      have hnanos := Instant.checkedAdd_eq_some.mp hadd
      have hwake : wakeOf clockEnd delay none now = wake := wakeOf_of_room hadd
      rw [exists_instant_iff hnanos]
      by_cases hzero : wake ≤ now
      · -- without a delay the same poll goes on
        have hle : wake.nanos ≤ now.nanos := hzero
        obtain rfl : wake = now := Instant.eq_of_nanos (by omega)
        have hawake := @Rests.gives_awake_iff clockEnd wake s r h delay hgate none hnow
          (hwake.symm ▸ hzero)
        rw [hself] at hawake
        rw [hawake, and_iff_right hnow]
      · have hwaits := @Rests.gives_asleep_iff clockEnd now s r h delay hgate none hnow hopen
          (hwake.symm ▸ hzero)
        rw [hself, hwake] at hwaits
        have hover : wakeOf clockEnd delay (some wake) wake ≤ wake := Int.le_refl wake.nanos
        rw [hwaits]
        constructor
        · intro hgives
          have hroom := hgives.now_lt
          exact ⟨hroom, (h.gives_awake_iff hgate hroom hover).mp hgives⟩
        · rintro ⟨hroom, harrives⟩
          exact (h.gives_awake_iff hgate hroom hover).mpr harrives

def delayNanos : Option Duration → ℕ
  | some delay => delay.nanos
  | none => 0

def sentBefore (s : DeliveryStream) (k : ℕ) : ℕ := min (k * s.chunkSize) s.effectiveLen

def piece (s : DeliveryStream) (k : ℕ) : List UInt8 :=
  (s.body.take (s.sentBefore (k + 1))).drop (s.sentBefore k)

/-- When the `k`-th chunk is due: after the delay before the first byte and `k` delays between
chunks. -/
def dueAt (s : DeliveryStream) (start : Instant) (k : ℕ) : ℤ :=
  start.nanos + delayNanos s.firstByteDelay + k * delayNanos s.chunkDelay

def DropsAt (s : DeliveryStream) (time : ℤ) : Prop := ∃ d ∈ s.dropDeadline, d.nanos ≤ time

def HangsAt (s : DeliveryStream) (time : ℤ) (k : ℕ) : Prop :=
  (∃ d ∈ s.hangDeadline, d.nanos ≤ time) ∨ ∃ n ∈ s.hangAfterBytes, n ≤ s.sentBefore k

instance (s : DeliveryStream) (time : ℤ) : Decidable (s.DropsAt time) :=
  inferInstanceAs (Decidable (∃ d ∈ s.dropDeadline, d.nanos ≤ time))

instance (s : DeliveryStream) (time : ℤ) (k : ℕ) : Decidable (s.HangsAt time k) :=
  inferInstanceAs (Decidable (_ ∨ _))

/-- The stream stops instead of sending its `k`-th chunk. -/
def StopsAt (s : DeliveryStream) (start : Instant) (k : ℕ) : Prop :=
  s.DropsAt (s.dueAt start k) ∨ s.HangsAt (s.dueAt start k) k ∨ s.effectiveLen ≤ s.sentBefore k

instance (s : DeliveryStream) (start : Instant) (k : ℕ) : Decidable (s.StopsAt start k) :=
  inferInstanceAs (Decidable (_ ∨ _ ∨ _))

def stopAt (s : DeliveryStream) (start : Instant) (k : ℕ) : Stop :=
  if s.DropsAt (s.dueAt start k) then .ended
  else if s.HangsAt (s.dueAt start k) k then .hung
  else .ended

/-- From the `k`-th chunk on, a reception has the chunks before the `n`-th when they are due, and it
stops when that is due. -/
structure Follows (s : DeliveryStream) (start : Instant) (k n : ℕ) (r : Reception) : Prop where
  sent : (r.sent.map fun e => (e.1.nanos, e.2)) =
    (List.range' k (n - k)).map fun j => (s.dueAt start j, s.piece j)
  stop : r.stop = s.stopAt start n
  time : r.time.nanos = s.dueAt start n

structure Fresh (s : DeliveryStream) : Prop where
  offset : s.offset = 0
  firstByteDone : s.firstByteDone = false
  sleep : s.sleep = none
  started : s.started = false

def afterChunks (s : DeliveryStream) : ℕ → DeliveryStream
  | 0 => s
  | k + 1 => s.startedAt (s.sentBefore (k + 1)) none

private theorem Fresh.rests (h : s.Fresh) (k : ℕ) : (s.afterChunks k).Rests := by
  cases k with
  | zero => exact ⟨h.sleep, h.firstByteDone.trans h.started.symm⟩
  | succ k => exact ⟨rfl, rfl⟩

private theorem Fresh.offset_afterChunks (h : s.Fresh) (k : ℕ) :
    (s.afterChunks k).offset = s.sentBefore k := by
  cases k with
  | zero => rw [afterChunks, h.offset, sentBefore, Nat.zero_mul, Nat.zero_min]
  | succ k => rfl

private theorem sameShape_afterChunks (s : DeliveryStream) (k : ℕ) :
    SameShape s (s.afterChunks k) := by
  cases k <;> exact ⟨rfl, rfl, rfl, rfl, rfl, rfl⟩

private theorem dueAt_succ (s : DeliveryStream) (start : Instant) (k : ℕ) :
    s.dueAt start (k + 1) = s.dueAt start k + (s.afterChunks (k + 1)).wait := by
  have hwait : (s.afterChunks (k + 1)).wait = delayNanos s.chunkDelay := rfl
  rw [hwait, dueAt, dueAt]
  push_cast
  ring

private theorem Fresh.dueAt_zero (h : s.Fresh) (start : Instant) :
    s.dueAt start 0 = start.nanos + (s.afterChunks 0).wait := by
  have hwait : (s.afterChunks 0).wait = delayNanos s.firstByteDelay := by
    rw [afterChunks, wait, gate, h.started]
    rfl
  rw [hwait, dueAt]
  simp

private theorem sentBefore_succ (s : DeliveryStream) (k : ℕ) :
    s.sentBefore (k + 1) =
      s.sentBefore k + min (s.effectiveLen - s.sentBefore k) s.chunkSize := by
  rw [sentBefore, sentBefore, Nat.succ_mul]
  omega

private theorem Fresh.nextLen_afterChunks (h : s.Fresh) (k : ℕ) :
    s.sentBefore k + (s.afterChunks k).nextLen = s.sentBefore (k + 1) := by
  have hshape := s.sameShape_afterChunks k
  rw [nextLen, hshape.effectiveLen, hshape.chunkSize, h.offset_afterChunks, sentBefore_succ]

private theorem Fresh.nextChunk_afterChunks (h : s.Fresh) (k : ℕ) :
    (s.afterChunks k).nextChunk = s.piece k := by
  have hshape := s.sameShape_afterChunks k
  rw [nextChunk, piece, ← h.nextLen_afterChunks k, hshape.body, h.offset_afterChunks,
    List.drop_take, Nat.add_sub_cancel_left]

private theorem startedAt_afterChunks (s : DeliveryStream) (k offset : ℕ) :
    (s.afterChunks k).startedAt offset none = s.startedAt offset none := by
  cases k <;> rfl

private theorem dropsAt_iff : s.DropsAt now.nanos ↔ reached s.dropDeadline now = true := by
  rw [reached_eq_true]
  rfl

private theorem Fresh.hangsAt_iff (h : s.Fresh) (k : ℕ) : s.HangsAt now.nanos k ↔
    (reached (s.afterChunks k).hangDeadline now ||
      (s.afterChunks k).hangAfterBytes.any (· ≤ (s.afterChunks k).offset)) = true := by
  have hshape := s.sameShape_afterChunks k
  rw [hshape.hangDeadline, hshape.hangAfterBytes, h.offset_afterChunks, Bool.or_eq_true,
    reached_eq_true, HangsAt]
  refine or_congr Iff.rfl ?_
  cases s.hangAfterBytes <;> simp

private theorem Fresh.arrives_iff (h : s.Fresh) {start : Instant} {k : ℕ}
    (hdue : now.nanos = s.dueAt start k) :
    (s.afterChunks k).Arrives clockEnd now r ↔
      if s.StopsAt start k then r = ⟨[], s.stopAt start k, now⟩
      else ∃ rest, r = { rest with sent := (now, s.piece k) :: rest.sent } ∧
        Gives clockEnd (s.afterChunks (k + 1)) now rest := by
  have hshape := s.sameShape_afterChunks k
  have hstops : s.StopsAt start k ↔
      s.DropsAt now.nanos ∨ s.HangsAt now.nanos k ∨ s.effectiveLen ≤ s.sentBefore k := by
    rw [StopsAt, hdue]
  have hhangs := @Fresh.hangsAt_iff now s h k
  rw [h.offset_afterChunks] at hhangs
  rw [Arrives, stopAt, ← hdue, h.offset_afterChunks, h.nextLen_afterChunks,
    h.nextChunk_afterChunks, startedAt_afterChunks, hshape.effectiveLen, hshape.dropDeadline]
  by_cases hdrop : s.DropsAt now.nanos
  · rw [if_pos (dropsAt_iff.mp hdrop), if_pos (hstops.mpr (Or.inl hdrop)), if_pos hdrop]
  rw [if_neg (fun hreached => hdrop (dropsAt_iff.mpr hreached)), if_neg hdrop]
  by_cases hhang : s.HangsAt now.nanos k
  · rw [if_pos (hhangs.mp hhang), if_pos (hstops.mpr (Or.inr (Or.inl hhang))), if_pos hhang]
  rw [if_neg (fun hhung => hhang (hhangs.mpr hhung)), if_neg hhang]
  by_cases hend : s.effectiveLen ≤ s.sentBefore k
  · rw [if_pos hend, if_pos (hstops.mpr (Or.inr (Or.inr hend)))]
  · have hgoes : ¬ s.StopsAt start k := by
      rw [hstops]
      rintro (hstop | hstop | hstop)
      exacts [hdrop hstop, hhang hstop, hend hstop]
    rw [if_neg hend, if_neg hgoes]
    rfl

private theorem dueAt_le (s : DeliveryStream) (start : Instant) {k n : ℕ} (h : k ≤ n) :
    s.dueAt start k ≤ s.dueAt start n := by
  induction n, h using Nat.le_induction with
  | base => exact Int.le_refl _
  | succ n _ ih =>
    rw [dueAt_succ]
    omega

private theorem follows_cons_iff {start : Instant} {k n : ℕ} (hlt : k < n) :
    s.Follows start k n r ↔
      ∃ wake rest, wake.nanos = s.dueAt start k ∧
        r = { rest with sent := (wake, s.piece k) :: rest.sent } ∧
        s.Follows start (k + 1) n rest := by
  have hlength : n - k = n - (k + 1) + 1 := by omega
  constructor
  · rintro ⟨hsent, hstop, htime⟩
    rw [hlength, List.range'_succ, List.map_cons] at hsent
    obtain ⟨sent, stop, time⟩ := r
    cases sent with
    | nil => cases hsent
    | cons e sent =>
      rw [List.map_cons, List.cons.injEq, Prod.mk.injEq] at hsent
      obtain ⟨⟨hwake, hpiece⟩, hrest⟩ := hsent
      refine ⟨e.1, ⟨sent, stop, time⟩, hwake, ?_, hrest, hstop, htime⟩
      rw [← hpiece]
  · rintro ⟨wake, rest, hwake, rfl, hsent, hstop, htime⟩
    refine ⟨?_, hstop, htime⟩
    rw [hlength, List.range'_succ, List.map_cons, List.map_cons, hwake, hsent]

/-- The run lemma, over the chunks that are left until the stream stops. -/
private theorem Fresh.gives_iff_follows (h : s.Fresh) {start : Instant} {n : ℕ}
    (hleast : IsLeast {k | s.StopsAt start k} n) {m k : ℕ} (hk : n = k + m) (hnow : now < clockEnd)
    (hdue : s.dueAt start k = now.nanos + (s.afterChunks k).wait)
    (hopen : reached s.dropDeadline now = false) :
    Gives clockEnd (s.afterChunks k) now r ↔ r.time < clockEnd ∧ s.Follows start k n r := by
  have hopen' : reached (s.afterChunks k).dropDeadline now = false := by
    rwa [(s.sameShape_afterChunks k).dropDeadline]
  rw [(h.rests k).gives_iff hnow hopen']
  induction m generalizing k now r with
  | zero =>
    obtain rfl : n = k := hk
    have hstops : s.StopsAt start n := hleast.1
    constructor
    · rintro ⟨wake, hwake, hroom, harrives⟩
      rw [h.arrives_iff (hwake.trans hdue.symm), if_pos hstops] at harrives
      subst harrives
      exact ⟨hroom, by simp, rfl, hwake.trans hdue.symm⟩
    · rintro ⟨hroom, hsent, hstop, htime⟩
      refine ⟨r.time, htime.trans hdue, hroom, ?_⟩
      rw [h.arrives_iff htime, if_pos hstops]
      obtain ⟨sent, stop, time⟩ := r
      have hnone : sent = [] := by simpa using hsent
      rw [hnone, show stop = s.stopAt start n from hstop]
  | succ m ih =>
    have hlt : k < n := by omega
    have hgoes : ¬ s.StopsAt start k := fun hstops => absurd (hleast.2 hstops) (not_le.mpr hlt)
    have hnext : ∀ {wake : Instant} {rest : Reception}, wake.nanos = s.dueAt start k →
        wake < clockEnd → (Gives clockEnd (s.afterChunks (k + 1)) wake rest ↔
          rest.time < clockEnd ∧ s.Follows start (k + 1) n rest) := by
      intro wake rest hwake hroom
      have hundropped : reached s.dropDeadline wake = false := by
        refine Bool.eq_false_of_not_eq_true fun hreached => hgoes (Or.inl ?_)
        rw [← hwake]
        exact dropsAt_iff.mpr hreached
      rw [(h.rests (k + 1)).gives_iff hroom hundropped]
      exact ih (by omega) hroom (by rw [dueAt_succ, hwake]) hundropped hundropped
    rw [follows_cons_iff hlt]
    constructor
    · rintro ⟨wake, hwake, hroom, harrives⟩
      have hwake' := hwake.trans hdue.symm
      rw [h.arrives_iff hwake', if_neg hgoes] at harrives
      obtain ⟨rest, rfl, hgives⟩ := harrives
      obtain ⟨hend, hfollows⟩ := (hnext hwake' hroom).mp hgives
      exact ⟨hend, wake, rest, hwake', rfl, hfollows⟩
    · rintro ⟨hend, wake, rest, hwake, rfl, hfollows⟩
      have hmono : s.dueAt start k ≤ s.dueAt start n := s.dueAt_le start hlt.le
      have htime : rest.time.nanos = s.dueAt start n := hfollows.time
      have hend' : rest.time.nanos < clockEnd.nanos := hend
      have hroom : wake < clockEnd := show wake.nanos < clockEnd.nanos by omega
      refine ⟨wake, hwake.trans hdue, hroom, ?_⟩
      rw [h.arrives_iff hwake, if_neg hgoes]
      exact ⟨rest, rfl, (hnext hwake hroom).mpr ⟨hend, hfollows⟩⟩

private theorem exists_least_stop (hsize : 0 < s.chunkSize) (start : Instant) :
    ∃ n, IsLeast {k | s.StopsAt start k} n := by
  have hstops : ∃ k, s.StopsAt start k := by
    refine ⟨s.effectiveLen, Or.inr (Or.inr ?_)⟩
    rw [sentBefore]
    exact le_min (Nat.le_mul_of_pos_right _ hsize) le_rfl
  exact ⟨Nat.find hstops, Nat.find_spec hstops, fun _ hk => Nat.find_min' hstops hk⟩

end DeliveryStream

open DeliveryStream

/-- A delivery has the delays, the limits and the chunk size that its specification draws, and
polled at its wake-ups on an ideal clock it keeps to its timetable: each chunk is sent when it is
due, until the first chunk that a limit, a deadline or the end of the body stops. A drop that is due
before the first poll leaves nothing. -/
theorem delivery_keeps_timetable {body : List UInt8} {spec : DeliverySpec}
    {dropNow hangNow : Instant} {rng rng' : Rng} {s : DeliveryStream}
    (h : deliver body spec dropNow hangNow rng = .ok (s, rng')) (clockEnd start : Instant) :
    Drawn body spec dropNow hangNow rng s rng' ∧
      ∃ n, IsLeast {k | s.StopsAt start k} n ∧ ∀ r, Gives clockEnd s start r ↔
        r.time < clockEnd ∧
          if s.DropsAt start.nanos then r = ⟨[], .ended, start⟩ else s.Follows start 0 n r := by
  have hs := deliver_delivered h
  have hfresh : s.Fresh := ⟨hs.offset, hs.firstByteDone, hs.sleep, hs.started⟩
  obtain ⟨n, hleast⟩ := exists_least_stop (deliver_spec h).2.2.1 start
  refine ⟨deliver_drawn h, n, hleast, fun r => ?_⟩
  by_cases hnow : start < clockEnd
  · split_ifs with hdrop
    · rw [gives_iff_of_dropped hnow (dropsAt_iff.mp hdrop)]
      constructor
      · rintro rfl
        exact ⟨hnow, rfl⟩
      · exact And.right
    · exact hfresh.gives_iff_follows hleast (Nat.zero_add n).symm hnow (hfresh.dueAt_zero start)
        (Bool.eq_false_of_not_eq_true fun hreached => hdrop (dropsAt_iff.mpr hreached))
  · constructor
    · exact fun hgives => absurd hgives.now_lt hnow
    · rintro ⟨hend, hlog⟩
      refine absurd ?_ hnow
      split_ifs at hlog with hdrop
      · rwa [hlog] at hend
      · have hmono : s.dueAt start 0 ≤ s.dueAt start n := s.dueAt_le start (Nat.zero_le n)
        have htime := hlog.time
        have hstart := hfresh.dueAt_zero start
        have hend' : r.time.nanos < clockEnd.nanos := hend
        exact show start.nanos < clockEnd.nanos by omega

/-- Two of three bytes come, two and three seconds after the start. Both a drop after four seconds
and a hang after two bytes stop the third, and the drop comes first. -/
theorem delivery_keeps_timetable_two_bytes :
    let at_ (t : Fin 60) : Instant := ⟨t * 10 ^ 9, by omega⟩
    let second : Duration := ⟨10 ^ 9, by decide⟩
    let spec : DeliverySpec := {
      pace := some (.chunk (.fixed ⟨1⟩) (.fixed second))
      drop := some (.afterTime (.fixed ⟨4 * 10 ^ 9, by decide⟩))
      hang := some (.afterBytes (.fixed ⟨2⟩))
      firstByte := some (.fixed ⟨2 * 10 ^ 9, by decide⟩) }
    ∃ s rng', deliver [1, 2, 3] spec (at_ 0) (at_ 0) ⟨fun _ => 0⟩ = .ok (s, rng') ∧
      Drawn [1, 2, 3] spec (at_ 0) (at_ 0) ⟨fun _ => 0⟩ s rng' ∧ s.dropDeadline = some (at_ 4) ∧
      s.hangAfterBytes = some 2 ∧
      Gives (at_ 59) s (at_ 0) ⟨[(at_ 2, [1]), (at_ 3, [2])], .ended, at_ 4⟩ := by
  intro at_ second spec
  have hdropTime : sampleDrop (at_ 0) spec.drop ⟨fun _ => 0⟩ =
      .ok ((none, some (at_ 4)), ⟨fun _ => 0⟩) := sampleDrop_fixed (by decide) _
  obtain ⟨s, rng', hdeliver, hdropAt, hhangAt, hfirst, hsecond, hstops, hdrop, hfollows⟩ :
      ∃ s rng', deliver [1, 2, 3] spec (at_ 0) (at_ 0) ⟨fun _ => 0⟩ = .ok (s, rng') ∧
        s.dropDeadline = some (at_ 4) ∧ s.hangAfterBytes = some 2 ∧ ¬ s.StopsAt (at_ 0) 0 ∧
        ¬ s.StopsAt (at_ 0) 1 ∧ s.StopsAt (at_ 0) 2 ∧ ¬ s.DropsAt (at_ 0).nanos ∧
        s.Follows (at_ 0) 0 2 ⟨[(at_ 2, [1]), (at_ 3, [2])], .ended, at_ 4⟩ :=
    ⟨_, _, deliver_of_samples rfl hdropTime rfl rfl, rfl, rfl, by decide, by decide, by decide,
      by decide, by decide, by decide, by decide⟩
  have hleast : IsLeast {k | s.StopsAt (at_ 0) k} 2 := by
    refine ⟨hstops, fun k hk => ?_⟩
    rcases k with _ | _ | k
    · exact absurd hk hfirst
    · exact absurd hk hsecond
    · omega
  obtain ⟨hdrawn, n, hleast', hgives⟩ := delivery_keeps_timetable hdeliver (at_ 59) (at_ 0)
  obtain rfl := hleast'.unique hleast
  refine ⟨s, rng', hdeliver, hdrawn, hdropAt, hhangAt, (hgives _).mpr ⟨by decide, ?_⟩⟩
  rw [if_neg hdrop]
  exact hfollows

end Mockinx
