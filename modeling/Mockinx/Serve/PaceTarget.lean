import Mockinx.Serve.DeliveryExact
import Mockinx.Serve.Schedule

/-!
Pace as a target duration. The duration is divided by the number of gaps between the chunks, but the
stream also waits behind the last chunk, before it finds that the body is over.
-/

set_option autoImplicit false
set_option relaxedAutoImplicit false

namespace Mockinx

open Lib DeliveryStream

namespace DeliveryStream

private theorem numChunks_zero {size : ℕ} (hs : 0 < size) : numChunks 0 size = 0 :=
  Nat.div_eq_of_lt (by omega)

theorem numChunks_pos {n size : ℕ} (hs : 0 < size) (hn : 0 < n) : 0 < numChunks n size :=
  Nat.div_pos (by omega) hs

theorem le_of_numChunks_eq_zero {n m size : ℕ} (hs : 0 < size)
    (h : numChunks (n - m) size = 0) : n ≤ m := by
  by_contra hmore
  have := numChunks_pos hs (show 0 < n - m by omega)
  omega

theorem lt_of_numChunks_eq_succ {n m size k : ℕ} (hs : 0 < size)
    (h : numChunks (n - m) size = k + 1) : m < n := by
  by_contra hend
  rw [Nat.sub_eq_zero_of_le (not_lt.mp hend), numChunks_zero hs] at h
  omega

theorem numChunks_sub {n size k : ℕ} (hs : 0 < size) (h : numChunks n size = k + 1) :
    numChunks (n - min n size) size = k := by
  rcases le_or_gt n size with hle | hlt
  · have hone : numChunks n size ≤ 1 := by
      rw [numChunks]
      exact Nat.le_of_lt_succ ((Nat.div_lt_iff_lt_mul hs).mpr (by omega))
    rw [min_eq_left hle, Nat.sub_self, numChunks_zero hs]
    omega
  · rw [numChunks, show n + size - 1 = n - size + size - 1 + size by omega,
      Nat.add_div_right _ hs] at h
    rw [min_eq_right hlt.le, numChunks]
    exact Nat.succ.inj h

structure Undisturbed (s : DeliveryStream) : Prop where
  dropAfterBytes : s.dropAfterBytes = none
  dropDeadline : s.dropDeadline = none
  hangAfterBytes : s.hangAfterBytes = none
  hangDeadline : s.hangDeadline = none
  firstByteDelay : s.firstByteDelay = none

def startedAt (s : DeliveryStream) (offset : ℕ) (sleep : Option Instant) : DeliveryStream :=
  { s with offset, sleep, firstByteDone := true, started := true }

variable {s : DeliveryStream} {delay : Duration} {clockEnd now stop : Instant} {offset : ℕ}
  {sleep : Option Instant}

structure Unlimited (s : DeliveryStream) : Prop where
  dropAfterBytes : s.dropAfterBytes = none
  hangAfterBytes : s.hangAfterBytes = none
  hangDeadline : s.hangDeadline = none

private theorem Undisturbed.unlimited (h : s.Undisturbed) : s.Unlimited :=
  ⟨h.dropAfterBytes, h.hangAfterBytes, h.hangDeadline⟩

theorem Unlimited.effectiveLen (h : s.Unlimited) : s.effectiveLen = s.body.length := by
  rw [DeliveryStream.effectiveLen, h.dropAfterBytes]

theorem Unlimited.yieldChunk (h : s.Unlimited) {env : PollEnv}
    (hopen : reached s.dropDeadline env.lastNow = false) :
    s.yieldChunk env =
      if s.body.length ≤ s.offset then .ok (s, .ready none)
      else .ok ({ s with offset := s.offset + s.nextLen, started := true },
        .ready (some s.nextChunk)) := by
  rw [yieldChunk_eq, hangs, h.effectiveLen, hopen, h.hangDeadline, h.hangAfterBytes]
  simp [reached]

theorem Unlimited.startedAt (h : s.Unlimited) : (s.startedAt offset sleep).Unlimited :=
  ⟨h.dropAfterBytes, h.hangAfterBytes, h.hangDeadline⟩

def wakeOf (clockEnd : Instant) (delay : Duration) (sleep : Option Instant) (now : Instant) :
    Instant :=
  sleep.getD ((now.checkedAdd delay).getD clockEnd)

theorem wakeOf_of_no_room (h : now.checkedAdd delay = none) :
    wakeOf clockEnd delay none now = clockEnd := by
  rw [wakeOf, h]
  rfl

theorem wakeOf_of_room {wake : Instant} (h : now.checkedAdd delay = some wake) :
    wakeOf clockEnd delay none now = wake := by
  rw [wakeOf, h]
  rfl

theorem Unlimited.poll_started (h : s.Unlimited) (hdelay : s.chunkDelay = some delay)
    (hopen : reached s.dropDeadline now = false) :
    (s.startedAt offset sleep).pollNext ((s.startedAt offset sleep).idealEnv clockEnd now) =
      if wakeOf clockEnd delay sleep now ≤ now then
        if s.body.length ≤ offset then .ok (s.startedAt offset none, .ready none)
        else .ok (s.startedAt (offset + (s.startedAt offset none).nextLen) none,
          .ready (some (s.startedAt offset none).nextChunk))
      else .ok (s.startedAt offset (some (wakeOf clockEnd delay sleep now)),
        .pending (some (wakeOf clockEnd delay sleep now))) := by
  have hdue : (s.startedAt offset sleep).chunkDue
      ((s.startedAt offset sleep).idealEnv clockEnd now) =
        some (wakeOf clockEnd delay sleep now) := by
    change s.chunkDelay.map _ = _
    rw [hdelay]
    rfl
  have hready : ((s.startedAt offset sleep).idealEnv clockEnd now).chunkReady =
      decide (wakeOf clockEnd delay sleep now ≤ now) := by
    change Option.all _ (s.chunkDelay.map _) = _
    rw [hdelay]
    rfl
  have hslot : (s.startedAt offset sleep).afterChunk = s.startedAt offset none := by
    simp [afterChunk, DeliveryStream.startedAt, hdelay]
  have hgate : (s.startedAt offset sleep).chunkGate
      ((s.startedAt offset sleep).idealEnv clockEnd now) =
        if wakeOf clockEnd delay sleep now ≤ now then (s.startedAt offset none, .ready ())
        else (s.startedAt offset (some (wakeOf clockEnd delay sleep now)),
          .pending (some (wakeOf clockEnd delay sleep now))) := by
    rw [chunkGate_eq, chunkWait, hready, hdue, hslot]
    by_cases hwake : wakeOf clockEnd delay sleep now ≤ now
    · simp [hwake]
    · simp only [hwake, decide_false, Bool.false_eq_true, ↓reduceIte]
      rfl
  have hfirst : (s.startedAt offset sleep).firstByteGate
      ((s.startedAt offset sleep).idealEnv clockEnd now) = (s.startedAt offset sleep, .ready ()) :=
    rfl
  have hyield : ∀ env : PollEnv, env.lastNow = now → (s.startedAt offset none).yieldChunk env =
      if s.body.length ≤ offset then .ok (s.startedAt offset none, .ready none)
      else .ok (s.startedAt (offset + (s.startedAt offset none).nextLen) none,
        .ready (some (s.startedAt offset none).nextChunk)) := by
    rintro env rfl
    exact h.startedAt.yieldChunk hopen
  have hdrop : reached (s.startedAt offset sleep).dropDeadline
      ((s.startedAt offset sleep).idealEnv clockEnd now).dropNow = false := hopen
  rw [pollNext, hdrop, if_neg Bool.false_ne_true, hfirst]
  dsimp only
  rw [hgate]
  split_ifs with hwake hend
  · exact (hyield _ rfl).trans (if_pos hend)
  · exact (hyield _ rfl).trans (if_neg hend)
  · rfl

private theorem Undisturbed.endsAt_awake (h : s.Undisturbed) (hdelay : s.chunkDelay = some delay)
    (hnow : now < clockEnd) (hwake : wakeOf clockEnd delay sleep now ≤ now) :
    EndsAt clockEnd (s.startedAt offset sleep) now stop ↔
      if s.body.length ≤ offset then stop = now
      else EndsAt clockEnd (s.startedAt (offset + (s.startedAt offset none).nextLen) none) now
        stop := by
  have hpoll := @Unlimited.poll_started s delay clockEnd now offset sleep h.unlimited hdelay
    (by rw [h.dropDeadline, reached])
  rw [if_pos hwake] at hpoll
  split_ifs at hpoll ⊢ with hend
  · exact endsAt_iff_of_end hnow hpoll
  · exact endsAt_iff_of_chunk hnow hpoll

private theorem Undisturbed.endsAt_asleep (h : s.Undisturbed) (hdelay : s.chunkDelay = some delay)
    (hnow : now < clockEnd) (hwake : ¬ wakeOf clockEnd delay sleep now ≤ now) :
    EndsAt clockEnd (s.startedAt offset sleep) now stop ↔
      EndsAt clockEnd (s.startedAt offset (some (wakeOf clockEnd delay sleep now)))
        (wakeOf clockEnd delay sleep now) stop := by
  have hpoll := @Unlimited.poll_started s delay clockEnd now offset sleep h.unlimited hdelay
    (by rw [h.dropDeadline, reached])
  rw [if_neg hwake] at hpoll
  exact endsAt_iff_of_wake hnow hpoll

private theorem Undisturbed.endsAt_round (h : s.Undisturbed) (hdelay : s.chunkDelay = some delay)
    (hnow : now < clockEnd) :
    EndsAt clockEnd (s.startedAt offset none) now stop ↔
      ∃ wake, now.checkedAdd delay = some wake ∧ wake < clockEnd ∧
        if s.body.length ≤ offset then stop = wake
        else EndsAt clockEnd (s.startedAt (offset + (s.startedAt offset none).nextLen) none) wake
          stop := by
  cases hadd : now.checkedAdd delay with
  | none =>
    have hwake : wakeOf clockEnd delay none now = clockEnd := wakeOf_of_no_room hadd
    have hasleep : ¬ wakeOf clockEnd delay none now ≤ now := by
      rw [hwake]
      exact Instant.not_le.mpr hnow
    rw [h.endsAt_asleep hdelay hnow hasleep, hwake]
    simp only [reduceCtorEq, false_and, exists_false, iff_false]
    rintro ⟨sent, hplays⟩
    exact Instant.lt_irrefl _ hplays.now_lt
  | some wake =>
    have hwake : wakeOf clockEnd delay none now = wake := wakeOf_of_room hadd
    have hnanos := Instant.checkedAdd_eq_some.mp hadd
    simp only [Option.some.injEq, exists_eq_left']
    by_cases hzero : wake ≤ now
    · -- without a delay the same poll goes on
      have hle : wake.nanos ≤ now.nanos := hzero
      obtain rfl : wake = now := Instant.eq_of_nanos (by omega)
      have hover : wakeOf clockEnd delay none wake ≤ wake := by rwa [hwake]
      rw [h.endsAt_awake hdelay hnow hover, and_iff_right hnow]
    · have hover : wakeOf clockEnd delay (some wake) wake ≤ wake := Int.le_refl wake.nanos
      rw [h.endsAt_asleep hdelay hnow (hwake ▸ hzero), hwake]
      constructor
      · rintro ⟨sent, hplays⟩
        have hroom := hplays.now_lt
        exact ⟨hroom, (h.endsAt_awake hdelay hroom hover).mp ⟨sent, hplays⟩⟩
      · rintro ⟨hroom, hrest⟩
        exact (h.endsAt_awake hdelay hroom hover).mpr hrest

theorem nextLen_startedAt (h : s.Unlimited) :
    (s.startedAt offset sleep).nextLen = min (s.body.length - offset) s.chunkSize := by
  rw [nextLen, h.startedAt.effectiveLen]
  rfl

private theorem Undisturbed.endsAt_started (h : s.Undisturbed) (hdelay : s.chunkDelay = some delay)
    (hsize : 0 < s.chunkSize) {k : ℕ} (hk : numChunks (s.body.length - offset) s.chunkSize = k)
    (hnow : now < clockEnd) :
    EndsAt clockEnd (s.startedAt offset none) now stop ↔
      stop.nanos = now.nanos + ((k + 1) * delay.nanos : ℕ) ∧ stop < clockEnd := by
  induction k generalizing offset now with
  | zero =>
    have hend : s.body.length ≤ offset := le_of_numChunks_eq_zero hsize hk
    simp only [h.endsAt_round hdelay hnow, if_pos hend]
    constructor
    · rintro ⟨wake, hadd, hroom, rfl⟩
      have := Instant.checkedAdd_eq_some.mp hadd
      exact ⟨by omega, hroom⟩
    · rintro ⟨hstop, hroom⟩
      refine ⟨stop, Instant.checkedAdd_eq_some.mpr ?_, hroom, rfl⟩
      omega
  | succ k ih =>
    have hmore : ¬ s.body.length ≤ offset := not_le.mpr (lt_of_numChunks_eq_succ hsize hk)
    have hrest : numChunks (s.body.length - (offset + (s.startedAt offset none).nextLen))
        s.chunkSize = k := by
      rw [nextLen_startedAt h.unlimited, ← Nat.sub_sub]
      exact numChunks_sub hsize hk
    have hmul : (k + 1 + 1) * delay.nanos = (k + 1) * delay.nanos + delay.nanos := Nat.succ_mul _ _
    simp only [h.endsAt_round hdelay hnow, if_neg hmore]
    constructor
    · rintro ⟨wake, hadd, hroom, hends⟩
      have hwake := Instant.checkedAdd_eq_some.mp hadd
      obtain ⟨hstop, hlt⟩ := (ih hrest hroom).mp hends
      exact ⟨by omega, hlt⟩
    · rintro ⟨hstop, hlt⟩
      obtain ⟨wake, hadd, hwake⟩ :=
        Instant.exists_checkedAdd (show now.nanos + delay.nanos ≤ stop.nanos by omega)
      have hlt' : stop.nanos < clockEnd.nanos := hlt
      have hroom : wake < clockEnd := show wake.nanos < clockEnd.nanos by omega
      exact ⟨wake, hadd, hroom, (ih hrest hroom).mpr ⟨by omega, hlt⟩⟩

theorem Unlimited.poll_first (h : s.Unlimited) (hnone : s.firstByteDelay = none)
    (hdone : s.firstByteDone = false) (hstarted : s.started = false) (hsleep : s.sleep = none)
    (hmore : s.offset < s.body.length) {env : PollEnv}
    (hopen : reached s.dropDeadline env.dropNow = false)
    (hlast : reached s.dropDeadline env.lastNow = false) :
    s.pollNext env =
      .ok (s.startedAt (s.offset + s.nextLen) none, .ready (some s.nextChunk)) := by
  have hfirst : s.firstByteGate env = ({ s with firstByteDone := true }, .ready ()) := by
    rw [firstByteGate, hdone, hnone]
    rfl
  have hgate : DeliveryStream.chunkGate { s with firstByteDone := true } env =
      ({ s with firstByteDone := true }, .ready ()) := by
    rw [chunkGate, hstarted]
    rfl
  have hshape : DeliveryStream.Unlimited { s with firstByteDone := true } :=
    ⟨h.dropAfterBytes, h.hangAfterBytes, h.hangDeadline⟩
  rw [pollNext, hopen, if_neg Bool.false_ne_true, hfirst]
  dsimp only
  rw [hgate]
  dsimp only
  rw [hshape.yieldChunk hlast, if_neg (not_le.mpr hmore), DeliveryStream.startedAt, ← hsleep]
  rfl

private theorem Undisturbed.endsAt_iff (h : s.Undisturbed) (hdone : s.firstByteDone = false)
    (hstarted : s.started = false) (hsleep : s.sleep = none) (hoffset : s.offset = 0)
    (hdelay : s.chunkDelay = some delay) (hsize : 0 < s.chunkSize) (hbody : 0 < s.body.length) :
    EndsAt clockEnd s now stop ↔
      stop.nanos = now.nanos + (numChunks s.body.length s.chunkSize * delay.nanos : ℕ) ∧
        stop < clockEnd := by
  obtain ⟨k, hk⟩ := Nat.exists_eq_add_of_lt (numChunks_pos hsize hbody)
  rw [Nat.zero_add] at hk
  by_cases hnow : now < clockEnd
  · have hopen : reached s.dropDeadline now = false := by rw [h.dropDeadline, reached]
    have hpoll := @Unlimited.poll_first s h.unlimited h.firstByteDelay hdone hstarted hsleep
      (hoffset ▸ hbody) (s.idealEnv clockEnd now) hopen hopen
    have hrest : numChunks (s.body.length - (s.offset + s.nextLen)) s.chunkSize = k := by
      rw [nextLen, h.unlimited.effectiveLen, hoffset, Nat.zero_add, Nat.sub_zero]
      exact numChunks_sub hsize hk
    rw [endsAt_iff_of_chunk hnow hpoll, h.endsAt_started hdelay hsize hrest hnow, hk]
  · constructor
    · rintro ⟨sent, hplays⟩
      exact absurd hplays.now_lt hnow
    · rintro ⟨hstop, hlt⟩
      have hlt' : stop.nanos < clockEnd.nanos := hlt
      exact absurd (show now.nanos < clockEnd.nanos by omega) hnow

end DeliveryStream

/-- The nanoseconds between two chunks for a target duration. -/
def targetDelay (d : Duration) (n : ℕ) : ℕ := if 1 < n then d.nanos / (n - 1) else d.nanos

theorem targetChunks_lt {len : ℕ} (h : len < 2 ^ 45) : targetChunks len - 1 < 2 ^ 32 := by
  have hle : targetChunks len ≤ 2 ^ 32 := by
    rw [targetChunks, numChunks]
    refine Nat.le_of_lt_succ ((Nat.div_lt_iff_lt_mul (targetChunkSize_pos len)).mpr ?_)
    rw [targetChunkSize, minPaceChunks, defaultChunkSize]
    omega
  omega

private theorem targetChunks_eq_one_iff {len : ℕ} (h : 0 < len) :
    targetChunks len = 1 ↔ len = 1 := by
  constructor
  · intro hone
    by_contra hne
    have htwo : 2 ≤ targetChunks len := by
      rw [targetChunks, numChunks, Nat.le_div_iff_mul_le (targetChunkSize_pos len)]
      rw [targetChunkSize, minPaceChunks, defaultChunkSize]
      omega
    omega
  · rintro rfl
    rfl

theorem samplePace_duration {len : ℕ} {range : Range Duration} {rng rng' : Rng} {d : Duration}
    (hlen : len < 2 ^ 45) (hsample : range.sample rng = .ok (d, rng')) :
    ∃ delay : Duration, delay.nanos = targetDelay d (targetChunks len) ∧
      samplePace len (some (.duration range)) rng =
        .ok ((targetChunkSize len, some delay), rng') := by
  rw [samplePace_duration_eq, sampler_bind_of_ok hsample, targetDelay]
  split_ifs with hgaps
  · have hmod : (targetChunks len - 1) % 2 ^ 32 = targetChunks len - 1 :=
      Nat.mod_eq_of_lt (targetChunks_lt hlen)
    have hdiv : divDuration d ((targetChunks len - 1) % 2 ^ 32) =
        .ok ⟨d.nanos / (targetChunks len - 1), lt_of_le_of_lt (Nat.div_le_self _ _) d.lt⟩ := by
      rw [hmod, divDuration, Duration.divNat, if_neg (by omega)]
    refine ⟨⟨d.nanos / (targetChunks len - 1), lt_of_le_of_lt (Nat.div_le_self _ _) d.lt⟩, rfl, ?_⟩
    rw [sampler_bind_of_ok (liftPanic_ok.mpr ⟨hdiv, rfl⟩)]
    rfl
  · exact ⟨d, rfl, rfl⟩

private theorem deliver_duration {body : List UInt8} {range : Range Duration}
    {dropNow hangNow : Instant} {rng rng' : Rng} {d : Duration} (hlen : body.length < 2 ^ 45)
    (hsample : range.sample rng = .ok (d, rng')) :
    ∃ s delay, deliver body { pace := some (.duration range) } dropNow hangNow rng = .ok (s, rng') ∧
      s.Undisturbed ∧ s.chunkSize = targetChunkSize body.length ∧ s.chunkDelay = some delay ∧
      delay.nanos = targetDelay d (targetChunks body.length) := by
  obtain ⟨delay, hnanos, hpace⟩ := samplePace_duration hlen hsample
  have hdeliver := @deliver_of_samples body { pace := some (.duration range) } dropNow hangNow rng
    rng' rng rng rng none (some delay) none none none none (targetChunkSize body.length) rfl rfl rfl
    hpace
  exact ⟨_, delay, hdeliver, ⟨rfl, rfl, rfl, rfl, rfl⟩, rfl, rfl, hnanos⟩

/-- A stream that ends in time for a target duration: not late, and early by no more than the
nanoseconds that the division by the gaps may lose. -/
def OnTarget (d : Duration) (n : ℕ) (start stop : Instant) : Prop :=
  start.nanos + d.nanos - (n - 1 : ℕ) ≤ stop.nanos ∧ stop.nanos ≤ start.nanos + d.nanos

private theorem onTarget_iff {d : Duration} {n : ℕ} (hn : 0 < n) {start stop : Instant}
    (hstop : stop.nanos = start.nanos + (n * targetDelay d n : ℕ)) :
    OnTarget d n start stop ↔ n = 1 ∨ d.nanos / (n - 1) ≤ d.nanos % (n - 1) := by
  rw [OnTarget, hstop]
  obtain ⟨m, rfl⟩ : ∃ m, n = m + 1 := ⟨n - 1, by omega⟩
  rw [Nat.add_sub_cancel]
  rcases Nat.eq_zero_or_pos m with rfl | hm
  · simp [targetDelay]
  · have hdelay : targetDelay d (m + 1) = d.nanos / m := by
      rw [targetDelay, if_pos (by omega), Nat.add_sub_cancel]
    have hsplit := Nat.div_add_mod d.nanos m
    have hmod := Nat.mod_lt d.nanos hm
    rw [hdelay, Nat.succ_mul]
    omega

/-- A stream with a target duration, polled at its wake-ups, ends after as many delays as it has
chunks, which is on target exactly for a single byte, or where the remainder of the division makes
up for one more delay. -/
theorem pace_on_target_iff {body : List UInt8} {range : Range Duration} {dropNow hangNow : Instant}
    {rng rng' : Rng} {d : Duration} (hbody : body ≠ []) (hlen : body.length < 2 ^ 45)
    (hsample : range.sample rng = .ok (d, rng')) (clockEnd start : Instant) :
    let n := targetChunks body.length
    ∃ s, deliver body { pace := some (.duration range) } dropNow hangNow rng = .ok (s, rng') ∧
      (∀ stop, EndsAt clockEnd s start stop ↔
        stop.nanos = start.nanos + (n * targetDelay d n : ℕ) ∧ stop < clockEnd) ∧
      ∀ stop, EndsAt clockEnd s start stop →
        (OnTarget d n start stop ↔
          body.length = 1 ∨ d.nanos / (n - 1) ≤ d.nanos % (n - 1)) := by
  intro n
  obtain ⟨s, delay, hdeliver, hshape, hsize, hdelay, hnanos⟩ :=
    @deliver_duration body range dropNow hangNow rng rng' d hlen hsample
  have hs := deliver_delivered hdeliver
  have hpos : 0 < body.length := List.length_pos_of_ne_nil hbody
  have hn : 0 < n := numChunks_pos (targetChunkSize_pos _) hpos
  have hends : ∀ stop, EndsAt clockEnd s start stop ↔
      stop.nanos = start.nanos + (n * targetDelay d n : ℕ) ∧ stop < clockEnd := by
    intro stop
    rw [hshape.endsAt_iff hs.firstByteDone hs.started hs.sleep hs.offset hdelay
      (hsize ▸ targetChunkSize_pos _) (hs.body ▸ hpos), hs.body, hsize, hnanos]
    rfl
  refine ⟨s, hdeliver, hends, ?_⟩
  intro stop hstop
  rw [onTarget_iff hn ((hends stop).mp hstop).1, targetChunks_eq_one_iff hpos]

theorem one_byte_on_target :
    let at_ (t : Fin 100) : Instant := ⟨t * 10 ^ 9, by omega⟩
    let second : Duration := ⟨10 ^ 9, by decide⟩
    ∃ s rng', deliver [1] { pace := some (.duration (.fixed second)) } .zero .zero
        ⟨fun _ => 0⟩ = .ok (s, rng') ∧
      ∀ stop, EndsAt (at_ 99) s (at_ 0) stop → OnTarget second 1 (at_ 0) stop := by
  intro at_ second
  obtain ⟨s, hs, _, htarget⟩ := @pace_on_target_iff [1] (.fixed second) .zero .zero
    ⟨fun _ => 0⟩ ⟨fun _ => 0⟩ second (by decide) (by decide) rfl (at_ 99) (at_ 0)
  exact ⟨s, _, hs, fun stop hstop => (htarget stop hstop).mpr (Or.inl rfl)⟩

/-- Two bytes over one second end after two. -/
theorem two_bytes_late :
    let at_ (t : Fin 100) : Instant := ⟨t * 10 ^ 9, by omega⟩
    let second : Duration := ⟨10 ^ 9, by decide⟩
    ∃ s rng', deliver [1, 2] { pace := some (.duration (.fixed second)) } .zero .zero
        ⟨fun _ => 0⟩ = .ok (s, rng') ∧
      EndsAt (at_ 99) s (at_ 0) (at_ 2) ∧ ¬ OnTarget second (targetChunks 2) (at_ 0) (at_ 2) := by
  intro at_ second
  have hlate : ¬ OnTarget second (targetChunks 2) (at_ 0) (at_ 2) := by
    rintro ⟨_, hle⟩
    exact absurd hle (by decide)
  obtain ⟨s, delay, hdeliver, hshape, hsize, hdelay, hnanos⟩ := @deliver_duration [1, 2]
    (.fixed second) .zero .zero ⟨fun _ => 0⟩ ⟨fun _ => 0⟩ second (by decide) rfl
  have hs := deliver_delivered hdeliver
  refine ⟨s, _, hdeliver, ?_, hlate⟩
  rw [hshape.endsAt_iff hs.firstByteDone hs.started hs.sleep hs.offset hdelay
    (hsize ▸ targetChunkSize_pos _) (hs.body ▸ by decide), hs.body, hsize, hnanos]
  exact ⟨by decide +kernel, by decide⟩

end Mockinx
