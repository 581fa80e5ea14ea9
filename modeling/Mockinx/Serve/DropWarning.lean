import Mockinx.Serve.PaceTarget
import Mockinx.Validate

/-!
What the drop warning has to foresee. A stream with a target duration and a drop time, polled at
its wake-ups, sends its whole body exactly when the first-byte delay and the gaps between its
chunks add up to less than the drop time; the warning only compares the two durations, in whole
milliseconds.
-/

set_option autoImplicit false
set_option relaxedAutoImplicit false

namespace Mockinx

open Lib DeliveryStream

namespace DeliveryStream

variable {s next : DeliveryStream} {delay : Duration} {clockEnd now deadline : Instant} {offset : ℕ}

private theorem pollNext_of_reached {env : PollEnv}
    (h : reached s.dropDeadline env.dropNow = true) :
    s.pollNext env = .ok (s, .ready none) :=
  if_pos h

private theorem sends_iff_of_sleep {asleep : Option Instant → DeliveryStream}
    {chunk rest : List UInt8}
    (hchunk : chunk ≠ []) (hdeadline : ∀ sleep, (asleep sleep).dropDeadline = some deadline)
    (hpoll : ∀ sleep now, now < deadline →
      (asleep sleep).pollNext ((asleep sleep).idealEnv clockEnd now) =
        if wakeOf clockEnd delay sleep now ≤ now then .ok (next, .ready (some chunk))
        else .ok (asleep (some (wakeOf clockEnd delay sleep now)),
          .pending (some (wakeOf clockEnd delay sleep now))))
    (hnow : now < deadline) (hclock : deadline ≤ clockEnd) :
    Sends clockEnd (asleep none) now (chunk ++ rest) ↔
      ∃ wake, now.checkedAdd delay = some wake ∧ wake < deadline ∧
        Sends clockEnd next wake rest := by
  have hbytes : chunk ++ rest ≠ [] := by simp [hchunk]
  have hroom : now < clockEnd := Int.lt_of_lt_of_le hnow hclock
  have hfirst := hpoll none now hnow
  cases hadd : now.checkedAdd delay with
  | none =>
    rw [wakeOf_of_no_room hadd, if_neg (Instant.not_le.mpr hroom)] at hfirst
    rw [sends_iff_of_wake hbytes hroom hfirst]
    simp only [reduceCtorEq, false_and, exists_false, iff_false]
    exact not_sends_of_late hbytes (Instant.lt_irrefl clockEnd)
  | some wake =>
    have hnanos := Instant.checkedAdd_eq_some.mp hadd
    simp only [Option.some.injEq, exists_eq_left']
    rw [wakeOf_of_room hadd] at hfirst
    by_cases hzero : wake ≤ now
    · -- without a delay the same poll goes on
      have hle : wake.nanos ≤ now.nanos := hzero
      obtain rfl : wake = now := Instant.eq_of_nanos (by omega)
      rw [if_pos hzero] at hfirst
      rw [sends_iff_of_chunk hchunk hroom hfirst, and_iff_right hnow]
    · rw [if_neg hzero] at hfirst
      rw [sends_iff_of_wake hbytes hroom hfirst]
      by_cases hin : wake < deadline
      · have hsecond := hpoll (some wake) wake hin
        have hover : wakeOf clockEnd delay (some wake) wake ≤ wake := Int.le_refl wake.nanos
        rw [if_pos hover] at hsecond
        have hroom' : wake < clockEnd := Int.lt_of_lt_of_le hin hclock
        rw [sends_iff_of_chunk hchunk hroom' hsecond, and_iff_right hin]
      · have hreached : reached (asleep (some wake)).dropDeadline
            ((asleep (some wake)).idealEnv clockEnd wake).dropNow = true := by
          rw [hdeadline]
          exact decide_eq_true (Int.not_lt.mp hin)
        exact iff_of_false (not_sends_of_end hbytes (pollNext_of_reached hreached))
          fun h => hin h.1

private theorem sends_iff_of_sleep_of_rest {asleep : Option Instant → DeliveryStream}
    {chunk rest : List UInt8} {n : ℕ} (hchunk : chunk ≠ [])
    (hdeadline : ∀ sleep, (asleep sleep).dropDeadline = some deadline)
    (hpoll : ∀ sleep now, now < deadline →
      (asleep sleep).pollNext ((asleep sleep).idealEnv clockEnd now) =
        if wakeOf clockEnd delay sleep now ≤ now then .ok (next, .ready (some chunk))
        else .ok (asleep (some (wakeOf clockEnd delay sleep now)),
          .pending (some (wakeOf clockEnd delay sleep now))))
    (hrest : ∀ wake, wake < deadline →
      (Sends clockEnd next wake rest ↔ wake.nanos + n < deadline.nanos))
    (hnow : now < deadline) (hclock : deadline ≤ clockEnd) :
    Sends clockEnd (asleep none) now (chunk ++ rest) ↔
      now.nanos + (delay.nanos + n : ℕ) < deadline.nanos := by
  rw [sends_iff_of_sleep hchunk hdeadline hpoll hnow hclock]
  constructor
  · rintro ⟨wake, hadd, hin, hsends⟩
    have hwake := Instant.checkedAdd_eq_some.mp hadd
    have := (hrest wake hin).mp hsends
    omega
  · intro hlt
    obtain ⟨wake, hadd, hwake⟩ :=
      Instant.exists_checkedAdd (show now.nanos + delay.nanos ≤ deadline.nanos by omega)
    have hin : wake < deadline := show wake.nanos < deadline.nanos by omega
    exact ⟨wake, hadd, hin, (hrest wake hin).mpr (by omega)⟩

private theorem reached_of_lt (hdeadline : s.dropDeadline = some deadline) (hnow : now < deadline) :
    reached s.dropDeadline now = false := by
  rw [hdeadline]
  exact decide_eq_false (Instant.not_le.mpr hnow)

private theorem nextChunk_append (h : s.Unlimited) (hmore : s.offset < s.body.length)
    (hsize : 0 < s.chunkSize) :
    s.nextChunk ≠ [] ∧
      s.body.drop s.offset = s.nextChunk ++ s.body.drop (s.offset + s.nextLen) := by
  constructor
  · have hlen : s.nextLen = min (s.body.length - s.offset) s.chunkSize := by
      rw [nextLen, h.effectiveLen]
    rw [nextChunk, ne_eq, List.take_eq_nil_iff, List.drop_eq_nil_iff]
    omega
  · rw [nextChunk, ← List.drop_drop]
    exact (List.take_append_drop _ _).symm

private theorem Unlimited.sends_started (h : s.Unlimited) (hdelay : s.chunkDelay = some delay)
    (hsize : 0 < s.chunkSize) (hdeadline : s.dropDeadline = some deadline)
    (hclock : deadline ≤ clockEnd) {k : ℕ}
    (hk : numChunks (s.body.length - offset) s.chunkSize = k) (hnow : now < deadline) :
    Sends clockEnd (s.startedAt offset none) now (s.body.drop offset) ↔
      now.nanos + (k * delay.nanos : ℕ) < deadline.nanos := by
  have hnow' : now.nanos < deadline.nanos := hnow
  induction k generalizing offset now with
  | zero =>
    have hend : s.body.length ≤ offset := le_of_numChunks_eq_zero hsize hk
    rw [List.drop_eq_nil_iff.mpr hend]
    exact iff_of_true (.done _ _) (by omega)
  | succ k ih =>
    have hmore : offset < s.body.length := lt_of_numChunks_eq_succ hsize hk
    have hrest : numChunks (s.body.length - (offset + (s.startedAt offset none).nextLen))
        s.chunkSize = k := by
      rw [nextLen_startedAt h, ← Nat.sub_sub]
      exact numChunks_sub hsize hk
    obtain ⟨hchunk, hsplit⟩ :=
      @nextChunk_append (s.startedAt offset none) h.startedAt hmore hsize
    change s.body.drop offset = _ ++ s.body.drop (offset + _) at hsplit
    have hpoll : ∀ sleep now, now < deadline →
        (s.startedAt offset sleep).pollNext ((s.startedAt offset sleep).idealEnv clockEnd now) =
          if wakeOf clockEnd delay sleep now ≤ now then
            .ok (s.startedAt (offset + (s.startedAt offset none).nextLen) none,
              .ready (some (s.startedAt offset none).nextChunk))
          else .ok (s.startedAt offset (some (wakeOf clockEnd delay sleep now)),
            .pending (some (wakeOf clockEnd delay sleep now))) := by
      intro sleep now hnow
      rw [h.poll_started hdelay (reached_of_lt hdeadline hnow), if_neg (not_le.mpr hmore)]
    have hshape : ∀ sleep, (s.startedAt offset sleep).dropDeadline = some deadline :=
      fun _ => hdeadline
    have hmul : (k + 1) * delay.nanos = delay.nanos + k * delay.nanos := by ring
    rw [hsplit, hmul]
    exact sends_iff_of_sleep_of_rest hchunk hshape hpoll (fun wake hin => ih hrest hin hin) hnow
      hclock

private theorem Unlimited.poll_opening (h : s.Unlimited) (hdone : s.firstByteDone = false)
    (hstarted : s.started = false) (hfirst : s.firstByteDelay = some delay)
    (hmore : s.offset < s.body.length) (sleep : Option Instant)
    (hopen : reached s.dropDeadline now = false) :
    DeliveryStream.pollNext { s with sleep }
        (DeliveryStream.idealEnv clockEnd { s with sleep } now) =
      if wakeOf clockEnd delay sleep now ≤ now then
        .ok (s.startedAt (s.offset + s.nextLen) none, .ready (some s.nextChunk))
      else .ok ({ s with sleep := some (wakeOf clockEnd delay sleep now) },
        .pending (some (wakeOf clockEnd delay sleep now))) := by
  have hdue : DeliveryStream.firstDue { s with sleep }
      (DeliveryStream.idealEnv clockEnd { s with sleep } now) =
        some (wakeOf clockEnd delay sleep now) := by
    simp only [firstDue, hdone, Bool.false_eq_true, ↓reduceIte, hfirst, Option.map_some]
    rfl
  have hready : (DeliveryStream.idealEnv clockEnd { s with sleep } now).firstReady =
      decide (wakeOf clockEnd delay sleep now ≤ now) := by
    change Option.all _ (DeliveryStream.firstDue { s with sleep } _) = _
    simp only [firstDue, hdone, Bool.false_eq_true, ↓reduceIte, hfirst, Option.map_some]
    rfl
  have hafter : DeliveryStream.afterFirst { s with sleep } =
      { s with sleep := none, firstByteDone := true } := by
    simp [afterFirst, hdone, hfirst]
  have hgate : DeliveryStream.firstByteGate { s with sleep }
      (DeliveryStream.idealEnv clockEnd { s with sleep } now) =
        if wakeOf clockEnd delay sleep now ≤ now then
          ({ s with sleep := none, firstByteDone := true }, .ready ())
        else ({ s with sleep := some (wakeOf clockEnd delay sleep now) },
          .pending (some (wakeOf clockEnd delay sleep now))) := by
    rw [firstByteGate_eq, firstWait, hready, hdue, hafter]
    by_cases hwake : wakeOf clockEnd delay sleep now ≤ now <;> simp [hwake]
  have hyield : ∀ env : PollEnv, env.lastNow = now →
      DeliveryStream.yieldChunk { s with sleep := none, firstByteDone := true } env =
        .ok (s.startedAt (s.offset + s.nextLen) none, .ready (some s.nextChunk)) := by
    rintro env rfl
    have hshape : DeliveryStream.Unlimited { s with sleep := none, firstByteDone := true } :=
      ⟨h.dropAfterBytes, h.hangAfterBytes, h.hangDeadline⟩
    exact (hshape.yieldChunk hopen).trans (if_neg (not_le.mpr hmore))
  have hdrop : reached (DeliveryStream.dropDeadline { s with sleep })
      (DeliveryStream.idealEnv clockEnd { s with sleep } now).dropNow = false := hopen
  rw [pollNext, hdrop, if_neg Bool.false_ne_true, hgate]
  split_ifs with hwake
  · dsimp only
    rw [chunkGate, if_neg (by rw [hstarted]; exact Bool.false_ne_true)]
    exact hyield _ rfl
  · rfl

def firstNanos (s : DeliveryStream) : ℕ := (s.firstByteDelay.map Duration.nanos).getD 0

private theorem Unlimited.sends_body_iff (h : s.Unlimited) (hdone : s.firstByteDone = false)
    (hstarted : s.started = false) (hsleep : s.sleep = none) (hoffset : s.offset = 0)
    (hdelay : s.chunkDelay = some delay) (hsize : 0 < s.chunkSize) (hbody : 0 < s.body.length)
    (hdeadline : s.dropDeadline = some deadline) (hclock : deadline ≤ clockEnd) :
    Sends clockEnd s now s.body ↔
      now.nanos + (s.firstNanos +
        (numChunks s.body.length s.chunkSize - 1) * delay.nanos : ℕ) < deadline.nanos := by
  have hne : s.body ≠ [] := List.ne_nil_of_length_pos hbody
  by_cases hnow : now < deadline
  · have hnow' : now.nanos < deadline.nanos := hnow
    have hmore : s.offset < s.body.length := hoffset ▸ hbody
    obtain ⟨k, hk⟩ := Nat.exists_eq_add_of_lt (numChunks_pos hsize hbody)
    rw [Nat.zero_add] at hk
    have hrest : numChunks (s.body.length - (s.offset + s.nextLen)) s.chunkSize = k := by
      rw [nextLen, h.effectiveLen, hoffset, Nat.zero_add, Nat.sub_zero]
      exact numChunks_sub hsize hk
    obtain ⟨hchunk, hsplit⟩ := nextChunk_append h hmore hsize
    rw [hoffset, List.drop_zero, ← hoffset] at hsplit
    have hstart := fun w (hw : w < deadline) => @Unlimited.sends_started s delay clockEnd w
      deadline (s.offset + s.nextLen) h hdelay hsize hdeadline hclock k hrest hw
    rw [hk, Nat.add_sub_cancel, firstNanos]
    conv_lhs => rw [hsplit]
    cases hfirst : s.firstByteDelay with
    | none =>
      have hopen := reached_of_lt hdeadline hnow
      have hpoll := @Unlimited.poll_first s h hfirst hdone hstarted hsleep hmore
        (s.idealEnv clockEnd now) hopen hopen
      rw [sends_iff_of_chunk hchunk (Int.lt_of_lt_of_le hnow hclock) hpoll, hstart now hnow]
      simp
    | some fb =>
      have hpoll := fun sleep now (hnow : now < deadline) =>
        @Unlimited.poll_opening s fb clockEnd now h hdone hstarted hfirst hmore sleep
          (reached_of_lt hdeadline hnow)
      have hshape : ∀ sleep, DeliveryStream.dropDeadline { s with sleep } = some deadline :=
        fun _ => hdeadline
      have hfresh : { s with sleep := none } = s := by rw [← hsleep]
      have hsends := @sends_iff_of_sleep_of_rest _ fb clockEnd now deadline
        (fun sleep => { s with sleep }) s.nextChunk (s.body.drop (s.offset + s.nextLen)) _ hchunk
        hshape hpoll hstart hnow hclock
      simp only [hfresh] at hsends
      rw [hsends, Option.map_some, Option.getD_some]
  · have hreached : reached s.dropDeadline (s.idealEnv clockEnd now).dropNow = true := by
      rw [hdeadline]
      exact decide_eq_true (Int.not_lt.mp hnow)
    refine iff_of_false (not_sends_of_end hne (pollNext_of_reached hreached)) ?_
    have hlate : deadline.nanos ≤ now.nanos := Int.not_lt.mp hnow
    omega

end DeliveryStream

/-- The nanoseconds from the first chunk to the last for a target duration. The number of gaps is
narrowed to 32 bits before the duration is divided by it. -/
def gapNanos (d : Duration) (n : ℕ) : ℕ := (n - 1) * (d.nanos / ((n - 1) % 2 ^ 32))

private theorem PaceDrawn.gaps {len : ℕ} {range : Range Duration} {rng rng' : Rng} {size : ℕ}
    {r : Option Duration} (h : PaceDrawn len (some (.duration range)) rng size r rng') :
    ∃ d delay, range.sample rng = .ok (d, rng') ∧ size = targetChunkSize len ∧ r = some delay ∧
      (targetChunks len - 1) * delay.nanos = gapNanos d (targetChunks len) := by
  cases h with
  | single hd hchunks =>
    refine ⟨_, _, hd, rfl, rfl, ?_⟩
    have hnone : targetChunks len - 1 = 0 := by omega
    rw [gapNanos, hnone, Nat.zero_mul, Nat.zero_mul]
  | spread hd hchunks hdelay =>
    refine ⟨_, _, hd, rfl, rfl, ?_⟩
    rw [hdelay, gapNanos]

private theorem validateRule_eq_nil_iff {rule : Rule} {paceRange dropRange : Range Duration}
    (hpace : rule.delivery.pace = some (.duration paceRange))
    (hdrop : rule.delivery.drop = some (.afterTime dropRange)) (hchaos : rule.chaos = none)
    (index : Option ℕ) :
    validateRule rule index = [] ↔ ¬ dropMillis dropRange < paceMillis paceRange := by
  simp [validateRule, dropWarnings, hpace, hdrop, chaosWarnings, hchaos]

/-- The drop warning foresees a cut body exactly if the first-byte delay and the gaps between the
chunks end before the drop time, unless it is given anyway or there is nothing to cut. -/
theorem drop_warning_complete_iff {rule : Rule} {paceRange dropRange : Range Duration}
    (hpace : rule.delivery.pace = some (.duration paceRange))
    (hdrop : rule.delivery.drop = some (.afterTime dropRange)) (hhang : rule.delivery.hang = none)
    (hchaos : rule.chaos = none) (index : Option ℕ) {body : List UInt8} {start clockEnd : Instant}
    {rng rng' : Rng} {s : DeliveryStream}
    (hdeliver : deliver body rule.delivery start start rng = .ok (s, rng'))
    (hclock : ∀ deadline, s.dropDeadline = some deadline → deadline ≤ clockEnd) :
    ∃ firstByte dropTime duration rng₁ rng₂,
      sampleFirstByte rule.delivery.firstByte rng = .ok (firstByte, rng₁) ∧
        dropRange.sample rng₁ = .ok (dropTime, rng₂) ∧
        paceRange.sample rng₂ = .ok (duration, rng') ∧
        ((validateRule rule index = [] → Sends clockEnd s start body) ↔
          dropMillis dropRange < paceMillis paceRange ∨ body = [] ∨
            (firstByte.map Duration.nanos).getD 0 +
              gapNanos duration (targetChunks body.length) < dropTime.nanos) := by
  have hs := deliver_delivered hdeliver
  obtain ⟨rng₁, rng₂, rng₃, hfirst, hdropped, hhung, hpaced⟩ := hs.samples
  rw [hdrop] at hdropped
  rw [hhang] at hhung
  rw [hpace] at hpaced
  obtain ⟨dropTime, deadline, hdropTime, hdropBytes, hdropDeadline, hdeadline⟩ :=
    (sampleDrop_drawn hdropped).of_time
  obtain ⟨hhangBytes, hhangDeadline, rfl⟩ := (sampleHang_drawn hhung).none
  obtain ⟨duration, delay, hduration, hsize, hdelay, hgaps⟩ := (samplePace_drawn hpaced).gaps
  refine ⟨s.firstByteDelay, dropTime, duration, _, _, hfirst, hdropTime, hduration, ?_⟩
  have hshape : s.Unlimited := ⟨hdropBytes, hhangBytes, hhangDeadline⟩
  have hsends : Sends clockEnd s start body ↔ body = [] ∨
      (s.firstByteDelay.map Duration.nanos).getD 0 +
        gapNanos duration (targetChunks body.length) < dropTime.nanos := by
    rcases List.eq_nil_or_concat body with rfl | ⟨init, last, hbody⟩
    · exact iff_of_true (.done _ _) (Or.inl rfl)
    · have hlen : 0 < body.length := by simp [hbody]
      have hsent := @Unlimited.sends_body_iff s delay clockEnd start deadline hshape
        hs.firstByteDone hs.started hs.sleep hs.offset hdelay (hsize ▸ targetChunkSize_pos _)
        (hs.body ▸ hlen) hdropDeadline (hclock deadline hdropDeadline)
      rw [hs.body, hsize, ← targetChunks, hgaps, firstNanos, hdeadline] at hsent
      rw [hsent, or_iff_right (List.ne_nil_of_length_pos hlen)]
      omega
  rw [validateRule_eq_nil_iff hpace hdrop hchaos, hsends]
  exact or_iff_not_imp_left.symm

/-- A rule whose pace is a time and that drops after one. -/
def pacedRule (pace drop : Duration) : Rule where
  matchRule := .catchAll
  reply := .static {}
  delivery := { pace := some (.duration (.fixed pace)), drop := some (.afterTime (.fixed drop)) }
  behavior := {}
  chaos := none
  source := .null

theorem drop_warning_complete_iff_two_bytes :
    let rule := pacedRule ⟨3, by decide⟩ ⟨6, by decide⟩
    let clockEnd : Instant := ⟨99, by decide⟩
    ∃ s rng', deliver [1, 2] rule.delivery .zero .zero ⟨fun _ => 0⟩ = .ok (s, rng') ∧
      ∃ (firstByte : Option Duration) (dropTime duration : Duration) (rng₁ rng₂ : Rng),
        sampleFirstByte none ⟨fun _ => 0⟩ = .ok (firstByte, rng₁) ∧
          Range.sample (.fixed ⟨6, by decide⟩) rng₁ = .ok (dropTime, rng₂) ∧
          Range.sample (.fixed ⟨3, by decide⟩) rng₂ = .ok (duration, rng') ∧
          ((validateRule rule none = [] → Sends clockEnd s .zero [1, 2]) ↔
            dropMillis (.fixed ⟨6, by decide⟩) < paceMillis (.fixed ⟨3, by decide⟩) ∨
              [1, 2] = ([] : List UInt8) ∨
              (firstByte.map Duration.nanos).getD 0 + gapNanos duration (targetChunks 2) <
                dropTime.nanos) := by
  intro rule clockEnd
  refine ⟨_, _, rfl, ?_⟩
  exact @drop_warning_complete_iff rule (.fixed ⟨3, by decide⟩) (.fixed ⟨6, by decide⟩) rfl rfl rfl
    rfl none [1, 2] .zero clockEnd ⟨fun _ => 0⟩ _ _ rfl (by rintro _ ⟨⟩; decide)

/-- A drop after exactly the pace cuts the second of two bytes, without a warning. -/
theorem drop_at_pace_cuts :
    let rule := pacedRule ⟨10 ^ 9, by decide⟩ ⟨10 ^ 9, by decide⟩
    validateRule rule none = [] ∧
      ∃ s rng', deliver [1, 2] rule.delivery .zero .zero ⟨fun _ => 0⟩ = .ok (s, rng') ∧
        ¬ Sends ⟨10 ^ 10, by decide⟩ s .zero [1, 2] := by
  intro rule
  refine ⟨by decide +kernel, ?_⟩
  obtain ⟨deadline, hadd, hnanos⟩ := @Instant.exists_checkedAdd .zero ⟨10 ^ 10, by decide⟩
    ⟨10 ^ 9, by decide⟩ (by decide)
  have hdrop : sampleDrop .zero rule.delivery.drop ⟨fun _ => 0⟩ =
      .ok ((none, some deadline), ⟨fun _ => 0⟩) := sampleDrop_fixed hnanos _
  obtain ⟨delay, hdelay, hpace⟩ := @samplePace_duration 2 (.fixed ⟨10 ^ 9, by decide⟩)
    ⟨fun _ => 0⟩ ⟨fun _ => 0⟩ ⟨10 ^ 9, by decide⟩ (by decide) rfl
  have hdeliver := @deliver_of_samples [1, 2] rule.delivery .zero .zero _ _ _ _ _ none _ _ _ _ _ _
    rfl hdrop rfl hpace
  refine ⟨_, _, hdeliver, ?_⟩
  have hs := deliver_delivered hdeliver
  have hsent := @Unlimited.sends_body_iff _ delay ⟨10 ^ 10, by decide⟩ .zero deadline
    ⟨rfl, rfl, rfl⟩ hs.firstByteDone hs.started hs.sleep hs.offset rfl (targetChunkSize_pos 2)
    Nat.two_pos rfl (show deadline.nanos ≤ 10 ^ 10 by rw [hnanos]; decide)
  intro hsends
  have hlt := hsent.mp hsends
  rw [hnanos, hdelay] at hlt
  change (0 : ℤ) + ((0 + (targetChunks 2 - 1) * targetDelay ⟨10 ^ 9, by decide⟩ (targetChunks 2) :
    ℕ) : ℤ) < 0 + ((10 ^ 9 : ℕ) : ℤ) at hlt
  exact absurd hlt (by decide)

end Mockinx
