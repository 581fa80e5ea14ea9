import Mockinx.Lib.Spaced
import Mockinx.Serve.DeliveryExact

/-!
Pace as a bandwidth cap. Streams are polled in exact time, where the delay between two chunks is the
chunk size over the speed.
-/

set_option autoImplicit false
set_option relaxedAutoImplicit false

namespace Mockinx

open Lib Lib.Run DeliveryStream

/-- A poll with the times at which it begins and has finished, in seconds. -/
structure TimedPoll where
  env : PollEnv
  began : ℚ
  finished : ℚ

/-- A stream in exact time: when its last poll had finished, and when the poll began that started
the sleep in progress. -/
structure ExactClock where
  stream : DeliveryStream
  now : ℚ
  asleep : Option ℚ

structure ExactClock.Admits (delay : ℚ) (c : ExactClock) (a : TimedPoll) : Prop where
  began : c.now ≤ a.began
  finished : a.began ≤ a.finished
  chunkFired : a.env.chunkReady = true → c.stream.started = true →
    c.asleep.getD a.began + delay ≤ a.finished

instance ExactClock.decidableAdmits (delay : ℚ) (c : ExactClock) (a : TimedPoll) :
    Decidable (c.Admits delay a) :=
  decidable_of_iff
    (c.now ≤ a.began ∧ a.began ≤ a.finished ∧
      (a.env.chunkReady = true → c.stream.started = true →
        c.asleep.getD a.began + delay ≤ a.finished))
    ⟨fun ⟨h₁, h₂, h₃⟩ => ⟨h₁, h₂, h₃⟩, fun ⟨h₁, h₂, h₃⟩ => ⟨h₁, h₂, h₃⟩⟩

/-- One poll in exact time, with a delay between chunks. -/
def exactStep (delay : ℚ) (c : ExactClock) (a : TimedPoll) :
    Option (ExactClock × (ℚ × Poll (Option (List UInt8)))) :=
  if c.Admits delay a then
    (c.stream.pollStep a.env).map fun r =>
      ({ stream := r.1
         now := a.finished
         asleep := if r.1.sleep.isSome then some (c.asleep.getD a.began) else none },
        (a.finished, r.2))
  else none

/-- The chunks that were sent, with their times and sizes. -/
def arrivals (outs : List (ℚ × Poll (Option (List UInt8)))) : List (ℚ × ℚ) :=
  outs.filterMap fun o =>
    match o.2 with
    | .ready (some chunk) => some (o.1, (chunk.length : ℚ))
    | _ => none

private theorem arrivals_append (outs outs' : List (ℚ × Poll (Option (List UInt8)))) :
    arrivals (outs ++ outs') = arrivals outs ++ arrivals outs' :=
  List.filterMap_append

private theorem exactStep_path {delay : ℚ} {c c' : ExactClock} {a : TimedPoll}
    {o : ℚ × Poll (Option (List UInt8))} (h : exactStep delay c a = some (c', o)) :
    c.Admits delay a ∧ o.1 = a.finished ∧ c'.now = a.finished ∧
      c'.asleep = (if c'.stream.sleep.isSome then some (c.asleep.getD a.began) else none) ∧
      PollPath c.stream a.env (c'.stream, o.2) := by
  rw [exactStep] at h
  split_ifs at h with hadmits
  obtain ⟨r, hr, heq⟩ := Option.map_eq_some_iff.mp h
  obtain ⟨rfl, rfl⟩ := Prod.mk.inj heq
  exact ⟨hadmits, rfl, rfl, rfl, pollStep_path hr⟩

structure Capped (delay : ℚ) (size : ℕ) (c : ExactClock) (sent : List (ℚ × ℚ)) : Prop where
  slotted : c.stream.Slotted
  paced : c.stream.chunkDelay.isSome
  chunkSize : c.stream.chunkSize = size
  unsent : c.stream.started = false → sent = []
  sent_le : ∀ e ∈ sent.getLast?, e.1 ≤ c.now
  asleep : c.stream.started = true → ∀ time ∈ c.asleep, ∀ e ∈ sent.getLast?, e.1 ≤ time
  spaced : Spaced delay sent
  sizes : ∀ e ∈ sent, e.2 ≤ size

namespace Capped

variable {delay : ℚ} {size : ℕ} {c c' : ExactClock} {sent : List (ℚ × ℚ)} {a : TimedPoll}

private theorem sleep_afterDelays (h : Capped delay size c sent) :
    c.stream.afterDelays.sleep = none := by
  refine h.slotted.sleep_afterDelays.resolve_right ?_
  rintro ⟨_, hnone⟩
  have hpaced := h.paced
  rw [hnone] at hpaced
  cases hpaced

private theorem last_le (h : Capped delay size c sent) (ha : c.Admits delay a)
    (hstarted : c.stream.started = true) {e : ℚ × ℚ} (he : e ∈ sent.getLast?) :
    e.1 ≤ c.asleep.getD a.began := by
  cases hasleep : c.asleep with
  | none => exact (h.sent_le e he).trans ha.began
  | some time => exact h.asleep hstarted time hasleep e he

private theorem delay_over (h : Capped delay size c sent) (ha : c.Admits delay a)
    (hpass : c.stream.Passes a.env) {e : ℚ × ℚ} (he : e ∈ sent.getLast?) :
    e.1 + delay ≤ a.finished := by
  cases hstarted : c.stream.started with
  | false =>
    rw [h.unsent hstarted] at he
    cases he
  | true =>
    obtain ⟨d, hd⟩ := Option.isSome_iff_exists.mp h.paced
    have hready : a.env.chunkReady = true := by
      by_contra hnot
      have hwait := hpass.chunk
      rw [chunkWait, if_neg hnot, chunkDue] at hwait
      change (if c.stream.started then c.stream.chunkDelay.map _ else none) = none at hwait
      rw [hstarted, hd] at hwait
      cases hwait
    have hlast := h.last_le ha hstarted he
    have hover := ha.chunkFired hready hstarted
    linarith

private theorem asleep_le (h : Capped delay size c sent) (ha : c.Admits delay a) {slept : Bool}
    (hstarted : c.stream.started = true) {time : ℚ}
    (htime : time ∈ if slept then some (c.asleep.getD a.began) else none) {e : ℚ × ℚ}
    (he : e ∈ sent.getLast?) : e.1 ≤ time := by
  split_ifs at htime
  · obtain rfl := Option.some.inj htime
    exact h.last_le ha hstarted he
  · cases htime

private theorem keep (h : Capped delay size c sent) (ha : c.Admits delay a) {t : DeliveryStream}
    (hslotted : t.Slotted) (hdelay : t.chunkDelay = c.stream.chunkDelay)
    (hsize : t.chunkSize = c.stream.chunkSize) (hstarted : t.started = c.stream.started) :
    Capped delay size
      { stream := t
        now := a.finished
        asleep := if t.sleep.isSome then some (c.asleep.getD a.began) else none } sent where
  slotted := hslotted
  paced := hdelay ▸ h.paced
  chunkSize := hsize.trans h.chunkSize
  unsent hnot := h.unsent (hstarted ▸ hnot)
  sent_le e he := (h.sent_le e he).trans (ha.began.trans ha.finished)
  asleep hyes _ htime _ he := h.asleep_le ha (hstarted ▸ hyes) htime he
  spaced := h.spaced
  sizes := h.sizes

private theorem length_nextChunk_le (h : Capped delay size c sent) :
    c.stream.nextChunk.length ≤ size := by
  rw [nextChunk, List.length_take, nextLen, h.chunkSize]
  omega

private theorem send (h : Capped delay size c sent) (ha : c.Admits delay a)
    (hpass : c.stream.Passes a.env) {t : DeliveryStream} (hslotted : t.Slotted)
    (hdelay : t.chunkDelay = c.stream.chunkDelay) (hsize : t.chunkSize = c.stream.chunkSize)
    (hstarted : t.started = true) (hsleep : t.sleep = none) :
    Capped delay size
      { stream := t
        now := a.finished
        asleep := if t.sleep.isSome then some (c.asleep.getD a.began) else none }
      (sent ++ [(a.finished, (c.stream.nextChunk.length : ℚ))]) where
  slotted := hslotted
  paced := hdelay ▸ h.paced
  chunkSize := hsize.trans h.chunkSize
  unsent hnot := by cases hstarted.symm.trans hnot
  sent_le e he := by
    rw [List.getLast?_concat] at he
    obtain rfl := Option.some.inj he
    exact le_rfl
  asleep _ _ htime := by
    rw [hsleep] at htime
    cases htime
  spaced := by
    refine List.isChain_append.mpr ⟨h.spaced, List.isChain_singleton _, ?_⟩
    intro e he e' he'
    obtain rfl := Option.some.inj he'
    exact h.delay_over ha hpass he
  sizes e he := by
    rcases List.mem_append.mp he with he | he
    · exact h.sizes e he
    · rw [List.mem_singleton.mp he]
      exact Nat.cast_le.mpr h.length_nextChunk_le

/-- The step lemma. -/
private theorem step {o : ℚ × Poll (Option (List UInt8))} (h : Capped delay size c sent)
    (hstep : exactStep delay c a = some (c', o)) :
    Capped delay size c' (sent ++ arrivals [o]) := by
  obtain ⟨ha, ho, hnow, hasleep, hpath⟩ := exactStep_path hstep
  obtain ⟨t, now, asleep⟩ := c'
  obtain ⟨time, p⟩ := o
  obtain rfl : time = a.finished := ho
  obtain rfl : now = a.finished := hnow
  obtain rfl : asleep = if t.sleep.isSome then some (c.asleep.getD a.began) else none := hasleep
  have hslotted := h.slotted.path hpath
  have hsilent : sent ++ [] = sent := List.append_nil sent
  cases hpath with
  | sends hpass hhang hmore hdrop =>
    exact h.send ha hpass hslotted rfl rfl rfl h.sleep_afterDelays
  | _ => exact hsilent.symm ▸ h.keep ha hslotted rfl rfl rfl

end Capped

private theorem capped_start {delay : ℚ} {s : DeliveryStream} {start : ℚ} (hsleep : s.sleep = none)
    (hstarted : s.started = false) (hdelay : s.chunkDelay.isSome) :
    Capped delay s.chunkSize { stream := s, now := start, asleep := none } [] where
  slotted :=
    { started := fun h => by cases hstarted.symm.trans h
      idle := fun _ _ => hsleep }
  paced := hdelay
  chunkSize := rfl
  unsent _ := rfl
  sent_le := by simp
  asleep h := by cases hstarted.symm.trans h
  spaced := List.isChain_nil
  sizes := by simp

/-- The run lemma. -/
private theorem capped_run {delay start : ℚ} {s : DeliveryStream} {c : ExactClock}
    {polls : List TimedPoll}
    {outs : List (ℚ × Poll (Option (List UInt8)))} (hsleep : s.sleep = none)
    (hstarted : s.started = false) (hdelay : s.chunkDelay.isSome)
    (h : run (exactStep delay) { stream := s, now := start, asleep := none } polls =
      some (c, outs)) : Capped delay s.chunkSize c (arrivals outs) := by
  have hstart : Capped delay s.chunkSize { stream := s, now := start, asleep := none }
      (arrivals []) := capped_start hsleep hstarted hdelay
  refine run_history (I := fun c outs => Capped delay s.chunkSize c (arrivals outs)) ?_ h hstart
  intro c outs a c' o hc hstep
  rw [arrivals_append]
  exact hc.step hstep

/-- The speed that a delivery draws, after the samples of its other fields. -/
def sampleSpeed (spec : DeliverySpec) (range : Range Speed) (dropNow hangNow : Instant) :
    Sampler Speed := do
  let _ ← sampleFirstByte spec.firstByte
  let _ ← sampleDrop dropNow spec.drop
  let _ ← sampleHang hangNow spec.hang
  range.sample

private theorem deliver_speed {body : List UInt8} {spec : DeliverySpec} {range : Range Speed}
    {dropNow hangNow : Instant} {rng rng₁ rng₂ : Rng} {s : DeliveryStream} {speed : Speed}
    (hpace : spec.pace = some (.speed range))
    (hdeliver : deliver body spec dropNow hangNow rng = .ok (s, rng₁))
    (hspeed : sampleSpeed spec range dropNow hangNow rng = .ok (speed, rng₂))
    (hpos : 1 ≤ speed.bytesPerSec.toNat) :
    s.chunkSize = max (speed.bytesPerSec.toNat / 10) 1 ∧ s.chunkDelay.isSome := by
  obtain ⟨rngA, rngB, rngC, hfirst, hdrop, hhang, hsample⟩ := (deliver_delivered hdeliver).samples
  rw [sampleSpeed, sampler_bind_of_ok hfirst, sampler_bind_of_ok hdrop,
    sampler_bind_of_ok hhang] at hspeed
  rw [hpace, samplePace, sampler_bind_of_ok hspeed] at hsample
  dsimp only at hsample
  rw [if_neg (by omega)] at hsample
  obtain ⟨delay, _, _, hsample⟩ := sampler_bind_ok.mp hsample
  obtain ⟨heq, _⟩ := sampler_pure_ok.mp hsample
  obtain ⟨hsize, hdelay⟩ := Prod.mk.inj heq
  exact ⟨hsize.symm, hdelay ▸ rfl⟩

/-- A speed caps the bandwidth, over every run in exact time: from any chunk on, what is sent within
`t` seconds is at most what the speed allows for them, and one chunk. -/
theorem speed_capped {body : List UInt8} {spec : DeliverySpec} {range : Range Speed}
    {dropNow hangNow : Instant} {rng rng₁ rng₂ : Rng} {s : DeliveryStream} {speed : Speed}
    {start : ℚ} {polls : List TimedPoll} {c : ExactClock}
    {outs : List (ℚ × Poll (Option (List UInt8)))}
    (hpace : spec.pace = some (.speed range))
    (hdeliver : deliver body spec dropNow hangNow rng = .ok (s, rng₁))
    (hspeed : sampleSpeed spec range dropNow hangNow rng = .ok (speed, rng₂))
    (hpos : 1 ≤ speed.bytesPerSec.toNat)
    (hrun : run (exactStep (s.chunkSize / speed.bytesPerSec.toNat))
      { stream := s, now := start, asleep := none } polls = some (c, outs)) :
    ∀ before u chunk after, outs = before ++ (u, .ready (some chunk)) :: after → ∀ t : ℚ, 0 ≤ t →
      amountBy (u + t) (arrivals ((u, .ready (some chunk)) :: after)) ≤
        speed.bytesPerSec.toNat * t + (max (speed.bytesPerSec.toNat / 10) 1 : ℕ) := by
  obtain ⟨hsize, hdelay⟩ := deliver_speed hpace hdeliver hspeed hpos
  have hs := deliver_delivered hdeliver
  have hcapped := capped_run hs.sleep hs.started hdelay hrun
  intro before u chunk after hsplit t ht
  have hrate : (0 : ℚ) < speed.bytesPerSec.toNat := by exact_mod_cast hpos
  have harrivals : arrivals outs =
      arrivals before ++ (u, (chunk.length : ℚ)) :: arrivals after := by
    rw [hsplit, arrivals_append]
    rfl
  have hspaced := hcapped.spaced
  have hsizes := hcapped.sizes
  rw [harrivals] at hspaced hsizes
  have hfrom := (List.isChain_append.mp hspaced).2.1
  rw [← hsize]
  refine Spaced.amountBy_le (div_nonneg (Nat.cast_nonneg _) hrate.le) hrate.le ?_ hfrom ?_ ht
  · rw [mul_div_cancel₀ _ hrate.ne']
  · exact fun e he => hsizes e (List.mem_append_right _ he)

theorem speed_capped_three_bytes :
    let poll (began finished : ℚ) (fired : Bool) : TimedPoll :=
      ⟨⟨.zero, .zero, fired, .zero, fired, .zero, .zero, .zero⟩, began, finished⟩
    let spec : DeliverySpec := { pace := some (.speed (.fixed ⟨10⟩)) }
    let polls := [poll 0 0 false, poll 0 0 false, poll (1 / 10) (1 / 10) true, poll 1 2 true]
    ∃ s rng c outs, deliver [1, 2, 3] spec .zero .zero ⟨fun _ => 0⟩ = .ok (s, rng) ∧
      run (exactStep (s.chunkSize / 10)) { stream := s, now := 0, asleep := none } polls =
        some (c, outs) ∧
      arrivals outs = [(0, 1), (1 / 10, 1), (2, 1)] ∧
      ∀ before u chunk after, outs = before ++ (u, .ready (some chunk)) :: after →
        ∀ t : ℚ, 0 ≤ t → amountBy (u + t) (arrivals ((u, .ready (some chunk)) :: after)) ≤
          10 * t + 1 := by
  intro poll spec polls
  have hall : (deliver [1, 2, 3] spec .zero .zero ⟨fun _ => 0⟩).toOption.bind (fun r =>
      (run (exactStep (r.1.chunkSize / 10)) { stream := r.1, now := 0, asleep := none } polls).map
        fun q => arrivals q.2) = some [(0, 1), (1 / 10, 1), (2, 1)] := by decide +kernel
  cases hdeliver : deliver [1, 2, 3] spec .zero .zero ⟨fun _ => 0⟩ with
  | error e =>
    rw [hdeliver] at hall
    cases hall
  | ok r =>
    rw [hdeliver] at hall
    obtain ⟨⟨c, outs⟩, hrun, harrivals⟩ := Option.map_eq_some_iff.mp hall
    refine ⟨r.1, r.2, c, outs, rfl, hrun, harrivals, ?_⟩
    exact @speed_capped _ spec (.fixed ⟨10⟩) .zero .zero _ r.2 _ r.1 ⟨10⟩ 0 polls c outs rfl
      hdeliver rfl (by decide) hrun

end Mockinx
