import Mockinx.Serve.DeliveryExact

/-!
When a delivery stream sends. Its polls are run on a clock that does not go back, with sleeps that
have fired only at or after their deadlines; the one sleep slot serves the delay before the first
byte and then the delays between chunks.
-/

set_option autoImplicit false
set_option relaxedAutoImplicit false

namespace Mockinx

open Lib Lib.Run DeliveryStream

/-- A stream on a clock, with the last reading. -/
structure Clocked where
  stream : DeliveryStream
  now : Instant

/-- What the clock and the timers promise of a poll. The clock stays before a horizon, and a sleep
past the range of the clock is not over before it. -/
structure Clocked.Admits (horizon : Instant) (c : Clocked) (env : PollEnv) : Prop where
  drop : c.now.nanos ≤ env.dropNow.nanos
  first : env.dropNow.nanos ≤ env.firstStart.nanos
  chunk : env.firstStart.nanos ≤ env.chunkStart.nanos
  hang : env.chunkStart.nanos ≤ env.hangNow.nanos
  last : env.hangNow.nanos ≤ env.lastNow.nanos
  beforeHorizon : env.lastNow.nanos < horizon.nanos
  farFuture : horizon.nanos ≤ env.farFuture.nanos
  firstFired : env.firstReady = true →
    ∀ wake ∈ c.stream.firstDue env, wake.nanos ≤ env.chunkStart.nanos
  chunkFired : env.chunkReady = true →
    ∀ wake ∈ c.stream.afterFirst.chunkDue env, wake.nanos ≤ env.hangNow.nanos

instance (horizon : Instant) (c : Clocked) (env : PollEnv) : Decidable (c.Admits horizon env) :=
  decidable_of_iff
    (c.now.nanos ≤ env.dropNow.nanos ∧ env.dropNow.nanos ≤ env.firstStart.nanos ∧
      env.firstStart.nanos ≤ env.chunkStart.nanos ∧ env.chunkStart.nanos ≤ env.hangNow.nanos ∧
      env.hangNow.nanos ≤ env.lastNow.nanos ∧ env.lastNow.nanos < horizon.nanos ∧
      horizon.nanos ≤ env.farFuture.nanos ∧
      (env.firstReady = true →
        ∀ wake ∈ c.stream.firstDue env, wake.nanos ≤ env.chunkStart.nanos) ∧
      (env.chunkReady = true →
        ∀ wake ∈ c.stream.afterFirst.chunkDue env, wake.nanos ≤ env.hangNow.nanos))
    ⟨fun ⟨h₁, h₂, h₃, h₄, h₅, h₆, h₇, h₈, h₉⟩ => ⟨h₁, h₂, h₃, h₄, h₅, h₆, h₇, h₈, h₉⟩,
      fun ⟨h₁, h₂, h₃, h₄, h₅, h₆, h₇, h₈, h₉⟩ => ⟨h₁, h₂, h₃, h₄, h₅, h₆, h₇, h₈, h₉⟩⟩

/-- One poll on the clock; its output tells what it read. -/
def clockedStep (horizon : Instant) (c : Clocked) (env : PollEnv) :
    Option (Clocked × (PollEnv × Poll (Option (List UInt8)))) :=
  if c.Admits horizon env then
    (c.stream.pollStep env).map fun r => ({ stream := r.1, now := env.lastNow }, (env, r.2))
  else none

/-- The polls that sent a chunk. -/
def sentAt (outs : List (PollEnv × Poll (Option (List UInt8)))) : List PollEnv :=
  outs.filterMap fun o =>
    match o.2 with
    | .ready (some _) => some o.1
    | _ => none

private theorem sentAt_append (outs outs' : List (PollEnv × Poll (Option (List UInt8)))) :
    sentAt (outs ++ outs') = sentAt outs ++ sentAt outs' :=
  List.filterMap_append

private theorem clockedStep_path {horizon : Instant} {c c' : Clocked} {env : PollEnv}
    {o : PollEnv × Poll (Option (List UInt8))} (h : clockedStep horizon c env = some (c', o)) :
    c.Admits horizon env ∧ o.1 = env ∧ c'.now = env.lastNow ∧
      PollPath c.stream env (c'.stream, o.2) := by
  rw [clockedStep] at h
  split_ifs at h with hadmits
  obtain ⟨r, hr, heq⟩ := Option.map_eq_some_iff.mp h
  obtain ⟨rfl, rfl⟩ := Prod.mk.inj heq
  exact ⟨hadmits, rfl, rfl, pollStep_path hr⟩

def FirstByteBy (s₀ : DeliveryStream) (start : Instant) (t : ℤ) : Prop :=
  ∀ delay ∈ s₀.firstByteDelay, start.nanos + delay.nanos ≤ t

def NextChunkBy (s₀ : DeliveryStream) (sent : List PollEnv) (t : ℤ) : Prop :=
  ∀ delay ∈ s₀.chunkDelay, ∀ e ∈ sent.getLast?, e.lastNow.nanos + delay.nanos ≤ t

/-- One poll is at least a delay after another one. -/
def Apart (delay : Duration) (e e' : PollEnv) : Prop :=
  e.lastNow.nanos + (delay.nanos : ℤ) ≤ e'.lastNow.nanos

private theorem FirstByteBy.mono {s₀ : DeliveryStream} {start : Instant} {t u : ℤ}
    (h : FirstByteBy s₀ start t) (hle : t ≤ u) : FirstByteBy s₀ start u :=
  fun delay hdelay => (h delay hdelay).trans hle

private theorem NextChunkBy.mono {s₀ : DeliveryStream} {sent : List PollEnv} {t u : ℤ}
    (h : NextChunkBy s₀ sent t) (hle : t ≤ u) : NextChunkBy s₀ sent u :=
  fun delay hdelay e he => (h delay hdelay e he).trans hle

structure OnTime (s₀ : DeliveryStream) (start horizon : Instant) (c : Clocked)
    (sent : List PollEnv) : Prop where
  firstByteDelay : c.stream.firstByteDelay = s₀.firstByteDelay
  chunkDelay : c.stream.chunkDelay = s₀.chunkDelay
  dropDeadline : c.stream.dropDeadline = s₀.dropDeadline
  hangDeadline : c.stream.hangDeadline = s₀.hangDeadline
  start_le : start.nanos ≤ c.now.nanos
  sent_le : ∀ e ∈ sent, e.lastNow.nanos ≤ c.now.nanos
  started : c.stream.started = true → c.stream.firstByteDone = true
  unsent : c.stream.started = false → sent = []
  idle : c.stream.started = false →
    c.stream.firstByteDone = true ∨ s₀.firstByteDelay = none → c.stream.sleep = none
  firstSlot : c.stream.firstByteDone = false → ∀ wake ∈ c.stream.sleep,
    FirstByteBy s₀ start wake.nanos ∨ horizon.nanos ≤ wake.nanos
  firstDone : c.stream.firstByteDone = true → FirstByteBy s₀ start c.now.nanos
  chunkSlot : c.stream.started = true → ∀ wake ∈ c.stream.sleep,
    NextChunkBy s₀ sent wake.nanos ∨ horizon.nanos ≤ wake.nanos
  firstByte : ∀ e ∈ sent, FirstByteBy s₀ start e.lastNow.nanos
  spaced : ∀ delay ∈ s₀.chunkDelay, sent.IsChain (Apart delay)
  deadlines : ∀ e ∈ sent, (∀ d ∈ s₀.dropDeadline, e.lastNow.nanos < d.nanos) ∧
    ∀ d ∈ s₀.hangDeadline, e.hangNow.nanos < d.nanos

private theorem wakeAt_late {horizon : Instant} {env : PollEnv}
    (h : horizon.nanos ≤ env.farFuture.nanos) (now : Instant) (delay : Duration) :
    now.nanos + delay.nanos ≤ (env.wakeAt now delay).nanos ∨
      horizon.nanos ≤ (env.wakeAt now delay).nanos := by
  rw [PollEnv.wakeAt]
  cases hadd : now.checkedAdd delay with
  | none => exact Or.inr h
  | some wake =>
    exact Or.inl (Instant.checkedAdd_eq_some.mp hadd).ge

namespace OnTime

variable {s₀ : DeliveryStream} {start horizon : Instant} {c : Clocked} {sent : List PollEnv}
  {env : PollEnv}

private theorem firstDue (h : OnTime s₀ start horizon c sent) (ha : c.Admits horizon env)
    {wake : Instant} (hdue : c.stream.firstDue env = some wake) :
    FirstByteBy s₀ start wake.nanos ∨ horizon.nanos ≤ wake.nanos := by
  rw [DeliveryStream.firstDue] at hdue
  split_ifs at hdue with hdone
  obtain ⟨delay, hdelay, rfl⟩ := Option.map_eq_some_iff.mp hdue
  cases hsleep : c.stream.sleep with
  | some wake => exact h.firstSlot (Bool.eq_false_of_not_eq_true hdone) wake hsleep
  | none =>
    refine (wakeAt_late ha.farFuture env.firstStart delay).imp_left ?_
    intro hlate delay' hdelay'
    rw [← h.firstByteDelay, hdelay] at hdelay'
    obtain rfl := Option.some.inj hdelay'
    have hstart := h.start_le.trans (ha.drop.trans ha.first)
    change _ ≤ (env.wakeAt env.firstStart delay).nanos
    omega

private theorem first_over (h : OnTime s₀ start horizon c sent) (ha : c.Admits horizon env)
    (hwait : c.stream.firstWait env = none) : FirstByteBy s₀ start env.chunkStart.nanos := by
  have hnow : c.now.nanos ≤ env.chunkStart.nanos := ha.drop.trans (ha.first.trans ha.chunk)
  have hhorizon : env.chunkStart.nanos < horizon.nanos :=
    (ha.hang.trans ha.last).trans_lt ha.beforeHorizon
  cases hdone : c.stream.firstByteDone with
  | true => exact (h.firstDone hdone).mono hnow
  | false =>
    intro delay hdelay
    have hsome : c.stream.firstByteDelay = some delay := h.firstByteDelay.trans hdelay
    have hdue : ∃ wake, c.stream.firstDue env = some wake := by
      rw [DeliveryStream.firstDue, hdone, hsome]
      exact ⟨_, rfl⟩
    obtain ⟨wake, hdue⟩ := hdue
    have hready : env.firstReady = true := by
      by_contra hnot
      rw [firstWait, if_neg hnot, hdue] at hwait
      cases hwait
    have hfired := ha.firstFired hready wake hdue
    rcases h.firstDue ha hdue with hby | hfar
    · exact (hby.mono hfired) delay hdelay
    · omega

private theorem chunkDue (h : OnTime s₀ start horizon c sent) (ha : c.Admits horizon env)
    {wake : Instant} (hdue : c.stream.afterFirst.chunkDue env = some wake) :
    NextChunkBy s₀ sent wake.nanos ∨ horizon.nanos ≤ wake.nanos := by
  rw [DeliveryStream.chunkDue] at hdue
  split_ifs at hdue with hstarted
  obtain ⟨delay, hdelay, rfl⟩ := Option.map_eq_some_iff.mp hdue
  have hdone : c.stream.firstByteDone = true := h.started hstarted
  have hslot : c.stream.afterFirst.sleep = c.stream.sleep := by simp [afterFirst, hdone]
  rw [hslot]
  cases hsleep : c.stream.sleep with
  | some wake => exact h.chunkSlot hstarted wake hsleep
  | none =>
    refine (wakeAt_late ha.farFuture env.chunkStart delay).imp_left ?_
    intro hlate delay' hdelay' e he
    rw [← h.chunkDelay] at hdelay'
    obtain rfl := Option.some.inj (hdelay.symm.trans hdelay')
    have hsent := h.sent_le e (List.mem_of_getLast? he)
    have hstart := ha.drop.trans (ha.first.trans ha.chunk)
    change _ ≤ (env.wakeAt env.chunkStart delay).nanos
    omega

private theorem chunk_over (h : OnTime s₀ start horizon c sent) (ha : c.Admits horizon env)
    (hwait : c.stream.afterFirst.chunkWait env = none) : NextChunkBy s₀ sent env.hangNow.nanos := by
  have hhorizon : env.hangNow.nanos < horizon.nanos := ha.last.trans_lt ha.beforeHorizon
  cases hstarted : c.stream.started with
  | false =>
    intro delay _ e he
    rw [h.unsent hstarted] at he
    cases he
  | true =>
    intro delay hdelay
    have hsome : c.stream.chunkDelay = some delay := h.chunkDelay.trans hdelay
    have hdue : ∃ wake, c.stream.afterFirst.chunkDue env = some wake := by
      change ∃ wake, (if c.stream.started then _ else none) = some wake
      rw [hstarted, if_pos rfl]
      change ∃ wake, c.stream.chunkDelay.map _ = some wake
      rw [hsome]
      exact ⟨_, rfl⟩
    obtain ⟨wake, hdue⟩ := hdue
    have hready : env.chunkReady = true := by
      by_contra hnot
      rw [chunkWait, if_neg hnot, hdue] at hwait
      cases hwait
    have hfired := ha.chunkFired hready wake hdue
    rcases h.chunkDue ha hdue with hby | hfar
    · exact (hby.mono hfired) delay hdelay
    · omega

private theorem slotted (h : OnTime s₀ start horizon c sent) : c.stream.Slotted where
  started := h.started
  idle hnot hidle := h.idle hnot (h.firstByteDelay ▸ hidle)

private theorem chunkSlot_afterDelays (h : OnTime s₀ start horizon c sent) (sent' : List PollEnv) :
    ∀ wake ∈ c.stream.afterDelays.sleep,
      NextChunkBy s₀ sent' wake.nanos ∨ horizon.nanos ≤ wake.nanos := by
  intro wake hwake
  rcases h.slotted.sleep_afterDelays with hnone | ⟨_, hunused⟩
  · rw [hnone] at hwake
    cases hwake
  · left
    intro delay hdelay
    rw [← h.chunkDelay, hunused] at hdelay
    cases hdelay

private theorem now_le (ha : c.Admits horizon env) : c.now.nanos ≤ env.lastNow.nanos :=
  ha.drop.trans (ha.first.trans (ha.chunk.trans (ha.hang.trans ha.last)))

private theorem keep (h : OnTime s₀ start horizon c sent) (ha : c.Admits horizon env) :
    OnTime s₀ start horizon { stream := c.stream, now := env.lastNow } sent :=
  { h with
    start_le := h.start_le.trans (now_le ha)
    sent_le := fun e he => (h.sent_le e he).trans (now_le ha)
    firstDone := fun hdone => (h.firstDone hdone).mono (now_le ha) }

private theorem awaitFirst (h : OnTime s₀ start horizon c sent) (ha : c.Admits horizon env)
    {wake : Instant} (hwait : c.stream.firstWait env = some wake)
    (hslotted : Slotted { c.stream with sleep := some wake }) :
    OnTime s₀ start horizon { stream := { c.stream with sleep := some wake }, now := env.lastNow }
      sent := by
  have hdue := firstDue_of_firstWait hwait
  have hdone := firstByteDone_of_firstDue hdue
  exact
    { h.keep ha with
      idle := fun hnot hidle => hslotted.idle hnot (h.firstByteDelay.symm ▸ hidle)
      firstSlot := fun _ wake' hwake => by
        obtain rfl := Option.some.inj hwake
        exact h.firstDue ha hdue
      chunkSlot := fun hstarted => by
        rw [h.started hstarted] at hdone
        cases hdone }

private theorem awaitChunk (h : OnTime s₀ start horizon c sent) (ha : c.Admits horizon env)
    {wake : Instant} (hfirst : c.stream.firstWait env = none)
    (hwait : c.stream.afterFirst.chunkWait env = some wake)
    (hslotted : Slotted { c.stream.afterFirst with sleep := some wake }) :
    OnTime s₀ start horizon
      { stream := { c.stream.afterFirst with sleep := some wake }, now := env.lastNow } sent :=
  { h.keep ha with
    started := hslotted.started
    idle := fun hnot hidle => hslotted.idle hnot (h.firstByteDelay.symm ▸ hidle)
    firstSlot := fun hnot => Bool.noConfusion hnot
    firstDone := fun _ => (h.first_over ha hfirst).mono (ha.hang.trans ha.last)
    chunkSlot := fun _ wake' hwake => by
      obtain rfl := Option.some.inj hwake
      exact h.chunkDue ha (chunkDue_of_chunkWait hwait) }

private theorem pass (h : OnTime s₀ start horizon c sent) (ha : c.Admits horizon env)
    (hpass : c.stream.Passes env) (hslotted : c.stream.afterDelays.Slotted) :
    OnTime s₀ start horizon { stream := c.stream.afterDelays, now := env.lastNow } sent :=
  { h.keep ha with
    started := hslotted.started
    idle := fun hnot hidle => hslotted.idle hnot (h.firstByteDelay.symm ▸ hidle)
    firstSlot := fun hnot => Bool.noConfusion hnot
    firstDone := fun _ => (h.first_over ha hpass.first).mono (ha.hang.trans ha.last)
    chunkSlot := fun _ => h.chunkSlot_afterDelays sent }

private theorem send (h : OnTime s₀ start horizon c sent) (ha : c.Admits horizon env)
    (hpass : c.stream.Passes env) (hhang : c.stream.hangs env = false)
    (hdrop : reached c.stream.dropDeadline env.lastNow = false) (offset : ℕ) :
    OnTime s₀ start horizon
      { stream := { c.stream.afterDelays with offset, started := true }, now := env.lastNow }
      (sent ++ [env]) := by
  have hnow := h.keep ha
  have hfirst := (h.first_over ha hpass.first).mono (ha.hang.trans ha.last)
  have hchunk := (h.chunk_over ha hpass.chunk).mono ha.last
  rw [DeliveryStream.hangs, Bool.or_eq_false_iff] at hhang
  have hdeadlines : (∀ d ∈ s₀.dropDeadline, env.lastNow.nanos < d.nanos) ∧
      ∀ d ∈ s₀.hangDeadline, env.hangNow.nanos < d.nanos := by
    rw [← h.dropDeadline, ← h.hangDeadline]
    exact ⟨reached_eq_false.mp hdrop, reached_eq_false.mp hhang.1⟩
  exact
    { hnow with
      sent_le := fun e he => by
        rcases List.mem_append.mp he with he | he
        · exact hnow.sent_le e he
        · rw [List.mem_singleton.mp he]
      started := fun _ => rfl
      unsent := fun hnot => Bool.noConfusion hnot
      idle := fun hnot => Bool.noConfusion hnot
      firstSlot := fun hnot => Bool.noConfusion hnot
      firstDone := fun _ => hfirst
      chunkSlot := fun _ => h.chunkSlot_afterDelays (sent ++ [env])
      firstByte := fun e he => by
        rcases List.mem_append.mp he with he | he
        · exact h.firstByte e he
        · rw [List.mem_singleton.mp he]
          exact hfirst
      spaced := fun delay hdelay => by
        refine List.isChain_append.mpr ⟨h.spaced delay hdelay, List.isChain_singleton env, ?_⟩
        intro e he e' he'
        obtain rfl := Option.some.inj he'
        exact hchunk delay hdelay e he
      deadlines := fun e he => by
        rcases List.mem_append.mp he with he | he
        · exact h.deadlines e he
        · rw [List.mem_singleton.mp he]
          exact hdeadlines }

/-- The step lemma. -/
private theorem step {c' : Clocked} {o : PollEnv × Poll (Option (List UInt8))}
    (h : OnTime s₀ start horizon c sent) (hstep : clockedStep horizon c env = some (c', o)) :
    OnTime s₀ start horizon c' (sent ++ sentAt [o]) := by
  obtain ⟨ha, ho, hnow, hpath⟩ := clockedStep_path hstep
  obtain ⟨t, now⟩ := c'
  obtain ⟨env', p⟩ := o
  obtain rfl : env' = env := ho
  obtain rfl : now = env'.lastNow := hnow
  have hslotted := h.slotted.path hpath
  have hsilent : sent ++ [] = sent := List.append_nil sent
  cases hpath with
  | dropped hdrop => exact hsilent.symm ▸ h.keep ha
  | awaitsFirst hopen hwait => exact hsilent.symm ▸ h.awaitFirst ha hwait hslotted
  | awaitsChunk hopen hfirst hwait => exact hsilent.symm ▸ h.awaitChunk ha hfirst hwait hslotted
  | hangs hpass hhang | finishes hpass hhang hend | droppedLate hpass hhang hmore hdrop =>
    exact hsilent.symm ▸ h.pass ha hpass hslotted
  | sends hpass hhang hmore hdrop => exact h.send ha hpass hhang hdrop _

end OnTime

private theorem onTime_start {s : DeliveryStream} {start horizon : Instant}
    (hsleep : s.sleep = none) (hdone : s.firstByteDone = false) (hstarted : s.started = false) :
    OnTime s start horizon { stream := s, now := start } [] where
  firstByteDelay := rfl
  chunkDelay := rfl
  dropDeadline := rfl
  hangDeadline := rfl
  start_le := Int.le_refl _
  sent_le := by simp
  started h := by
    rw [hstarted] at h
    cases h
  unsent _ := rfl
  idle _ _ := hsleep
  firstSlot _ wake hwake := by
    rw [hsleep] at hwake
    cases hwake
  firstDone h := by
    rw [hdone] at h
    cases h
  chunkSlot h := by
    rw [hstarted] at h
    cases h
  firstByte := by simp
  spaced _ _ := List.IsChain.nil
  deadlines := by simp

private theorem onTime_run {s : DeliveryStream} {start horizon : Instant} {c : Clocked}
    {polls : List PollEnv} {outs : List (PollEnv × Poll (Option (List UInt8)))}
    (hsleep : s.sleep = none) (hdone : s.firstByteDone = false) (hstarted : s.started = false)
    (h : run (clockedStep horizon) { stream := s, now := start } polls = some (c, outs)) :
    OnTime s start horizon c (sentAt outs) := by
  have hstart : OnTime s start horizon { stream := s, now := start } (sentAt []) :=
    onTime_start hsleep hdone hstarted
  refine run_history (I := fun c outs => OnTime s start horizon c (sentAt outs)) ?_ h hstart
  intro c outs env c' o hc hstep
  rw [sentAt_append]
  exact hc.step hstep

def Clocked.Hung (c : Clocked) : Prop :=
  (∃ d, c.stream.hangDeadline = some d ∧ d.nanos ≤ c.now.nanos) ∨
    ∃ n, c.stream.hangAfterBytes = some n ∧ n ≤ c.stream.offset

private theorem Clocked.Hung.hangs {horizon : Instant} {c : Clocked} {env : PollEnv} (h : c.Hung)
    (ha : c.Admits horizon env) : c.stream.hangs env = true := by
  rw [DeliveryStream.hangs, Bool.or_eq_true_iff]
  rcases h with ⟨d, hd, hle⟩ | ⟨n, hn, hle⟩
  · refine Or.inl (reached_eq_true.mpr ⟨d, hd, ?_⟩)
    exact hle.trans (ha.drop.trans (ha.first.trans (ha.chunk.trans ha.hang)))
  · right
    rw [hn]
    exact decide_eq_true hle

private theorem Clocked.Hung.step {horizon : Instant} {c c' : Clocked} {env : PollEnv}
    {o : PollEnv × Poll (Option (List UInt8))} (h : c.Hung)
    (hstep : clockedStep horizon c env = some (c', o)) : c'.Hung ∧ sentAt [o] = [] := by
  obtain ⟨ha, ho, hnow', hpath⟩ := clockedStep_path hstep
  obtain ⟨t, now⟩ := c'
  obtain ⟨env', p⟩ := o
  obtain rfl : env' = env := ho
  obtain rfl : now = env'.lastNow := hnow'
  have hnow : c.now.nanos ≤ env'.lastNow.nanos :=
    ha.drop.trans (ha.first.trans (ha.chunk.trans (ha.hang.trans ha.last)))
  have hlater : ∀ u : DeliveryStream, u.hangDeadline = c.stream.hangDeadline →
      u.hangAfterBytes = c.stream.hangAfterBytes → u.offset = c.stream.offset →
      Clocked.Hung { stream := u, now := env'.lastNow } := by
    intro u htime hbytes hoffset
    rcases h with ⟨d, hd, hle⟩ | ⟨n, hn, hle⟩
    · exact Or.inl ⟨d, htime.trans hd, hle.trans hnow⟩
    · exact Or.inr ⟨n, hbytes.trans hn, hoffset ▸ hle⟩
  cases hpath with
  | sends hpass hhang hmore hdrop =>
    rw [h.hangs ha] at hhang
    cases hhang
  | _ => exact ⟨hlater _ rfl rfl rfl, rfl⟩

private theorem hung_of_pending_none {horizon : Instant} {c c' : Clocked} {env e : PollEnv}
    (hstep : clockedStep horizon c env = some (c', (e, .pending none))) : c'.Hung := by
  obtain ⟨ha, _, hnow', hpath⟩ := clockedStep_path hstep
  obtain ⟨t, now⟩ := c'
  obtain rfl : now = env.lastNow := hnow'
  cases hpath with
  | hangs hpass hhang =>
    rw [DeliveryStream.hangs, Bool.or_eq_true_iff] at hhang
    rcases hhang with htime | hbytes
    · obtain ⟨d, hd, hle⟩ := reached_eq_true.mp htime
      exact Or.inl ⟨d, hd, le_trans hle ha.last⟩
    · obtain ⟨n, hn, hle⟩ := (Option.any_eq_true _ _).mp hbytes
      exact Or.inr ⟨n, hn, of_decide_eq_true hle⟩

private theorem sentAt_of_hung {horizon : Instant} {c c' : Clocked} {polls : List PollEnv}
    {outs : List (PollEnv × Poll (Option (List UInt8)))} (hhung : c.Hung)
    (h : run (clockedStep horizon) c polls = some (c', outs)) : sentAt outs = [] := by
  have hinv : c'.Hung ∧ sentAt outs = [] := by
    have hstart : c.Hung ∧ sentAt [] = [] := ⟨hhung, rfl⟩
    refine run_history (I := fun c outs => Clocked.Hung c ∧ sentAt outs = []) ?_ h hstart
    rintro c outs env c' o ⟨hc, hnil⟩ hstep
    obtain ⟨hc', ho⟩ := hc.step hstep
    rw [sentAt_append, hnil, ho]
    exact ⟨hc', rfl⟩
  exact hinv.2

private theorem run_clocked_from_first {horizon : Instant} {s : DeliveryStream} {start : Instant}
    {c : Clocked} {env : PollEnv} {polls : List PollEnv}
    {outs : List (PollEnv × Poll (Option (List UInt8)))}
    (h : run (clockedStep horizon) { stream := s, now := start } (env :: polls) = some (c, outs)) :
    run (clockedStep horizon) { stream := s, now := env.dropNow } (env :: polls) =
      some (c, outs) := by
  obtain ⟨m, b, cs, hstep, hrun, hcs⟩ := run_cons_eq_some.mp h
  refine run_cons_eq_some.mpr ⟨m, b, cs, ?_, hrun, hcs⟩
  rw [clockedStep] at hstep ⊢
  split_ifs at hstep with ha
  have ha' : Clocked.Admits horizon { stream := s, now := env.dropNow } env :=
    { ha with drop := le_rfl }
  rwa [if_pos ha']

/-- Timing safety, over every run on the clock of a stream with the delays and deadlines that its
specification draws: no chunk before the first-byte delay is over after the first poll, consecutive
chunks at least the delay between chunks apart, none once a deadline is read to be over, and none
after a hang. -/
theorem timing_safe {body : List UInt8} {spec : DeliverySpec} {dropNow hangNow : Instant}
    {rng rng' : Rng} {s : DeliveryStream} {start horizon : Instant} {polls : List PollEnv}
    {c : Clocked} {outs : List (PollEnv × Poll (Option (List UInt8)))}
    (h : deliver body spec dropNow hangNow rng = .ok (s, rng'))
    (hrun : run (clockedStep horizon) { stream := s, now := start } polls = some (c, outs)) :
    Drawn body spec dropNow hangNow rng s rng' ∧
      (∀ first ∈ polls.head?, ∀ delay ∈ s.firstByteDelay, ∀ e ∈ sentAt outs,
        first.dropNow.nanos + delay.nanos ≤ e.lastNow.nanos) ∧
      (∀ delay ∈ s.chunkDelay, (sentAt outs).IsChain (Apart delay)) ∧
      (∀ e ∈ sentAt outs, (∀ d ∈ s.dropDeadline, e.lastNow.nanos < d.nanos) ∧
        ∀ d ∈ s.hangDeadline, e.hangNow.nanos < d.nanos) ∧
      ∀ before e after, outs = before ++ (e, .pending none) :: after → sentAt after = [] := by
  have hs := deliver_delivered h
  have hontime := onTime_run hs.sleep hs.firstByteDone hs.started hrun
  refine ⟨deliver_drawn h, ?_, hontime.spaced, hontime.deadlines, ?_⟩
  · intro first hfirst delay hdelay e he
    cases polls with
    | nil => cases hfirst
    | cons env polls =>
      obtain rfl := Option.some.inj hfirst
      have hontime' := onTime_run hs.sleep hs.firstByteDone hs.started (run_clocked_from_first hrun)
      exact hontime'.firstByte e he delay hdelay
  · intro before e after hsplit
    subst hsplit
    obtain ⟨m, _, env, m', _, _, _, hstep, hafter⟩ := exists_step_of_append hrun
    exact sentAt_of_hung (hung_of_pending_none hstep) hafter

theorem timing_safe_two_bytes :
    let at_ (t : Fin 100) : Instant := ⟨t, by omega⟩
    let poll (t : Fin 100) (fired : Bool) : PollEnv :=
      ⟨at_ t, at_ t, fired, at_ t, fired, at_ t, at_ t, at_ 99⟩
    let spec : DeliverySpec :=
      { pace := some (.chunk (.fixed ⟨1⟩) (.fixed ⟨3, by decide⟩))
        firstByte := some (.fixed ⟨5, by decide⟩) }
    let polls :=
      [poll 1 false, poll 6 true, poll 7 false, poll 8 false, poll 10 true, poll 10 false]
    ∃ s rng c outs, deliver [1, 2] spec (at_ 0) (at_ 0) ⟨fun _ => 0⟩ = .ok (s, rng) ∧
      Drawn [1, 2] spec (at_ 0) (at_ 0) ⟨fun _ => 0⟩ s rng ∧
      run (clockedStep (at_ 99)) { stream := s, now := at_ 0 } polls = some (c, outs) ∧
      (sentAt outs).length = 2 ∧ (sentAt outs).IsChain (Apart ⟨3, by decide⟩) ∧
      ∀ e ∈ sentAt outs, 1 + 5 ≤ e.lastNow.nanos := by
  intro at_ poll spec polls
  have h : deliver [1, 2] spec (at_ 0) (at_ 0) ⟨fun _ => 0⟩ = .ok (_, _) := rfl
  have hsafe := @timing_safe _ _ _ _ _ _ _ (at_ 0) (at_ 99) polls _ _ h rfl
  exact ⟨_, _, _, _, h, hsafe.1, rfl, rfl, hsafe.2.2.1 _ rfl,
    hsafe.2.1 (poll 1 false) rfl ⟨5, by decide⟩ rfl⟩

end Mockinx
