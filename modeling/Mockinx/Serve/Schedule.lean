import Mockinx.Serve.PollPath

/-!
The schedule that polls a stream exactly at its wake-ups on an ideal clock: time only passes while
the stream sleeps, all readings of one poll agree, and a sleep has fired as soon as it is over.
-/

set_option autoImplicit false
set_option relaxedAutoImplicit false

namespace Mockinx

open Lib

namespace DeliveryStream

/-- What a poll at an instant of the ideal clock reads. Sleeps past the range of the clock are over
at its end. -/
def idealEnv (clockEnd : Instant) (s : DeliveryStream) (now : Instant) : PollEnv :=
  let env : PollEnv := ⟨now, now, false, now, false, now, now, clockEnd⟩
  { env with
    firstReady := (s.firstDue env).all (· ≤ now)
    chunkReady := (s.afterFirst.chunkDue env).all (· ≤ now) }

/-- Polled from an instant on, at once after a chunk and otherwise at the wake-up, the stream sends
the chunks and ends, all before the end of the clock. -/
inductive Plays (clockEnd : Instant) :
    DeliveryStream → Instant → List (List UInt8) → Instant → Prop
  | ends {s t : DeliveryStream} {now : Instant} (hnow : now < clockEnd)
      (hpoll : s.pollNext (s.idealEnv clockEnd now) = .ok (t, .ready none)) :
      Plays clockEnd s now [] now
  | sends {s t : DeliveryStream} {now stop : Instant} {chunk : List UInt8}
      {rest : List (List UInt8)} (hnow : now < clockEnd)
      (hpoll : s.pollNext (s.idealEnv clockEnd now) = .ok (t, .ready (some chunk)))
      (hrest : Plays clockEnd t now rest stop) : Plays clockEnd s now (chunk :: rest) stop
  | sleeps {s t : DeliveryStream} {now wake stop : Instant} {rest : List (List UInt8)}
      (hnow : now < clockEnd)
      (hpoll : s.pollNext (s.idealEnv clockEnd now) = .ok (t, .pending (some wake)))
      (hrest : Plays clockEnd t wake rest stop) : Plays clockEnd s now rest stop

/-- Polled so, the stream sends these bytes first. -/
inductive Sends (clockEnd : Instant) : DeliveryStream → Instant → List UInt8 → Prop
  | done (s : DeliveryStream) (now : Instant) : Sends clockEnd s now []
  | sends {s t : DeliveryStream} {now : Instant} {chunk rest : List UInt8} (hnow : now < clockEnd)
      (hpoll : s.pollNext (s.idealEnv clockEnd now) = .ok (t, .ready (some chunk)))
      (hrest : Sends clockEnd t now rest) : Sends clockEnd s now (chunk ++ rest)
  | sleeps {s t : DeliveryStream} {now wake : Instant} {bytes : List UInt8} (hnow : now < clockEnd)
      (hpoll : s.pollNext (s.idealEnv clockEnd now) = .ok (t, .pending (some wake)))
      (hrest : Sends clockEnd t wake bytes) : Sends clockEnd s now bytes

/-- The stream ends at an instant. -/
def EndsAt (clockEnd : Instant) (s : DeliveryStream) (now stop : Instant) : Prop :=
  ∃ sent, Plays clockEnd s now sent stop

variable {clockEnd now stop : Instant} {s t : DeliveryStream}

theorem Plays.now_lt {sent : List (List UInt8)} (h : Plays clockEnd s now sent stop) :
    now < clockEnd := by
  cases h <;> assumption

theorem endsAt_iff_of_end (hnow : now < clockEnd)
    (hpoll : s.pollNext (s.idealEnv clockEnd now) = .ok (t, .ready none)) :
    EndsAt clockEnd s now stop ↔ stop = now := by
  constructor
  · rintro ⟨sent, hplays⟩
    cases hplays with
    | ends => rfl
    | sends _ hpoll' => cases hpoll.symm.trans hpoll'
    | sleeps _ hpoll' => cases hpoll.symm.trans hpoll'
  · rintro rfl
    exact ⟨[], .ends hnow hpoll⟩

theorem endsAt_iff_of_chunk {chunk : List UInt8} (hnow : now < clockEnd)
    (hpoll : s.pollNext (s.idealEnv clockEnd now) = .ok (t, .ready (some chunk))) :
    EndsAt clockEnd s now stop ↔ EndsAt clockEnd t now stop := by
  constructor
  · rintro ⟨sent, hplays⟩
    cases hplays with
    | ends _ hpoll' => cases hpoll.symm.trans hpoll'
    | sends _ hpoll' hrest =>
      cases hpoll.symm.trans hpoll'
      exact ⟨_, hrest⟩
    | sleeps _ hpoll' => cases hpoll.symm.trans hpoll'
  · rintro ⟨sent, hplays⟩
    exact ⟨_, .sends hnow hpoll hplays⟩

theorem endsAt_iff_of_wake {wake : Instant} (hnow : now < clockEnd)
    (hpoll : s.pollNext (s.idealEnv clockEnd now) = .ok (t, .pending (some wake))) :
    EndsAt clockEnd s now stop ↔ EndsAt clockEnd t wake stop := by
  constructor
  · rintro ⟨sent, hplays⟩
    cases hplays with
    | ends _ hpoll' => cases hpoll.symm.trans hpoll'
    | sends _ hpoll' => cases hpoll.symm.trans hpoll'
    | sleeps _ hpoll' hrest =>
      cases hpoll.symm.trans hpoll'
      exact ⟨_, hrest⟩
  · rintro ⟨sent, hplays⟩
    exact ⟨_, .sleeps hnow hpoll hplays⟩

theorem not_sends_of_late {bytes : List UInt8} (hbytes : bytes ≠ []) (hnow : ¬ now < clockEnd) :
    ¬ Sends clockEnd s now bytes := by
  intro h
  cases h with
  | done => exact hbytes rfl
  | sends hnow' | sleeps hnow' => exact hnow hnow'

theorem not_sends_of_end {bytes : List UInt8} (hbytes : bytes ≠ [])
    (hpoll : s.pollNext (s.idealEnv clockEnd now) = .ok (t, .ready none)) :
    ¬ Sends clockEnd s now bytes := by
  intro h
  cases h with
  | done => exact hbytes rfl
  | sends _ hpoll' | sleeps _ hpoll' => cases hpoll.symm.trans hpoll'

theorem sends_iff_of_chunk {chunk rest : List UInt8} (hchunk : chunk ≠ []) (hnow : now < clockEnd)
    (hpoll : s.pollNext (s.idealEnv clockEnd now) = .ok (t, .ready (some chunk))) :
    Sends clockEnd s now (chunk ++ rest) ↔ Sends clockEnd t now rest := by
  constructor
  · generalize hbytes : chunk ++ rest = bytes
    intro h
    cases h with
    | done => exact absurd (List.append_eq_nil_iff.mp hbytes).1 hchunk
    | sends _ hpoll' hrest =>
      cases hpoll.symm.trans hpoll'
      rwa [List.append_cancel_left hbytes]
    | sleeps _ hpoll' => cases hpoll.symm.trans hpoll'
  · exact .sends hnow hpoll

theorem sends_iff_of_wake {bytes : List UInt8} {wake : Instant} (hbytes : bytes ≠ [])
    (hnow : now < clockEnd)
    (hpoll : s.pollNext (s.idealEnv clockEnd now) = .ok (t, .pending (some wake))) :
    Sends clockEnd s now bytes ↔ Sends clockEnd t wake bytes := by
  constructor
  · intro h
    cases h with
    | done => exact absurd rfl hbytes
    | sends _ hpoll' => cases hpoll.symm.trans hpoll'
    | sleeps _ hpoll' hrest =>
      cases hpoll.symm.trans hpoll'
      exact hrest
  · exact .sleeps hnow hpoll

end DeliveryStream

end Mockinx
