import Mockinx.Serve.DeliveryExact

/-!
A hang after a number of bytes. The limit is compared with the offset before a chunk is cut, and the
chunk is not cut at the limit, so the limit is met exactly when no chunk reaches across it.
-/

set_option autoImplicit false
set_option relaxedAutoImplicit false

namespace Mockinx

open Lib Lib.Run DeliveryStream

/-- What a hang after `limit` bytes promises of a run: no more is sent, and where the stream would
go on beyond the limit it never ends, sends that much once its timers have fired often enough, and
waits from then on. -/
structure HangsExactly (s : DeliveryStream) (limit : ℕ) (polls : List PollEnv)
    (outs : List (Poll (Option (List UInt8)))) : Prop where
  atMost : (chunks outs).flatten.length ≤ limit
  noEnd : limit < s.effectiveLen → .ready none ∉ outs
  reaches : limit < s.effectiveLen → numChunks limit s.chunkSize ≤ polls.countP awake →
    (chunks outs).flatten = s.body.take limit
  waits : limit < s.effectiveLen → ∀ before p after, outs = before ++ p :: after →
    limit ≤ (chunks before).flatten.length → ∃ wake, p = .pending wake

namespace DeliveryStream

private theorem Sent.flatten_length {s₀ s : DeliveryStream}
    {outs : List (Poll (Option (List UInt8)))}
    (h : Sent s₀ s outs) : (chunks outs).flatten.length = s.offset := by
  have hle := s₀.effectiveLen_le
  have hoffset := h.offset_le
  rw [h.bytes, List.length_take]
  omega

private theorem limit_le_of_hangs {s : DeliveryStream} {env : PollEnv} {limit : ℕ}
    (hlimit : s.hangAfterBytes = some limit) (htime : s.hangDeadline = none)
    (h : s.hangs env = true) : limit ≤ s.offset := by
  simpa [hangs, hlimit, htime, reached] using h

private theorem lt_limit_of_not_hangs {s : DeliveryStream} {env : PollEnv} {limit : ℕ}
    (hlimit : s.hangAfterBytes = some limit) (h : s.hangs env = false) : s.offset < limit := by
  rw [hangs, Bool.or_eq_false_iff, hlimit] at h
  simpa using h.2

private theorem pending_none_not_mem_of_offset_lt {s t : DeliveryStream} {polls : List PollEnv}
    {outs : List (Poll (Option (List UInt8)))} {limit : ℕ} (hoffset : s.offset = 0)
    (hsize : 0 < s.chunkSize) (hlimit : s.hangAfterBytes = some limit)
    (htime : s.hangDeadline = none) (h : run pollStep s polls = some (t, outs))
    (hlt : t.offset < limit) : .pending none ∉ outs := by
  intro hmem
  obtain ⟨before, after, rfl⟩ := List.append_of_mem hmem
  obtain ⟨u, polls₁, env, v, polls₂, _, hbefore, hstep, _⟩ := exists_step_of_append h
  have hu := sent_run hoffset hsize hbefore
  have ht := sent_run hoffset hsize h
  have hreached : limit ≤ u.offset := by
    cases pollStep_path hstep with
    | hangs hpass hhang =>
      exact limit_le_of_hangs (hu.shape.hangAfterBytes.trans hlimit)
        (hu.shape.hangDeadline.trans htime) hhang
  have hle : (chunks before).flatten.length ≤
      (chunks (before ++ .pending none :: after)).flatten.length := by
    rw [chunks_append, List.flatten_append, List.length_append]
    exact Nat.le_add_right _ _
  rw [hu.flatten_length, ht.flatten_length] at hle
  omega

private theorem numChunks_dvd {n size : ℕ} (hs : 0 < size) (h : size ∣ n) :
    numChunks n size * size = n := by
  obtain ⟨k, rfl⟩ := h
  rw [numChunks_mul hs, Nat.mul_comm]

private theorem length_chunks_le {outs : List (Poll (Option (List UInt8)))}
    (h : ∀ c ∈ chunks outs, c ≠ []) : (chunks outs).length ≤ (chunks outs).flatten.length := by
  generalize chunks outs = cs at h
  induction cs with
  | nil => simp
  | cons c cs ih =>
    have hrest := ih fun c hc => h c (List.mem_cons_of_mem _ hc)
    have hpos := List.length_pos_of_ne_nil (h c List.mem_cons_self)
    rw [List.flatten_cons, List.length_append, List.length_cons]
    omega

private theorem offset_le_of_dvd {s t : DeliveryStream} {polls : List PollEnv}
    {outs : List (Poll (Option (List UInt8)))} {limit : ℕ} (hoffset : s.offset = 0)
    (hsize : 0 < s.chunkSize) (hlimit : s.hangAfterBytes = some limit)
    (hdvd : s.chunkSize ∣ limit) (h : run pollStep s polls = some (t, outs)) :
    t.offset ≤ limit := by
  have hinv : Sent s t outs ∧ t.offset ≤ limit := by
    refine run_history (I := fun u bs => Sent s u bs ∧ u.offset ≤ limit) ?_ h
      ⟨sent_start hoffset hsize, by omega⟩
    rintro u bs env v p ⟨hu, hle⟩ hstep
    refine ⟨hu.poll hsize (pollStep_case hstep), ?_⟩
    cases pollStep_path hstep with
    | sends hpass hhang hmore hdrop =>
      have hlt := lt_limit_of_not_hangs (hu.shape.hangAfterBytes.trans hlimit) hhang
      rw [hu.shape.effectiveLen] at hmore
      have haligned := hu.aligned hmore
      have hstop : u.offset + s.chunkSize ≤ limit := by
        by_contra hcon
        have := Nat.le_of_lt_add_of_dvd (not_le.mp hcon) hdvd haligned
        omega
      have hnext : u.nextLen ≤ s.chunkSize := by
        rw [nextLen, hu.shape.chunkSize]
        exact min_le_right _ _
      change u.offset + u.nextLen ≤ limit
      omega
    | _ => exact hle
  exact hinv.2

private theorem countP_awake_le_of_offset_lt {s t : DeliveryStream} {polls : List PollEnv}
    {outs : List (Poll (Option (List UInt8)))} {limit : ℕ} (hoffset : s.offset = 0)
    (hsize : 0 < s.chunkSize) (hlimit : s.hangAfterBytes = some limit)
    (htime : s.hangDeadline = none) (h : run pollStep s polls = some (t, outs))
    (hopen : .ready none ∉ outs) (hlt : t.offset < limit) :
    polls.countP awake ≤ (chunks outs).length :=
  countP_awake_le h hopen
    (pending_none_not_mem_of_offset_lt hoffset hsize hlimit htime h hlt)

private theorem ready_none_not_mem {s t : DeliveryStream} {polls : List PollEnv}
    {outs : List (Poll (Option (List UInt8)))} {limit : ℕ}
    (hlimit : s.hangAfterBytes = some limit) (hdrop : s.dropDeadline = none)
    (hmore : limit < s.effectiveLen) (h : run pollStep s polls = some (t, outs)) :
    .ready none ∉ outs := by
  have hinv : SameShape s t ∧ .ready none ∉ outs := by
    refine run_history (I := fun u bs => SameShape s u ∧ .ready none ∉ bs) ?_ h
      ⟨.refl s, List.not_mem_nil⟩
    rintro u bs env v p ⟨hu, hbs⟩ hstep
    have hp : p ≠ .ready none := by
      intro hp
      subst hp
      cases pollStep_path hstep with
      | dropped hreached => exact reached_ne_none hreached (hu.dropDeadline.trans hdrop)
      | finishes hpass hhang hend =>
        have hlt := lt_limit_of_not_hangs (hu.hangAfterBytes.trans hlimit) hhang
        rw [hu.effectiveLen] at hend
        omega
      | droppedLate hpass hhang hmore hreached =>
        exact reached_ne_none hreached (hu.dropDeadline.trans hdrop)
    refine ⟨hu.trans (pollStep_case hstep).shape, ?_⟩
    rw [List.mem_append, List.mem_singleton, not_or]
    exact ⟨hbs, Ne.symm hp⟩
  exact hinv.2

private theorem dvd_of_atMost {s : DeliveryStream} {limit : ℕ} (hoffset : s.offset = 0)
    (hsize : 0 < s.chunkSize) (hlimit : s.hangAfterBytes = some limit)
    (htime : s.hangDeadline = none) (hdrop : s.dropDeadline = none)
    (hmore : limit < s.effectiveLen)
    (hatMost : ∀ polls t outs, run pollStep s polls = some (t, outs) →
      (chunks outs).flatten.length ≤ limit) : s.chunkSize ∣ limit := by
  let env : PollEnv := ⟨.zero, .zero, true, .zero, true, .zero, .zero, .zero⟩
  obtain ⟨t, outs, hrun⟩ := s.exists_run_polls (List.replicate (limit + 1) env)
  have hsent := sent_run hoffset hsize hrun
  have hle := hatMost _ t outs hrun
  rw [hsent.flatten_length] at hle
  have hreach : limit ≤ t.offset := by
    by_contra hlt
    have hcount := countP_awake_le_of_offset_lt hoffset hsize hlimit htime hrun
      (ready_none_not_mem hlimit hdrop hmore hrun) (not_le.mp hlt)
    have hpolls : (List.replicate (limit + 1) env).countP awake = limit + 1 := by
      have hawake : awake env = true := rfl
      rw [List.countP_replicate, if_pos hawake]
    have hbytes := length_chunks_le fun c hc => (hsent.sizes c hc).1
    rw [hsent.flatten_length] at hbytes
    omega
  have heq : t.offset = limit := le_antisymm hle hreach
  exact heq ▸ hsent.aligned (heq ▸ hmore)

private theorem limit_le_of_dvd {s t : DeliveryStream} {polls : List PollEnv}
    {outs : List (Poll (Option (List UInt8)))} {limit : ℕ} (hoffset : s.offset = 0)
    (hsize : 0 < s.chunkSize) (hlimit : s.hangAfterBytes = some limit)
    (htime : s.hangDeadline = none) (hdrop : s.dropDeadline = none)
    (hmore : limit < s.effectiveLen) (hdvd : s.chunkSize ∣ limit)
    (h : run pollStep s polls = some (t, outs))
    (hpolls : numChunks limit s.chunkSize ≤ polls.countP awake) : limit ≤ t.offset := by
  by_contra hlt
  have hsent := sent_run hoffset hsize h
  have hcount := countP_awake_le_of_offset_lt hoffset hsize hlimit htime h
    (ready_none_not_mem hlimit hdrop hmore h) (not_le.mp hlt)
  have haligned := hsent.aligned (by omega)
  have hlimitMul := numChunks_dvd hsize hdvd
  have hoffsetMul := numChunks_dvd hsize haligned
  have hmul := Nat.mul_le_mul_right s.chunkSize (hpolls.trans hcount)
  rw [hsent.count] at hmul
  omega

private theorem pending_of_limit_le {s t : DeliveryStream} {polls : List PollEnv}
    {before after : List (Poll (Option (List UInt8)))} {p : Poll (Option (List UInt8))} {limit : ℕ}
    (hoffset : s.offset = 0) (hsize : 0 < s.chunkSize) (hlimit : s.hangAfterBytes = some limit)
    (hdrop : s.dropDeadline = none) (hmore : limit < s.effectiveLen)
    (h : run pollStep s polls = some (t, before ++ p :: after))
    (hbefore : limit ≤ (chunks before).flatten.length) : ∃ wake, p = .pending wake := by
  obtain ⟨u, polls₁, env, v, polls₂, _, hrun, hstep, _⟩ := exists_step_of_append h
  have hu := sent_run hoffset hsize hrun
  rw [hu.flatten_length] at hbefore
  have hopen := ready_none_not_mem hlimit hdrop hmore h
  cases pollStep_path hstep with
  | awaitsFirst | awaitsChunk | hangs => exact ⟨_, rfl⟩
  | dropped | finishes | droppedLate => simp at hopen
  | sends hpass hhang hmore' hlate =>
    have hlt := lt_limit_of_not_hangs (hu.shape.hangAfterBytes.trans hlimit) hhang
    omega

end DeliveryStream

/-- A byte hang is exact over every run of a delivered stream exactly when the stream has no more
bytes than the limit or its chunks end at the limit. -/
theorem hangs_exactly_iff {body : List UInt8} {spec : DeliverySpec} {dropNow hangNow : Instant}
    {rng rng' : Rng} {s : DeliveryStream} {limit : ℕ}
    (h : deliver body spec dropNow hangNow rng = .ok (s, rng'))
    (hlimit : s.hangAfterBytes = some limit)
    (hnotime : ∀ d, spec.drop ≠ some (.afterTime d)) :
    (∀ polls t outs, run pollStep s polls = some (t, outs) → HangsExactly s limit polls outs) ↔
      s.effectiveLen ≤ limit ∨ s.chunkSize ∣ limit := by
  obtain ⟨rfl, hoffset, hsize, hdrop, _, _⟩ := deliver_spec h
  obtain ⟨_, _, _, _, _, hhang, _⟩ := (deliver_drawn h).samples
  have hnodrop := hdrop hnotime
  have htime : s.hangDeadline = none := (hlimit ▸ hhang).deadline_of_bytes
  constructor
  · intro hexact
    rcases le_or_gt s.effectiveLen limit with hend | hmore
    · exact Or.inl hend
    · exact Or.inr (dvd_of_atMost hoffset hsize hlimit htime hnodrop hmore
        fun polls t outs hrun => (hexact polls t outs hrun).atMost)
  · rintro (hend | hdvd) polls t outs hrun
    · have hsent := sent_run hoffset hsize hrun
      constructor
      · rw [hsent.flatten_length]
        exact hsent.offset_le.trans hend
      all_goals exact fun hmore => absurd hend (not_le.mpr hmore)
    · have hsent := sent_run hoffset hsize hrun
      have hle := offset_le_of_dvd hoffset hsize hlimit hdvd hrun
      constructor
      · rwa [hsent.flatten_length]
      · exact fun hmore => ready_none_not_mem hlimit hnodrop hmore hrun
      · intro hmore hpolls
        have hreach :=
          limit_le_of_dvd hoffset hsize hlimit htime hnodrop hmore hdvd hrun hpolls
        rw [hsent.bytes, le_antisymm hle hreach]
      · intro hmore before p after hsplit hbefore
        subst hsplit
        exact pending_of_limit_le hoffset hsize hlimit hnodrop hmore hrun hbefore

theorem hangs_exactly_after_two_chunks :
    let now : Instant := .zero
    let spec : DeliverySpec :=
      { pace := some (.chunk (.fixed ⟨2⟩) (.fixed .zero)), hang := some (.afterBytes (.fixed ⟨4⟩)) }
    ∃ s rng, deliver [1, 2, 3, 4, 5] spec now now ⟨fun _ => 0⟩ = .ok (s, rng) ∧
      ∀ polls t outs, run pollStep s polls = some (t, outs) → HangsExactly s 4 polls outs := by
  intro now spec
  have h : deliver [1, 2, 3, 4, 5] spec now now ⟨fun _ => 0⟩ = .ok (_, _) := rfl
  refine ⟨_, _, h, (hangs_exactly_iff h rfl ?_).mpr (Or.inr (by decide))⟩
  simp [spec]

/-- Five bytes at once, to hang after two: the first poll sends them all. -/
theorem sends_past_hang :
    let now : Instant := .zero
    let env : PollEnv := ⟨now, now, true, now, true, now, now, now⟩
    let spec : DeliverySpec := { hang := some (.afterBytes (.fixed ⟨2⟩)) }
    ∃ s rng t outs, deliver [1, 2, 3, 4, 5] spec now now ⟨fun _ => 0⟩ = .ok (s, rng) ∧
      s.hangAfterBytes = some 2 ∧ run pollStep s [env] = some (t, outs) ∧
      ¬ HangsExactly s 2 [env] outs := by
  intro now env spec
  refine ⟨_, _, _, _, rfl, rfl, rfl, fun h => ?_⟩
  have hle : 5 ≤ 2 := h.atMost
  omega

end Mockinx
