import Mockinx.Server.Config

/-!
The objects of a rule fit the rule. Nothing that a server is asked makes the limits of a rule differ
from those it was registered with, or takes its resource store away.
-/

set_option autoImplicit false
set_option relaxedAutoImplicit false

namespace Mockinx

open Lib Lib.Run

variable {α : Type}

/-- The limiters are those of a specification, and the sliding window is no longer than its
limit. -/
structure BehaviorRuntime.Fits (spec : BehaviorSpec) (rt : BehaviorRuntime) : Prop where
  permits : rt.semaphore = spec.concurrency.map fun c => c.max.toNat
  limit : rt.rateLimiter.map (·.maxRps) = spec.rateLimit.map (·.rps)
  window : ∀ l ∈ rt.rateLimiter, l.timestamps.length ≤ l.maxRps.toNat

def CrudStore.Reached (o : OverflowChecks) (spec : CrudSpec) (s : CrudStore) : Prop :=
  ∃ seeded ops answers, CrudStore.new o spec = .ok seeded ∧
    run (CrudStore.step o) seeded ops = some (s, answers)

/-- The store under the lock comes from its seed by operations, and the lock is only poisoned once
the automatic ids have run out. -/
structure LockedStore.Fits (o : OverflowChecks) (spec : CrudSpec) (s : LockedStore) : Prop where
  reached : s.store.Reached o spec
  exhausted : s.poisoned = true → ∃ p, s.store.nextIdAfter o = .error p

/-- A rule has a runtime with its limits, and a store of its own if it is a resource. -/
structure LiveRule.Fits (o : OverflowChecks) (live : LiveRule α) : Prop where
  runtime : ∃ rt, live.state.runtime = some rt ∧ rt.Fits live.rule.behavior
  store : ∀ spec headers, live.rule.reply = .crud spec headers →
    ∃ store, live.state.crud = some store ∧ store.Fits o spec
  storeless : live.rule.reply.isCrud = false → live.state.crud = none

private theorem BehaviorRuntime.fits_new (spec : BehaviorSpec) :
    (BehaviorRuntime.new spec).Fits spec := by
  refine ⟨rfl, ?_, ?_⟩
  · rw [BehaviorRuntime.new, Option.map_map]
    rfl
  · intro l hl
    obtain ⟨rl, _, rfl⟩ := Option.mem_map.mp hl
    exact Nat.zero_le _

private theorem RateLimiter.tryAcquire_window {l l' : RateLimiter} {now : Instant} {b : Bool}
    (h : l.tryAcquire now = .ok (l', b)) (hl : l.timestamps.length ≤ l.maxRps.toNat) :
    l'.maxRps = l.maxRps ∧ l'.timestamps.length ≤ l'.maxRps.toNat := by
  rw [RateLimiter.tryAcquire] at h
  cases hago : now.checkedSub oneSecond with
  | none => simp [hago] at h
  | some oneSecAgo =>
    simp only [hago] at h
    split_ifs at h with hroom
    · obtain ⟨rfl, _⟩ := Prod.mk.inj (Except.ok.inj h)
      refine ⟨rfl, ?_⟩
      rw [List.length_append, List.length_singleton]
      exact hroom
    · obtain ⟨rfl, _⟩ := Prod.mk.inj (Except.ok.inj h)
      exact ⟨rfl, (List.length_filter_le _ _).trans hl⟩

private theorem BehaviorRuntime.Fits.checkRate {spec : BehaviorSpec} {rt rt' : BehaviorRuntime}
    (h : rt.Fits spec) {now : Instant} {reply : Option ReplySpec}
    (hcheck : rt.checkRate spec now = .ok (rt', reply)) : rt'.Fits spec := by
  rw [BehaviorRuntime.checkRate] at hcheck
  cases hl : rt.rateLimiter with
  | none =>
    rw [hl] at hcheck
    obtain ⟨rfl, _⟩ := Prod.mk.inj (Except.ok.inj hcheck)
    exact h
  | some l =>
    cases hr : spec.rateLimit with
    | none =>
      rw [hl, hr] at hcheck
      obtain ⟨rfl, _⟩ := Prod.mk.inj (Except.ok.inj hcheck)
      exact h
    | some rl =>
      simp only [hl, hr] at hcheck
      rcases hacq : l.tryAcquire now with p | ⟨l', b⟩
      · simp [hacq, Except.map] at hcheck
      · simp only [hacq, Except.map, Except.ok.injEq, Prod.mk.injEq] at hcheck
        obtain ⟨rfl, _⟩ := hcheck
        obtain ⟨hmax, hwindow⟩ := RateLimiter.tryAcquire_window hacq (h.window l hl)
        have hlimit := h.limit
        rw [hl] at hlimit
        refine ⟨h.permits, ?_, ?_⟩
        · rw [← hlimit, Option.map_some, Option.map_some, hmax]
        · intro l'' hl''
          rwa [← Option.some.inj hl'']

private theorem CrudStore.Reached.apply {o : OverflowChecks} {spec : CrudSpec} {s s' : CrudStore}
    (h : s.Reached o spec) {op : CrudOp} {answer : CrudResponse}
    (happ : s.apply o op = .ok (s', answer)) : s'.Reached o spec := by
  obtain ⟨seeded, ops, answers, hnew, hrun⟩ := h
  refine ⟨seeded, ops ++ [op], answers ++ [answer], hnew, ?_⟩
  refine run_append_eq_some.mpr ⟨s, answers, [answer], hrun, ?_, rfl⟩
  exact run_cons_eq_some.mpr ⟨s', answer, [], by rw [CrudStore.step, happ]; rfl, rfl, rfl⟩

theorem CrudStore.nextIdAfter_of_panic {o : OverflowChecks} {s : CrudStore} {op : CrudOp}
    {p : Panic} (h : s.apply o op = .error p) : ∃ p, s.nextIdAfter o = .error p := by
  cases op with
  | create uuid body =>
    rw [CrudStore.apply, create_eq] at h
    cases hn : s.nextIdAfter o with
    | error p => exact ⟨p, rfl⟩
    | ok n => simp [hn, Except.map] at h
  | list | get _ | replace _ _ | patch _ _ | delete _ | methodNotAllowed => cases h

private theorem LockedStore.apply_cases (o : OverflowChecks) (s : LockedStore) (op : CrudOp) :
    (s.apply o op).1 = s ∨
      (∃ store answer, s.store.apply o op = .ok (store, answer) ∧
        (s.apply o op).1 = .sound store) ∨
      ∃ p, s.store.apply o op = .error p ∧ (s.apply o op).1 = ⟨s.store, true⟩ := by
  obtain ⟨store, _ | _⟩ := s
  · have happly := LockedStore.apply_sound o store op
    rw [LockedStore.sound] at happly
    rcases happ : store.apply o op with p | ⟨store', answer⟩ <;> rw [happ] at happly
    · exact Or.inr (Or.inr ⟨p, rfl, by rw [happly]⟩)
    · exact Or.inr (Or.inl ⟨store', answer, rfl, by rw [happly]⟩)
  · cases op <;> exact Or.inl rfl

private theorem LockedStore.Fits.apply {o : OverflowChecks} {spec : CrudSpec} {s : LockedStore}
    (h : s.Fits o spec) (op : CrudOp) : (s.apply o op).1.Fits o spec := by
  rcases s.apply_cases o op with heq | ⟨store, answer, happ, heq⟩ | ⟨p, happ, heq⟩ <;> rw [heq]
  · exact h
  · exact ⟨h.reached.apply happ, fun hp => by cases hp⟩
  · exact ⟨h.reached, fun _ => CrudStore.nextIdAfter_of_panic happ⟩

theorem LiveRule.fits_new {o : OverflowChecks} {rule : Rule} {live : LiveRule α}
    (h : LiveRule.new o rule = some live) : live.rule = rule ∧ live.Fits o := by
  have hruntime := BehaviorRuntime.fits_new rule.behavior
  rw [LiveRule.new] at h
  cases hreply : rule.reply with
  | crud spec headers =>
    rw [hreply] at h
    cases hnew : CrudStore.new o spec with
    | error p => simp [hnew] at h
    | ok store =>
      simp only [hnew, Option.some.injEq] at h
      subst h
      refine ⟨rfl, ⟨_, rfl, hruntime⟩, ?_, ?_⟩
      · intro spec' headers' heq
        obtain ⟨rfl, rfl⟩ := ReplyStrategy.crud.inj (hreply.symm.trans heq)
        exact ⟨_, rfl, ⟨store, [], [], hnew, rfl⟩, fun hp => by cases hp⟩
      · intro hcrud
        rw [hreply] at hcrud
        cases hcrud
  | static r | sequence rs =>
    rw [hreply] at h
    obtain rfl := Option.some.inj h
    refine ⟨rfl, ⟨_, rfl, hruntime⟩, ?_, fun _ => rfl⟩
    intro spec headers heq
    rw [hreply] at heq
    cases heq

variable [DecidableEq α]

private theorem LiveRule.Fits.handle {o : OverflowChecks} {live : LiveRule α} (h : live.Fits o)
    (x : External) (c : Call α) : LiveRule.Fits o ⟨live.rule, (live.handle x o c).2.1⟩ := by
  have hchecks := Handling.checks_checkPolicies live.rule.behavior c.out live.state c.rng
  have hresolves := Handling.resolves_handleMatched { x with readFile := c.files } o c.addr c.req
    c.out live.rule live.state c.rng
  generalize (Handling.checkPolicies live.rule.behavior c.out (live.state, c.rng)).2.1 = st
    at hchecks hresolves
  obtain ⟨rt, hrt, hfits⟩ := h.runtime
  have hcrud : st.crud = live.state.crud := by
    rcases hchecks with rfl | ⟨_, _, _, _, _, rfl⟩ <;> rfl
  refine ⟨?_, ?_, ?_⟩
  · rw [LiveRule.handle, hresolves.runtime]
    rcases hchecks with rfl | ⟨rt₀, rt', reply, hrt₀, hcheck, rfl⟩
    · exact ⟨rt, hrt, hfits⟩
    · obtain rfl := Option.some.inj (hrt.symm.trans hrt₀)
      exact ⟨rt', rfl, hfits.checkRate hcheck⟩
  · intro spec headers hreply
    obtain ⟨store, hstore, hstoreFits⟩ := h.store spec headers hreply
    rw [LiveRule.handle]
    rcases hresolves.crud with hsame | ⟨store₀, _, hstore₀, hafter⟩
    · exact ⟨store, by rw [hsame, hcrud, hstore], hstoreFits⟩
    · obtain rfl := Option.some.inj (hstore.symm.trans (hcrud.symm.trans hstore₀))
      exact ⟨_, hafter, hstoreFits.apply _⟩
  · intro hnone
    rw [LiveRule.handle]
    rcases hresolves.crud with hsame | ⟨store, hisCrud, _, _⟩
    · rw [hsame, hcrud, h.storeless hnone]
    · rw [hnone] at hisCrud
      cases hisCrud

/-- The run lemma: the objects fit as long as they fitted at the start. -/
theorem Server.Sound.fits_run {x : External} {o : OverflowChecks} {s t : Server α} (hs : s.Sound)
    (hfits : ∀ live ∈ s.live, live.Fits o) {calls : List (Call α)}
    {outs : List (Option ℕ × Option Response)}
    (hrun : run (Server.next x o) s calls = some (t, outs)) : ∀ live ∈ t.live, live.Fits o :=
  Server.run_forall (fun _ c h => h.handle x c)
    (fun _ _ _ _ _ _ _ hnew => (LiveRule.fits_new hnew).2) hs hrun hfits

omit [DecidableEq α] in
theorem Server.fits_start {x : External} {o : OverflowChecks} {parent : String → Option String}
    {config : Option String} {s : Server α} (h : (Server.start x o parent config).2 = some s) :
    ∀ live ∈ s.live, live.Fits o := by
  intro live hmem
  obtain ⟨_, _, hlive⟩ := Server.sound_start h
  obtain ⟨_, _, _, rule, _, _, hnew⟩ := hlive live hmem
  exact (LiveRule.fits_new hnew).2

/-- As long as calls are served one after another, every rule of a server has the limits that it was
registered with, behind a window of bounded size, and a resource has a store that operations on its
seed lead to. So no request passes for want of a runtime or fails for want of a store. -/
theorem objects_fit_rules {x : External} {o : OverflowChecks} {parent : String → Option String}
    {config : Option String} {s t : Server α} (hstart : (Server.start x o parent config).2 = some s)
    {calls : List (Call α)} {outs : List (Option ℕ × Option Response)}
    (hrun : run (Server.next x o) s calls = some (t, outs)) : ∀ live ∈ t.live, live.Fits o := by
  obtain ⟨hs, _⟩ := Server.sound_start hstart
  exact hs.fits_run (Server.fits_start hstart) hrun

theorem objects_fit_rules_loaded :
    let limit : Value := .obj [("max", .ofNat 1), ("over", .obj [] (by decide))] (by decide)
    let v : Value := .obj [("match", .string "_"),
      ("reply", .obj [("crud!", .bool true)] (by decide)),
      ("serve", .obj [("rps", limit)] (by decide))] (by decide)
    let x : External := { (default : External) with fromStr := fun _ => .ok v }
    let put := plainCall "PUT" "/_mx" (utf8 v.toString)
    ∃ s outs live, run (Server.next x .checked) .new [put] = some (s, outs) ∧ s.live = [live] ∧
      live.Fits .checked := by
  intro limit v x put
  obtain ⟨rule, spec, headers, hparse, hreply, hspec⟩ : ∃ rule spec headers,
      parseRules { x with readFile := put.files } v none = .ok [rule] ∧
        rule.reply = .crud spec headers ∧ spec = {} :=
    ⟨_, _, _, rfl, rfl, rfl⟩
  have hput : Replaces x put [rule] := ⟨rfl, rfl, parseBodyAsRules_utf8 rfl hparse⟩
  obtain ⟨store, hstore⟩ : ∃ store, CrudStore.new .checked spec = .ok store :=
    ⟨_, by rw [hspec]; rfl⟩
  have hlive : liveRules (α := Unit) .checked [rule] =
      ([⟨rule, .fresh rule (some store)⟩], true) := by
    simp [liveRules, LiveRule.new, hreply, hstore]
  obtain ⟨s, outs, hrun, _, hone⟩ := hput.run_new hlive
  have hmem : (⟨rule, .fresh rule (some store)⟩ : LiveRule Unit) ∈ s.live := by
    rw [hone]
    exact List.mem_singleton_self _
  have hstart : (Server.start (α := Unit) x .checked (fun _ => none) none).2 = some .new := rfl
  exact ⟨s, outs, _, hrun, hone, objects_fit_rules hstart hrun _ hmem⟩

end Mockinx
