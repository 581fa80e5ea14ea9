import Mathlib.Data.Nat.ModEq
import Mockinx.Lib.Run
import Mockinx.Server.Handler
import Mockinx.Store

/-!
A sequence of replies over connections. The calls are counted by the peer's address and as long as
the rule lives, so a connection takes over the count of the connections that had its address before.
-/

set_option autoImplicit false
set_option relaxedAutoImplicit false

namespace Mockinx

open Lib Lib.Run

/-- A rule that replies with a sequence, which the parser does not accept empty. -/
structure SequenceRule where
  rule : Rule
  replies : List ReplySpec
  nonempty : replies ≠ []
  sequence : rule.reply = .sequence replies

namespace SequenceRule

theorem length_pos (r : SequenceRule) : 0 < r.replies.length := List.length_pos_iff.mpr r.nonempty

/-- The reply to the `k`-th request of a connection, by the cycle. -/
def replyTo (r : SequenceRule) (k : ℕ) : ReplySpec :=
  r.replies.get ⟨k % r.replies.length, Nat.mod_lt _ r.length_pos⟩

private theorem replyTo_congr (r : SequenceRule) {i k : ℕ} (h : i ≡ k [MOD r.replies.length]) :
    r.replyTo i = r.replyTo k := by
  have hindex : (⟨i % r.replies.length, Nat.mod_lt _ r.length_pos⟩ : Fin r.replies.length) =
    ⟨k % r.replies.length, Nat.mod_lt _ r.length_pos⟩ := Fin.ext h
  rw [replyTo, replyTo, hindex]

private theorem resolveStrategy_eq (r : SequenceRule) (x : External) (o : OverflowChecks)
    (crud : Option CrudStore) (req : Request) (out : Outside) :
    resolveStrategy x o r.rule.reply crud req out =
      .ok (crud, some (r.replyTo out.callIdx.toNat)) := by
  have hget : r.replies[out.callIdx.toNat % r.replies.length]? =
    some (r.replyTo out.callIdx.toNat) := List.getElem?_eq_getElem (Nat.mod_lt _ r.length_pos)
  simp only [r.sequence, resolveStrategy, hget]

end SequenceRule

/-- A connection, by the address of its peer. -/
structure Conn (α : Type) where
  addr : α
  isOpen : Bool

/-- The counters of a rule entry, and the connections in the order in which they were opened. -/
structure SequenceState (α : Type) where
  counters : ConnCounters α
  conns : List (Conn α)

/-- A connection opens or closes, or a request on it is rejected by a limit or admitted. -/
inductive SequenceAction (α : Type) where
  | connect (addr : α)
  | close (c : ℕ)
  | reject (c : ℕ)
  | request (c : ℕ) (req : Request) (out : Outside) (rng : Rng)

variable {α : Type}

namespace SequenceState

def start : SequenceState α where
  counters := { count := fun _ => 0 }
  conns := []

def replyAt (x : External) (o : OverflowChecks) (r : SequenceRule) (req : Request) (out : Outside)
    (callIdx : UInt64) : Option ReplySpec :=
  match resolveStrategy x o r.rule.reply none req { out with callIdx } with
  | .ok (_, reply) => reply
  | .error _ => none

def openConn (s : SequenceState α) (c : ℕ) : Option α :=
  (s.conns[c]?).bind fun conn => if conn.isOpen then some conn.addr else none

/-- One step, with the answer to a request that gets to the sequence; it has none when the counting
panics. No two open connections have the same peer. -/
def step [DecidableEq α] (x : External) (o : OverflowChecks) (r : SequenceRule)
    (s : SequenceState α) :
    SequenceAction α → Option (SequenceState α × Option (ℕ × Option ReplySpec))
  | .connect addr =>
    if ∃ conn ∈ s.conns, conn.isOpen = true ∧ conn.addr = addr then none
    else some ({ s with conns := s.conns ++ [{ addr, isOpen := true }] }, none)
  | .close c =>
    (s.openConn c).map fun addr =>
      ({ s with conns := s.conns.set c { addr, isOpen := false } }, none)
  | .reject c => (s.openConn c).map fun _ => (s, none)
  | .request c req out rng =>
    (s.openConn c).map fun addr =>
      match rollChaos r.rule.chaos rng with
      | .ok ((none, _), _) =>
        let (counters, callIdx) := s.counters.nextCallFor o addr
        ({ s with counters }, some (c, callIdx.bind (replyAt x o r req out)))
      | _ => (s, none)

private theorem replyAt_eq (x : External) (o : OverflowChecks) (r : SequenceRule) (req : Request)
    (out : Outside) (callIdx : UInt64) :
    replyAt x o r req out callIdx = some (r.replyTo callIdx.toNat) := by
  rw [replyAt, r.resolveStrategy_eq]

/-- Every connection opens with a count at the start of the cycle, and no count overflows. -/
def StartsAfresh (r : SequenceRule) (s : SequenceState α) : SequenceAction α → Prop
  | .connect addr => r.replies.length ∣ (s.counters.count addr).toNat
  | .close _ | .reject _ => True
  | .request c _ _ _ => ∀ addr ∈ s.openConn c, (s.counters.count addr).toNat + 1 < 2 ^ 64

instance (r : SequenceRule) (s : SequenceState α) (a : SequenceAction α) :
    Decidable (s.StartsAfresh r a) :=
  match a with
  | .connect _ => inferInstanceAs (Decidable (_ ∣ _))
  | .close _ | .reject _ => isTrue trivial
  | .request c _ _ _ => inferInstanceAs (Decidable (∀ addr ∈ s.openConn c, _))

/-- The `k`-th answer on a connection is the `k`-th reply of the cycle. -/
def Cycles (r : SequenceRule) (outs : List (Option (ℕ × Option ReplySpec))) : Prop :=
  ∀ c k a, (outputsOf c outs)[k]? = some a → a = some (r.replyTo k)

def OpenAt (s : SequenceState α) (c : ℕ) (addr : α) : Prop :=
  s.conns[c]? = some { addr, isOpen := true }

private theorem openConn_eq_some {s : SequenceState α} {c : ℕ} {addr : α} :
    s.openConn c = some addr ↔ s.OpenAt c addr := by
  rw [openConn, OpenAt]
  rcases s.conns[c]? with _ | ⟨addr', _ | _⟩ <;> simp

structure Cycling (r : SequenceRule) (s : SequenceState α)
    (outs : List (Option (ℕ × Option ReplySpec))) : Prop where
  sound : s.counters.poisoned = false
  answers : Cycles r outs
  fresh : ∀ c, s.conns.length ≤ c → outputsOf c outs = []
  counted : ∀ c addr, s.OpenAt c addr →
    (s.counters.count addr).toNat ≡ (outputsOf c outs).length [MOD r.replies.length]
  apart : ∀ c c' addr, s.OpenAt c addr → s.OpenAt c' addr → c = c'

private theorem Cycling.quiet {r : SequenceRule} {s : SequenceState α}
    {outs : List (Option (ℕ × Option ReplySpec))} (h : Cycling r s outs) :
    Cycling r s (outs ++ [none]) where
  sound := h.sound
  answers c k a := by
    rw [outputsOf_none]
    exact h.answers c k a
  fresh c := by
    rw [outputsOf_none]
    exact h.fresh c
  counted c addr := by
    rw [outputsOf_none]
    exact h.counted c addr
  apart := h.apart

private theorem Cycling.connect {r : SequenceRule} {s : SequenceState α}
    {outs : List (Option (ℕ × Option ReplySpec))} {addr : α} (h : Cycling r s outs)
    (halone : ¬ ∃ conn ∈ s.conns, conn.isOpen = true ∧ conn.addr = addr)
    (hstart : r.replies.length ∣ (s.counters.count addr).toNat) :
    Cycling r { s with conns := s.conns ++ [{ addr, isOpen := true }] } outs := by
  have hother : ∀ c : ℕ, ¬ s.OpenAt c addr := fun c hc =>
    halone ⟨_, List.mem_of_getElem? hc, rfl, rfl⟩
  have hlook : ∀ (c : ℕ) (a : α), OpenAt { s with conns := s.conns ++ [⟨addr, true⟩] } c a →
      s.OpenAt c a ∨ c = s.conns.length ∧ a = addr := by
    intro c a hc
    rw [OpenAt, List.getElem?_append] at hc
    split_ifs at hc with hlt
    · exact Or.inl hc
    · rw [List.getElem?_singleton] at hc
      split_ifs at hc with hzero
      obtain ⟨rfl, _⟩ := Conn.mk.inj (Option.some.inj hc)
      exact Or.inr ⟨by omega, rfl⟩
  refine ⟨h.sound, h.answers, ?_, ?_, ?_⟩
  · intro c hc
    rw [List.length_append] at hc
    exact h.fresh c (by omega)
  · intro c a hc
    rcases hlook c a hc with hold | ⟨rfl, rfl⟩
    · exact h.counted c a hold
    · rw [h.fresh _ le_rfl]
      exact Nat.modEq_zero_iff_dvd.mpr hstart
  · intro c c' a hc hc'
    rcases hlook c a hc with hold | ⟨rfl, rfl⟩
    · rcases hlook c' a hc' with hold' | ⟨rfl, rfl⟩
      · exact h.apart c c' a hold hold'
      · exact absurd hold (hother c)
    · rcases hlook c' a hc' with hold' | ⟨rfl, _⟩
      · exact absurd hold' (hother c')
      · rfl

private theorem Cycling.close {r : SequenceRule} {s : SequenceState α}
    {outs : List (Option (ℕ × Option ReplySpec))} (h : Cycling r s outs) (c : ℕ) (addr : α) :
    Cycling r { s with conns := s.conns.set c { addr, isOpen := false } } outs := by
  have hlook : ∀ (c' : ℕ) (a : α), OpenAt { s with conns := s.conns.set c ⟨addr, false⟩ } c' a →
      s.OpenAt c' a := by
    intro c' a hc'
    rw [OpenAt, List.getElem?_set] at hc'
    split_ifs at hc'
    · cases hc'
    · exact hc'
  refine ⟨h.sound, h.answers, ?_, ?_, ?_⟩
  · intro c' hc'
    rw [List.length_set] at hc'
    exact h.fresh c' hc'
  · exact fun c' a hc' => h.counted c' a (hlook c' a hc')
  · exact fun c₁ c₂ a h₁ h₂ => h.apart c₁ c₂ a (hlook c₁ a h₁) (hlook c₂ a h₂)

private theorem Cycling.request [DecidableEq α] {r : SequenceRule} {s : SequenceState α}
    {outs : List (Option (ℕ × Option ReplySpec))} {c : ℕ} {addr : α} (h : Cycling r s outs)
    (hopen : s.OpenAt c addr) (hlt : (s.counters.count addr).toNat + 1 < 2 ^ 64) :
    Cycling r { s with counters :=
        { s.counters with
          count := Function.update s.counters.count addr (s.counters.count addr + 1) } }
      (outs ++ [some (c, some (r.replyTo (s.counters.count addr).toNat))]) := by
  have hcounted := h.counted c addr hopen
  refine ⟨h.sound, ?_, ?_, ?_, h.apart⟩
  · intro c' k a ha
    rw [outputsOf_some] at ha
    split_ifs at ha with hc
    · subst hc
      rw [List.getElem?_append] at ha
      split_ifs at ha with hk
      · exact h.answers c k a ha
      · rw [List.getElem?_singleton] at ha
        split_ifs at ha with hzero
        have hlast : k = (outputsOf c outs).length := by omega
        rw [← Option.some.inj ha, hlast, r.replyTo_congr hcounted]
    · rw [List.append_nil] at ha
      exact h.answers c' k a ha
  · intro c' hc'
    have hc : c ≠ c' := by
      rintro rfl
      exact absurd (List.getElem?_eq_some_iff.mp hopen).1 (not_lt.mpr hc')
    rw [outputsOf_some, if_neg hc, List.append_nil]
    exact h.fresh c' hc'
  · intro c' a hc'
    have hother := h.counted c' a hc'
    rw [outputsOf_some]
    dsimp only
    by_cases hc : c = c'
    · subst hc
      obtain ⟨rfl, _⟩ := Conn.mk.inj (Option.some.inj (hopen.symm.trans hc'))
      rw [if_pos rfl, Function.update_self, OverflowChecks.toNat_add_one hlt, List.length_append]
      exact hcounted.add_right 1
    · have haddr : a ≠ addr := by
        rintro rfl
        exact hc (h.apart c c' a hopen hc')
      rw [if_neg hc, Function.update_of_ne haddr, List.append_nil]
      exact hother

private theorem Cycling.step [DecidableEq α] {x : External} {o : OverflowChecks} {r : SequenceRule}
    {s t : SequenceState α} {outs : List (Option (ℕ × Option ReplySpec))} {a : SequenceAction α}
    {out : Option (ℕ × Option ReplySpec)} (h : Cycling r s outs)
    (hstep : s.step x o r a = some (t, out)) (hfresh : s.StartsAfresh r a) :
    Cycling r t (outs ++ [out]) := by
  cases a with
  | connect addr =>
    rw [SequenceState.step] at hstep
    split_ifs at hstep with halone
    obtain ⟨rfl, rfl⟩ := Prod.mk.inj (Option.some.inj hstep)
    exact (h.connect halone hfresh).quiet
  | close c =>
    obtain ⟨addr, _, heq⟩ := Option.map_eq_some_iff.mp hstep
    obtain ⟨rfl, rfl⟩ := Prod.mk.inj heq
    exact (h.close c addr).quiet
  | reject c =>
    obtain ⟨addr, _, heq⟩ := Option.map_eq_some_iff.mp hstep
    obtain ⟨rfl, rfl⟩ := Prod.mk.inj heq
    exact h.quiet
  | request c req out' rng =>
    obtain ⟨addr, hopen, heq⟩ := Option.map_eq_some_iff.mp hstep
    have hlt := hfresh addr hopen
    cases hroll : rollChaos r.rule.chaos rng with
    | error p =>
      rw [hroll] at heq
      obtain ⟨rfl, rfl⟩ := Prod.mk.inj heq
      exact h.quiet
    | ok roll =>
      obtain ⟨⟨chaosReply, delivery⟩, rng'⟩ := roll
      rw [hroll] at heq
      cases chaosReply with
      | some reply =>
        obtain ⟨rfl, rfl⟩ := Prod.mk.inj heq
        exact h.quiet
      | none =>
        dsimp only at heq
        rw [ConnCounters.nextCallFor_of_lt o h.sound hlt, Option.bind_some, replyAt_eq] at heq
        obtain ⟨rfl, rfl⟩ := Prod.mk.inj heq
        exact h.request (openConn_eq_some.mp hopen) hlt

end SequenceState

open SequenceState

/-- Sequence replies cycle on every connection of every run in which each connection opens with a
count at the start of the cycle. -/
theorem cycles_of_afresh [DecidableEq α] {x : External} {o : OverflowChecks} {r : SequenceRule}
    {actions : List (SequenceAction α)} {s : SequenceState α}
    {outs : List (Option (ℕ × Option ReplySpec))}
    (hrun : run (SequenceState.step x o r) start actions = some (s, outs))
    (hfresh : Along (SequenceState.step x o r) (fun s a _ => s.StartsAfresh r a) start actions) :
    Cycles r outs := by
  have hstart : Cycling r (start : SequenceState α) [] := by
    constructor <;> simp [start, Cycles, outputsOf, OpenAt]
  exact (run_history_of_along (fun s bs a t out hs hstep hc => hs.step hstep hc) hfresh hrun
    hstart).answers

/-- A rule that replies with 401 and 200 in turn. -/
def unauthorizedFirst : SequenceRule where
  rule := {
    matchRule := .catchAll
    reply := .sequence [{ status := 401 }, { status := 200 }]
    delivery := {}
    behavior := {}
    chaos := none
    source := .null }
  replies := [{ status := 401 }, { status := 200 }]
  nonempty := by simp
  sequence := rfl

theorem cycles_over_three_requests :
    let out : Outside := ⟨.zero, true, 0, "", .zero, .zero⟩
    let request : SequenceAction ℕ := .request 0 default out ⟨fun _ => 0⟩
    let actions := [.connect 7, request, request, request]
    ∃ s outs, run (SequenceState.step default .checked unauthorizedFirst) start actions =
        some (s, outs) ∧
      (outputsOf 0 outs).map (Option.map ReplySpec.status) = [some 401, some 200, some 401] ∧
      Cycles unauthorizedFirst outs := by
  intro out request actions
  have hrun : run (SequenceState.step default .checked unauthorizedFirst) start actions =
    some (_, _) := rfl
  exact ⟨_, _, hrun, by decide, cycles_of_afresh hrun (by decide)⟩

/-- A connection that is closed after one request, and another from the same address: its first
request is answered with the second reply. -/
theorem second_reply_first :
    let out : Outside := ⟨.zero, true, 0, "", .zero, .zero⟩
    let request (c : ℕ) : SequenceAction ℕ := .request c default out ⟨fun _ => 0⟩
    let actions := [.connect 7, request 0, .close 0, .connect 7, request 1]
    ∃ s outs, run (SequenceState.step default .checked unauthorizedFirst) start actions =
        some (s, outs) ∧ ¬ Cycles unauthorizedFirst outs := by
  intro out request actions
  refine ⟨_, _, rfl, fun h => ?_⟩
  have hfirst : some ({ status := 200 } : ReplySpec) = some (unauthorizedFirst.replyTo 0) :=
    h 1 0 _ rfl
  have hstatus : 200 = 401 := congrArg ReplySpec.status (Option.some.inj hfirst)
  exact absurd hstatus (by decide)

end Mockinx
