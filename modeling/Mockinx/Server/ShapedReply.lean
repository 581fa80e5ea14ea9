import Mockinx.Serve.DeliveryExact
import Mockinx.Server.Handler

/-!
The two response builders side by side: a shaped response has the status and headers of the plain
one, and its stream sends the same body.
-/

set_option autoImplicit false
set_option relaxedAutoImplicit false

namespace Mockinx

open Lib Lib.Run DeliveryStream

inductive Shaped (x : External) (reply : ReplySpec) (delivery : DeliverySpec) (permit : Bool)
    (out : Outside) (bytes : List UInt8) (rng : Rng) : Response → Rng → Prop
  | whole (hplain : delivery = {}) : Shaped x reply delivery permit out bytes rng
      (buildResponse x reply (.full bytes)) rng
  | stream {s : DeliveryStream} {rng' : Rng} (hshaped : delivery ≠ {})
      (hstream : deliver bytes delivery out.dropNow out.hangNow rng = .ok (s, rng')) :
      Shaped x reply delivery permit out bytes rng (buildResponse x reply (.stream s permit)) rng'

theorem buildDeliveryResponse_shaped {x : External} {reply : ReplySpec} {delivery : DeliverySpec}
    {permit : Bool} {out : Outside} {rng rng' : Rng} {resp : Response}
    (h : buildDeliveryResponse x reply delivery permit out rng = .ok (resp, rng')) :
    ∃ bytes, generateBody x reply.body = .ok bytes ∧
      Shaped x reply delivery permit out bytes rng resp rng' := by
  rw [buildDeliveryResponse] at h
  obtain ⟨bytes, rng₁, hbytes, h⟩ := sampler_bind_ok.mp h
  obtain ⟨hbody, rfl⟩ := liftPanic_ok.mp hbytes
  refine ⟨bytes, hbody, ?_⟩
  split_ifs at h with hdelivery
  · obtain ⟨hplain, rfl⟩ := liftPanic_ok.mp h
    rw [buildReplyResponse, hbody] at hplain
    obtain rfl := Except.ok.inj hplain
    exact .whole hdelivery
  · obtain ⟨s, rng₂, hs, h⟩ := sampler_bind_ok.mp h
    obtain ⟨rfl, rfl⟩ := sampler_pure_ok.mp h
    exact .stream hdelivery hs

theorem withTimeout_ok {timeout : Option (Range Duration)} {inner : Sampler Response}
    {rng rng' : Rng} {resp : Response} (h : withTimeout timeout inner rng = .ok (resp, rng')) :
    ∃ rng₁, inner rng₁ = .ok (resp, rng') := by
  cases timeout with
  | none => exact ⟨rng, h⟩
  | some range =>
    obtain ⟨_, rng₁, _, hinner⟩ := sampler_bind_ok.mp h
    exact ⟨rng₁, hinner⟩

private theorem shaped_of_timed {x : External} {reply : ReplySpec} {delivery : DeliverySpec}
    {permit : Bool} {out : Outside} {timeout : Option (Range Duration)}
    {crud crud' : Option CrudStore} {rng rng' : Rng} {resp : Response}
    (h : (do return (crud,
      ← withTimeout timeout (buildDeliveryResponse x reply delivery permit out)) : Sampler _) rng =
        .ok ((crud', resp), rng')) :
    ∃ bytes rng₂, Shaped x reply delivery permit out bytes rng₂ resp rng' := by
  obtain ⟨_, _, htimed, h⟩ := sampler_bind_ok.mp h
  obtain ⟨heq, rfl⟩ := sampler_pure_ok.mp h
  obtain ⟨_, rfl⟩ := Prod.mk.inj heq
  obtain ⟨rng₂, hbuild⟩ := withTimeout_ok htimed
  obtain ⟨bytes, _, hshaped⟩ := buildDeliveryResponse_shaped hbuild
  exact ⟨bytes, rng₂, hshaped⟩

theorem resolveAndDeliver_shaped {x : External} {o : OverflowChecks} {rule : Rule}
    {crud crud' : Option CrudStore} {req : Request} {permit : Bool} {out : Outside}
    {rng rng' : Rng} {resp : Response}
    (h : resolveAndDeliver x o rule crud req permit out rng = .ok ((crud', resp), rng')) :
    ∃ chaosReply chaosDelivery rng₁,
      rollChaos rule.chaos rng = .ok ((chaosReply, chaosDelivery), rng₁) ∧
        (resp = .ofStatus 500 ∨ ∃ reply bytes rng₂,
          Shaped x reply (chaosDelivery.getD rule.delivery) permit out bytes rng₂ resp rng') := by
  rw [resolveAndDeliver] at h
  obtain ⟨⟨chaosReply, chaosDelivery⟩, rng₁, hroll, h⟩ := sampler_bind_ok.mp h
  refine ⟨chaosReply, chaosDelivery, rng₁, hroll, ?_⟩
  cases chaosReply with
  | some reply => exact Or.inr ⟨reply, shaped_of_timed h⟩
  | none =>
    obtain ⟨⟨crud₁, reply⟩, _, _, h⟩ := sampler_bind_ok.mp h
    cases reply with
    | none =>
      obtain ⟨heq, _⟩ := sampler_pure_ok.mp h
      exact Or.inl (Prod.mk.inj heq).2.symm
    | some reply => exact Or.inr ⟨_, shaped_of_timed h⟩

/-- Whether the HTTP builder accepts the status and the headers of a reply. -/
def builds (x : External) (reply : ReplySpec) : Bool :=
  decide (100 ≤ reply.status ∧ reply.status ≤ 999) && (responseHeaders x reply).isSome

theorem buildResponse_eq (x : External) (reply : ReplySpec) (body : ResponseBody) :
    buildResponse x reply body =
      if builds x reply then
        { status := reply.status, headers := (responseHeaders x reply).getD [], body }
      else .ofStatus 500 := by
  rw [buildResponse, builds]
  by_cases hstatus : 100 ≤ reply.status ∧ reply.status ≤ 999
  · cases hheaders : responseHeaders x reply <;> simp [hstatus]
  · simp [hstatus]

/-- A response body as the client gets it. A stream runs to its end within some number of polls
whose timers have fired, and every schedule that runs to the end brings the same bytes. -/
def ResponseBody.Sends : ResponseBody → List UInt8 → Prop
  | .full bytes, sent => bytes = sent
  | .stream s _, sent => ∃ n, ∀ polls, ∃ t outs, run pollStep s polls = some (t, outs) ∧
      (n < polls.countP awake → .ready none ∈ outs) ∧
      (.ready none ∈ outs → (chunks outs).flatten = sent)

theorem sends_of_deliver {body : List UInt8} {spec : DeliverySpec} {dropNow hangNow : Instant}
    {rng rng' : Rng} {s : DeliveryStream} (hdrop : spec.drop = none) (hhang : spec.hang = none)
    (h : deliver body spec dropNow hangNow rng = .ok (s, rng')) (permit : Bool) :
    (ResponseBody.stream s permit).Sends body := by
  obtain ⟨hbody, hoffset, hsize, htime, hbytes, hnohang⟩ := deliver_spec h
  have hdeadline : s.dropDeadline = none := htime (by simp [hdrop])
  refine ⟨numChunks s.effectiveLen s.chunkSize, fun polls => ?_⟩
  obtain ⟨t, outs, hrun⟩ := s.exists_run_polls polls
  refine ⟨t, outs, hrun, ended_of_awake hoffset hsize (hnohang hhang).1 (hnohang hhang).2 hrun, ?_⟩
  intro hend
  obtain ⟨before, after, rfl⟩ := List.append_of_mem hend
  obtain ⟨hsent, _, hrest⟩ := sent_of_ended hoffset hsize hdeadline hrun
  have hlen : s.effectiveLen = body.length := by rw [effectiveLen, hbytes hdrop, hbody]
  have hlast : chunks (.ready none :: after) = [] := hrest
  rw [chunks_append, hlast, List.append_nil, hsent, hlen, hbody, List.take_length]

/-- The shaped path agrees with the plain one. A body that cannot be generated makes both panic,
and otherwise a response with a delivery that neither drops nor hangs has the status and the
headers of the plain response and sends its body: the generated one where the builder accepts the
reply, and none, with a bare 500, where it does not. -/
theorem shaped_agrees {x : External} {reply : ReplySpec} {delivery : DeliverySpec}
    (hshaped : delivery ≠ {}) (hdrop : delivery.drop = none) (hhang : delivery.hang = none)
    (permit : Bool) (out : Outside) (rng : Rng) :
    (∀ p, generateBody x reply.body = .error p →
      buildReplyResponse x reply = .error p ∧
        buildDeliveryResponse x reply delivery permit out rng = .error p) ∧
    ∀ shaped rng', buildDeliveryResponse x reply delivery permit out rng = .ok (shaped, rng') →
      ∃ plain bytes, buildReplyResponse x reply = .ok plain ∧ plain.body = .full bytes ∧
        shaped.status = plain.status ∧ shaped.headers = plain.headers ∧
        shaped.body.Sends bytes ∧
        if builds x reply then generateBody x reply.body = .ok bytes
        else shaped = .ofStatus 500 ∧ plain = .ofStatus 500 := by
  constructor
  · intro p hp
    refine ⟨?_, sampler_bind_of_error (liftPanic_error hp rng)⟩
    rw [buildReplyResponse, hp]
    rfl
  · intro shaped rng' h
    obtain ⟨bytes, hbody, hcase⟩ := buildDeliveryResponse_shaped h
    have hplain : buildReplyResponse x reply = .ok (buildResponse x reply (.full bytes)) := by
      rw [buildReplyResponse, hbody]
      rfl
    cases hcase with
    | whole hdelivery => exact absurd hdelivery hshaped
    | @stream s _ _ hs =>
      have hsends := sends_of_deliver hdrop hhang hs permit
      rw [buildResponse_eq] at hplain ⊢
      cases hbuilds : builds x reply with
      | true =>
        rw [hbuilds, if_pos rfl] at hplain
        rw [if_pos rfl]
        exact ⟨_, bytes, hplain, rfl, rfl, rfl, hsends, hbody⟩
      | false =>
        rw [hbuilds, if_neg Bool.false_ne_true] at hplain
        rw [if_neg Bool.false_ne_true]
        exact ⟨_, [], hplain, rfl, rfl, rfl, rfl, rfl, rfl⟩

theorem shaped_agrees_five_bytes :
    let x : External := default
    let reply : ReplySpec :=
      { status := 200, headers := (∅ : Map).insert "a" (.string "b"),
        body := .literal (.string "abcde") }
    let delivery : DeliverySpec := { pace := some (.chunk (.fixed ⟨2⟩) (.fixed .zero)) }
    let out : Outside := ⟨.zero, true, 0, "", .zero, .zero⟩
    ∃ shaped rng plain bytes,
      buildDeliveryResponse x reply delivery true out ⟨fun _ => 0⟩ = .ok (shaped, rng) ∧
        buildReplyResponse x reply = .ok plain ∧ plain.body = .full bytes ∧
        shaped.headers = plain.headers ∧ shaped.body.Sends bytes := by
  intro x reply delivery out
  have hbuild : buildDeliveryResponse x reply delivery true out ⟨fun _ => 0⟩ = .ok (_, _) := rfl
  obtain ⟨plain, bytes, hplain, hbody, _, hheaders, hsends, _⟩ :=
    (@shaped_agrees x reply delivery (by decide) rfl rfl true out ⟨fun _ => 0⟩).2 _ _ hbuild
  exact ⟨_, _, plain, bytes, hbuild, hplain, hbody, hheaders, hsends⟩

end Mockinx
