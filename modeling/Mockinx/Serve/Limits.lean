import Mockinx.Serve.Runtime

/-!
The limits that a rule asks for and those that are enforced. A limit is read as a 64-bit integer,
checked as one, and narrowed to 32 bits on its way into the runtime.
-/

set_option autoImplicit false
set_option relaxedAutoImplicit false

namespace Mockinx

open Lib

def writtenMax (v : Value) (key : String) : Option UInt64 :=
  ((v.get? key).bind fun limit => limit.get? "max").bind Value.asU64

/-- The permits of the semaphore and the limit of the rate limiter are the written ones. -/
def EnforcedAsWritten (v : Value) (rt : BehaviorRuntime) : Prop :=
  (∀ m ∈ writtenMax v "conn", rt.semaphore = some m.toNat) ∧
    ∀ r ∈ writtenMax v "rps", rt.rateLimiter.map (fun l => l.maxRps.toNat) = some r.toNat

/-- Every maximum that is given fits into 32 bits. -/
def NarrowLimits (v : Value) : Prop :=
  ∀ key ∈ ["conn", "rps"], ∀ m ∈ writtenMax v key, m.toNat < 2 ^ 32

instance (v : Value) : Decidable (NarrowLimits v) :=
  decidable_of_iff
    ((["conn", "rps"].all fun key =>
      (writtenMax v key).toList.all fun m => m.toNat < 2 ^ 32) = true)
    (by simp [NarrowLimits])

private theorem toNat_narrowed_eq_iff (n : UInt64) :
    n.toUInt32.toNat = n.toNat ↔ n.toNat < 2 ^ 32 := by
  rw [UInt64.toNat_toUInt32]
  omega

private theorem writtenMax_of_read {obj limit : Map} {val : Value} {key notObject noMax : String}
    {max : UInt64} (hkey : obj.get? key = some val)
    (hlimit : okOr val.asObject notObject = .ok limit)
    (hmax : okOr ((limit.get? "max").bind Value.asU64) noMax = .ok max) :
    writtenMax (.object obj) key = some max := by
  obtain rfl := Value.asObject_eq_some.mp (okOr_ok.mp hlimit)
  change ((obj.get? key).bind fun limit => limit.get? "max").bind Value.asU64 = _
  rw [hkey]
  exact okOr_ok.mp hmax

private theorem writtenMax_of_none {obj : Map} {key : String} (hkey : obj.get? key = none) :
    writtenMax (.object obj) key = none := by
  change ((obj.get? key).bind fun limit => limit.get? "max").bind Value.asU64 = _
  rw [hkey]
  rfl

private theorem parseConn_max {x : External} {obj : Map} {conc : Option ConcurrencySpec}
    (h : parseConn x obj = .ok conc) :
    conc.map (fun c => c.max) = (writtenMax (.object obj) "conn").map UInt64.toUInt32 := by
  rw [parseConn] at h
  cases hget : obj.get? "conn" with
  | none =>
    rw [hget] at h
    obtain rfl := Except.ok.inj h
    rw [writtenMax_of_none hget]
    rfl
  | some val =>
    rw [hget] at h
    obtain ⟨limit, hlimit, hlimited⟩ := parse_bind_ok.mp h
    obtain ⟨max, hmax, hchecked⟩ := parse_bind_ok.mp hlimited
    rw [writtenMax_of_read hget hlimit hmax]
    split_ifs at hchecked with hzero
    · cases hchecked
    · obtain ⟨action, _, hspec⟩ := parse_bind_ok.mp hchecked
      obtain rfl := Except.ok.inj hspec
      rfl

private theorem parseRps_max {x : External} {obj : Map} {rate : Option RateLimitSpec}
    (h : parseRps x obj = .ok rate) :
    rate.map (fun r => r.rps) = (writtenMax (.object obj) "rps").map UInt64.toUInt32 := by
  rw [parseRps] at h
  cases hget : obj.get? "rps" with
  | none =>
    rw [hget] at h
    obtain rfl := Except.ok.inj h
    rw [writtenMax_of_none hget]
    rfl
  | some val =>
    rw [hget] at h
    obtain ⟨limit, hlimit, hlimited⟩ := parse_bind_ok.mp h
    obtain ⟨max, hmax, hover⟩ := parse_bind_ok.mp hlimited
    rw [writtenMax_of_read hget hlimit hmax]
    obtain ⟨_, _, hreply⟩ := parse_bind_ok.mp hover
    obtain ⟨_, _, hspec⟩ := parse_bind_ok.mp hreply
    obtain rfl := Except.ok.inj hspec
    rfl

private theorem runtime_limits {x : External} {v : Value} {spec : BehaviorSpec}
    (h : parseBehavior x v = .ok spec) :
    (BehaviorRuntime.new spec).semaphore =
        (writtenMax v "conn").map (fun m => m.toUInt32.toNat) ∧
      (BehaviorRuntime.new spec).rateLimiter.map (fun l => l.maxRps.toNat) =
        (writtenMax v "rps").map fun r => r.toUInt32.toNat := by
  rw [parseBehavior] at h
  obtain ⟨obj, hobj, hconns⟩ := parse_bind_ok.mp h
  obtain ⟨conc, hconc, hrates⟩ := parse_bind_ok.mp hconns
  obtain ⟨rate, hrate, htimeout⟩ := parse_bind_ok.mp hrates
  obtain ⟨timeout, _, hspec⟩ := parse_bind_ok.mp htimeout
  obtain rfl := Value.asObject_eq_some.mp (okOr_ok.mp hobj)
  obtain rfl := Except.ok.inj hspec
  have hconn := congrArg (Option.map UInt32.toNat) (parseConn_max hconc)
  have hrps := congrArg (Option.map UInt32.toNat) (parseRps_max hrate)
  rw [Option.map_map, Option.map_map] at hconn hrps
  refine ⟨hconn, ?_⟩
  rw [BehaviorRuntime.new, Option.map_map]
  exact hrps

/-- An accepted serve object is enforced as written exactly when its limits fit into 32 bits. -/
theorem enforced_as_written_iff {x : External} {v : Value} {spec : BehaviorSpec}
    (h : parseBehavior x v = .ok spec) :
    EnforcedAsWritten v (.new spec) ↔ NarrowLimits v := by
  obtain ⟨hconn, hrps⟩ := runtime_limits h
  rw [EnforcedAsWritten, hconn, hrps, NarrowLimits, List.forall_mem_cons,
    List.forall_mem_singleton]
  refine and_congr (forall₂_congr fun m hm => ?_) (forall₂_congr fun r hr => ?_)
  · have hsome : writtenMax v "conn" = some m := hm
    rw [hsome, Option.map_some, Option.some.injEq, toNat_narrowed_eq_iff]
  · have hsome : writtenMax v "rps" = some r := hr
    rw [hsome, Option.map_some, Option.some.injEq, toNat_narrowed_eq_iff]

theorem five_connections_enforced :
    let v : Value := .obj [("conn", .obj [("max", .ofNat 5), ("over", .string "block")]
      (by decide))] (by decide)
    ∃ spec, parseBehavior default v = .ok spec ∧ EnforcedAsWritten v (.new spec) := by
  intro v
  have h : parseBehavior default v = .ok _ := rfl
  exact ⟨_, h, (enforced_as_written_iff h).mpr (by decide)⟩

/-- A positive limit that becomes none at all. -/
theorem limit_becomes_zero :
    let v : Value := .obj [("conn", .obj [("max", .ofNat 4294967296), ("over", .string "block")]
      (by decide))] (by decide)
    ∃ spec, parseBehavior default v = .ok spec ∧
      (BehaviorRuntime.new spec).semaphore = some 0 ∧ ¬ EnforcedAsWritten v (.new spec) := by
  intro v
  refine ⟨_, rfl, rfl, fun hwritten => ?_⟩
  have hconn := hwritten.1 4294967296 rfl
  exact absurd hconn (by decide)

end Mockinx
