import Mockinx.Reply.CrudIds
import Mockinx.Server.Config
import Mockinx.Server.Registry

/-!
When the server goes down. Only a registration does it, by a panic under the locks of the tables,
and only over a resource whose seed has the largest 64-bit integer for an id.
-/

set_option autoImplicit false
set_option relaxedAutoImplicit false

namespace Mockinx

open Lib Lib.Run

variable {α : Type}

private theorem CrudStore.new_error_iff {o : OverflowChecks} {spec : CrudSpec} :
    (∃ p, CrudStore.new o spec = .error p) ↔ o = .checked ∧ spec.maxId.toNat + 1 = 2 ^ 64 := by
  have hnew : CrudStore.new o spec = (o.succ spec.maxId).map fun nextId =>
      { state := { items := (load spec.id.name spec.data).1, nextId }, idField := spec.id.name,
        idStrategy := spec.id.new } := by
    rw [CrudStore.new, load_eq]
    rfl
  have hlt := spec.maxId.toNat_lt
  simp only [hnew, OverflowChecks.succ]
  split_ifs with hroom
  · refine iff_of_false ?_ fun h => hroom.ne h.2
    rintro ⟨p, hp⟩
    cases hp
  · cases o with
    | checked => exact iff_of_true ⟨_, rfl⟩ ⟨rfl, by omega⟩
    | wrapping =>
      refine iff_of_false ?_ fun h => by cases h.1
      rintro ⟨p, hp⟩
      cases hp

private theorem not_seedsBelowMax_iff {rule : Rule} {spec : CrudSpec} {headers : Map}
    (hreply : rule.reply = .crud spec headers) :
    ¬ SeedsBelowMax rule ↔ spec.maxId.toNat + 1 = 2 ^ 64 := by
  constructor
  · intro h
    by_contra hne
    refine h fun spec' headers' heq item hitem hid => hne ?_
    obtain ⟨rfl, rfl⟩ := ReplyStrategy.crud.inj (hreply.symm.trans heq)
    have hmem : Number.posInt (UInt64.ofNat (2 ^ 64 - 1)) ∈ spec.seedNumbers :=
      List.mem_filterMap.mpr ⟨item, hitem, by rw [hid]; rfl⟩
    have hle := le_maxId hmem
    have hlast : (UInt64.ofNat (2 ^ 64 - 1)).toNat = 2 ^ 64 - 1 := by decide
    have hlt := spec.maxId.toNat_lt
    omega
  · intro hmax h
    exact (maxId_lt (h spec headers hreply)).ne hmax

private theorem LiveRule.new_eq_none_iff {o : OverflowChecks} {rule : Rule} :
    LiveRule.new (α := α) o rule = none ↔ o = .checked ∧ ¬ SeedsBelowMax rule := by
  rw [LiveRule.new]
  cases hreply : rule.reply with
  | static r | sequence rs =>
    refine iff_of_false (by simp) fun h => h.2 fun spec headers heq => ?_
    rw [hreply] at heq
    cases heq
  | crud spec headers =>
    rw [not_seedsBelowMax_iff hreply, ← CrudStore.new_error_iff]
    dsimp only
    rcases CrudStore.new o spec with p | store
    · exact iff_of_true rfl ⟨p, rfl⟩
    · exact iff_of_false (by simp) (by simp)

private theorem liveRules_eq_false_iff {o : OverflowChecks} {rules : List Rule} :
    (liveRules (α := α) o rules).2 = false ↔
      o = .checked ∧ ∃ rule ∈ rules, ¬ SeedsBelowMax rule := by
  induction rules with
  | nil => simp [liveRules]
  | cons rule rules ih =>
    rw [liveRules, List.exists_mem_cons_iff, and_or_left, ← LiveRule.new_eq_none_iff (α := α), ← ih]
    cases (LiveRule.new o rule : Option (LiveRule α)) <;> simp

/-- A registration that overflows: the body is accepted, the increments are checked, and an item of
a resource has the largest 64-bit integer for its id. -/
structure Call.Overflows (x : External) (o : OverflowChecks) (c : Call α) : Prop where
  registers : c.registers = true
  accepted : c.rejection = none
  checked : o = .checked
  item : ∃ rules, parseBodyAsRules x c.req.body = .ok (.ok rules) ∧
    ∃ rule ∈ rules, ¬ SeedsBelowMax rule

variable [DecidableEq α]

/-- The step lemma: one call takes the server down if it overflows. -/
private theorem Server.Sound.serve_down_iff {s : Server α} (hs : s.Sound) (x : External)
    (o : OverflowChecks) (c : Call α) :
    (s.serve x o c).1.down = true ↔ s.down = true ∨ c.Overflows x o := by
  have hregistry (keep : Bool) (status : ℕ) (verb : String) :
      (registryCall (α := α) (x.withFiles c.files) o keep status verb s.down c.req.body).1 = true ↔
        s.down = true ∨ o = .checked ∧ ∃ rules, parseBodyAsRules x c.req.body = .ok (.ok rules) ∧
          ∃ rule ∈ rules, ¬ SeedsBelowMax rule := by
    rw [registryCall, parseBodyAsRules_withFiles]
    rcases parseBodyAsRules x c.req.body with p | response | rules
    · simp
    · simp
    · have hlive : (liveRules (α := α) o rules).2 = false ↔ _ := liveRules_eq_false_iff
      cases s.down with
      | true => simp
      | false => simpa using hlive
  by_cases hroute : route c.req.method c.req.path = .request
  · rw [serve_down_of_request x o s hroute]
    refine ⟨Or.inl, fun h => h.resolve_right fun hover => ?_⟩
    have hregisters := hover.registers
    rw [Call.registers, hroute] at hregisters
    cases hregisters
  · have hview := congrArg Prod.fst (hs.serve x o c).view
    rw [Parts.step_of_none (dest_of_registry hroute _ _)] at hview
    change (s.serve x o c).1.down = _ at hview
    rw [hview]
    have hquiet (h : c.registers = false) : s.down = true ↔ s.down = true ∨ c.Overflows x o :=
      ⟨Or.inl, fun hor => hor.resolve_right fun hover => by simpa [h] using hover.registers⟩
    have hrefused {response : Response} (h : c.rejection = some response) :
        s.down = true ↔ s.down = true ∨ c.Overflows x o :=
      ⟨Or.inl, fun hor => hor.resolve_right fun hover => by simpa [h] using hover.accepted⟩
    have hasked (hregisters : c.registers = true) (hrej : c.rejection = none) :
        (o = .checked ∧ ∃ rules, parseBodyAsRules x c.req.body = .ok (.ok rules) ∧
          ∃ rule ∈ rules, ¬ SeedsBelowMax rule) ↔ c.Overflows x o :=
      ⟨fun h => ⟨hregisters, hrej, h.1, h.2⟩, fun h => ⟨h.checked, h.item⟩⟩
    change ((perRule x o).admin s.down _ c).1 = true ↔ _
    simp only [perRule]
    cases hkind : route c.req.method c.req.path with
    | request => exact absurd hkind hroute
    | list | methodNotAllowed => exact hquiet (by rw [Call.registers, hkind])
    | append | replace =>
      cases hrej : c.rejection with
      | some response => exact hrefused hrej
      | none =>
        rw [← hasked (by rw [Call.registers, hkind]) hrej]
        exact hregistry _ _ _

/-- The run lemma. -/
private theorem Server.Sound.down_run_iff {x : External} {o : OverflowChecks} {s t : Server α}
    (hs : s.Sound) {calls : List (Call α)} {outs : List (Option ℕ × Option Response)}
    (hrun : run (Server.next x o) s calls = some (t, outs)) :
    t.down = true ↔ s.down = true ∨ ∃ c ∈ calls, c.Overflows x o := by
  induction calls generalizing s outs with
  | nil =>
    obtain ⟨rfl, _⟩ := Prod.mk.inj (Option.some.inj hrun)
    simp
  | cons c calls ih =>
    obtain ⟨rest, hrest, _⟩ := Server.run_next_cons.mp hrun
    rw [ih (hs.serve x o c).sound hrest, hs.serve_down_iff, List.exists_mem_cons_iff, or_assoc]

/-- The server is down exactly when it has been asked for a registration that overflows, whatever
else it was asked. -/
theorem server_down_iff {x : External} {o : OverflowChecks} {parent : String → Option String}
    {config : Option String} {s t : Server α} (hstart : (Server.start x o parent config).2 = some s)
    {calls : List (Call α)} {outs : List (Option ℕ × Option Response)}
    (hrun : run (Server.next x o) s calls = some (t, outs)) :
    t.down = true ↔ ∃ c ∈ calls, c.Overflows x o := by
  obtain ⟨hs, hup, _⟩ := Server.sound_start hstart
  rw [hs.down_run_iff hrun, hup]
  simp

theorem server_down_iff_largest_id :
    let item : Value := .obj [("id", .ofNat (UInt64.ofNat (2 ^ 64 - 1)))] (by decide)
    let crud : Value := .obj [("data", .array [item])] (by decide)
    let v : Value := .obj [("match", .string "_"), ("reply", .obj [("crud!", crud)] (by decide))]
      (by decide)
    let x : External := { (default : External) with fromStr := fun _ => .ok v }
    ∃ (s : Server Unit) (outs : List (Option ℕ × Option Response)),
      run (Server.next x .checked) .new [plainCall "PUT" "/_mx" (utf8 v.toString)] =
        some (s, outs) ∧ s.down = true := by
  intro item crud v x
  obtain ⟨rule, spec, headers, hparse, hreply, hspec⟩ : ∃ rule spec headers,
      parseRules x v none = .ok [rule] ∧ rule.reply = .crud spec headers ∧
        spec = { id := {}, data := [item] } :=
    ⟨_, _, _, rfl, rfl, rfl⟩
  have hover : Call.Overflows x .checked (plainCall "PUT" "/_mx" (utf8 v.toString)) := by
    refine ⟨rfl, rfl, rfl, [rule], parseBodyAsRules_utf8 rfl hparse, rule,
      List.mem_singleton_self _, fun hseed => ?_⟩
    subst hspec
    exact hseed _ headers hreply item (List.mem_singleton_self _) rfl
  have hstart : (Server.start (α := Unit) x .checked (fun _ => none) none).2 = some .new := rfl
  have hrun := Server.run_next_cons (x := x) (o := .checked) (s := (.new : Server Unit))
    (c := plainCall "PUT" "/_mx" (utf8 v.toString)) |>.mpr ⟨_, run_nil _, rfl⟩
  exact ⟨_, _, hrun, (server_down_iff hstart hrun).mpr ⟨_, List.mem_singleton_self _, hover⟩⟩

end Mockinx
