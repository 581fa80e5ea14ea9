import Mockinx.Lib.Run
import Mockinx.Reply.Crud
import Std.Data.String.ToNat

/-!
Whether a create with automatic integer ids always appends. The counter starts past the largest
initial id that is a number, while keys are texts; a decimal numeral that the counter has still to
reach can stand among the keys only as the text of an initial string id.
-/

set_option autoImplicit false
set_option relaxedAutoImplicit false

namespace Mockinx

open Lib Lib.Run

def CrudOp.isCreate : CrudOp → Bool
  | .create _ _ => true
  | _ => false

theorem CrudOp.exists_of_isCreate {op : CrudOp} (h : op.isCreate = true) :
    ∃ uuid body, op = .create uuid body := by
  cases op with
  | create uuid body => exact ⟨uuid, body, rfl⟩
  | _ => cases h

def CrudSpec.maxId (spec : CrudSpec) : UInt64 :=
  (CrudStore.loadIds spec.id.name spec.data).foldl max 0

namespace CrudStore

def Appends (s : CrudStore) : CrudOp → CrudStore × CrudResponse → Prop
  | .create uuid _, r => s.createdKey uuid ∉ s.state.items.keys ∧
      r.1.list = (200, .array (s.state.items.values ++ [r.2.2]))
  | _, _ => True

def KeysBehind (s : CrudStore) : Prop :=
  ∀ n, s.state.nextId.toNat ≤ n → n + 1 < 2 ^ 64 → toString n ∉ s.state.items.keys

end CrudStore

private theorem isDigit_of_mem_numeral {n : ℕ} {c : Char} (h : c ∈ (toString n).toList) :
    c.isDigit = true := by
  rw [Nat.toString_eq_repr, Nat.toList_repr] at h
  exact Nat.isDigit_of_mem_toDigits (by omega) (by omega) h

private theorem ne_numeral_of_mem {s : String} {c : Char} (hc : c ∈ s.toList)
    (hd : c.isDigit = false) (n : ℕ) : s ≠ toString n := by
  rintro rfl
  simp [isDigit_of_mem_numeral hc] at hd

private theorem numeral_injective {m n : ℕ} (h : toString m = toString n) : m = n :=
  Nat.repr_injective h

private theorem ne_numeral_of_fractional (t : FloatText) (n : ℕ) : t.text ≠ toString n := by
  obtain ⟨c, hc, hpoint⟩ := List.any_eq_true.mp t.fractional
  refine ne_numeral_of_mem hc ?_ n
  rcases (by simpa using hpoint : c = '.' ∨ c = 'e') with rfl | rfl <;> rfl

private theorem Number.toString_eq_numeral {x : Number} {n : ℕ}
    (h : x.toString = ToString.toString n) :
    ∃ m, x = .posInt m ∧ m.toNat = n := by
  cases x with
  | posInt m => exact ⟨m, rfl, numeral_injective h⟩
  | negInt i =>
    refine absurd h (ne_numeral_of_mem (c := '-') ?_ rfl n)
    simp [Number.toString]
  | float t => exact absurd h (ne_numeral_of_fractional t n)

private theorem valueToIdKey_eq_numeral {v : Value} {n : ℕ} (h : valueToIdKey v = toString n) :
    v = .string (toString n) ∨ ∃ m, v = .ofNat m ∧ m.toNat = n := by
  cases v with
  | string s => exact Or.inl (by rw [← h]; rfl)
  | number x =>
    obtain ⟨m, rfl, hm⟩ := Number.toString_eq_numeral h
    exact Or.inr ⟨m, rfl, hm⟩
  | null => exact absurd h (ne_numeral_of_mem (c := 'n') (by decide) rfl n)
  | bool b =>
    cases b with
    | true => exact absurd h (ne_numeral_of_mem (c := 't') (by decide) rfl n)
    | false => exact absurd h (ne_numeral_of_mem (c := 'f') (by decide) rfl n)
  | array xs =>
    refine absurd h (ne_numeral_of_mem (c := '[') ?_ rfl n)
    simp [valueToIdKey, Value.toString]
  | object m =>
    refine absurd h (ne_numeral_of_mem (c := '\x7b') ?_ rfl n)
    simp [valueToIdKey, Value.toString]

namespace CrudStore

private theorem toNat_max (a b : UInt64) : (max a b).toNat = max a.toNat b.toNat := by
  simp only [max, UInt64.le_iff_toNat_le]
  split_ifs <;> omega

theorem toNat_le_foldl_max {l : List UInt64} {m n : UInt64} (h : n = m ∨ n ∈ l) :
    n.toNat ≤ (l.foldl max m).toNat := by
  induction l generalizing m n with
  | nil => simpa using h.imp (fun hm => hm ▸ le_rfl) id
  | cons a l ih =>
    rw [List.foldl_cons]
    have hstep : m.toNat ≤ (max m a).toNat ∧ a.toNat ≤ (max m a).toNat := by
      rw [toNat_max]
      omega
    rcases h with rfl | h
    · exact hstep.1.trans (ih (Or.inl rfl))
    · rcases List.mem_cons.mp h with rfl | hl
      · exact hstep.2.trans (ih (Or.inl rfl))
      · exact ih (Or.inr hl)

private theorem mem_keys_new {o : OverflowChecks} {spec : CrudSpec} {s : CrudStore}
    (h : CrudStore.new o spec = .ok s) {key : String} :
    key ∈ s.state.items.keys ↔
      ∃ item ∈ spec.data, ∃ v, item.get? spec.id.name = some v ∧ valueToIdKey v = key := by
  rw [(new_eq_ok h).1, load_eq, IndexMap.keys_fromPairs, List.mem_eraseDups]
  simp only [loadPairs, List.mem_map, List.mem_filterMap, Option.map_eq_some_iff]
  constructor
  · rintro ⟨_, ⟨item, hitem, v, hv, rfl⟩, rfl⟩
    exact ⟨item, hitem, v, hv, rfl⟩
  · rintro ⟨item, hitem, v, hv, rfl⟩
    exact ⟨(valueToIdKey v, item), ⟨item, hitem, v, hv, rfl⟩, rfl⟩

theorem exists_new (o : OverflowChecks) {spec : CrudSpec} (hb : spec.maxId.toNat + 1 < 2 ^ 64) :
    ∃ s, CrudStore.new o spec = .ok s := by
  have hn : o.succ (load spec.id.name spec.data).2 = .ok (spec.maxId + 1) := by
    rw [load_eq]
    exact OverflowChecks.succ_of_lt o hb
  simp [CrudStore.new, hn, Except.map]

theorem toNat_nextId_new {o : OverflowChecks} {spec : CrudSpec} {s : CrudStore}
    (h : CrudStore.new o spec = .ok s) (hb : spec.maxId.toNat + 1 < 2 ^ 64) :
    s.state.nextId.toNat = spec.maxId.toNat + 1 := by
  have hn := (new_eq_ok h).2.2.2
  rw [load_eq] at hn
  change o.succ spec.maxId = _ at hn
  rw [OverflowChecks.succ_of_lt o hb, Except.ok.injEq] at hn
  rw [← hn, OverflowChecks.toNat_add_one hb]

private theorem keysBehind_new_iff {o : OverflowChecks} {spec : CrudSpec} {s : CrudStore}
    (h : CrudStore.new o spec = .ok s) (hb : spec.maxId.toNat + 1 < 2 ^ 64) :
    s.KeysBehind ↔ ∀ item ∈ spec.data, ∀ n : ℕ, spec.maxId.toNat < n → n + 1 < 2 ^ 64 →
      item.get? spec.id.name ≠ some (.string (toString n)) := by
  rw [KeysBehind]
  rw [toNat_nextId_new h hb]
  constructor
  · intro hs item hitem n hlt hn hv
    exact hs n hlt hn ((mem_keys_new h).mpr ⟨item, hitem, _, hv, rfl⟩)
  · intro hs n hlt hn hk
    obtain ⟨item, hitem, v, hv, hkey⟩ := (mem_keys_new h).mp hk
    rcases valueToIdKey_eq_numeral hkey with rfl | ⟨m, rfl, rfl⟩
    · exact hs item hitem n hlt hn hv
    · have hm : m ∈ loadIds spec.id.name spec.data :=
        List.mem_filterMap.mpr ⟨item, hitem, by simp [hv, Value.ofNat, Value.asU64, Number.asU64]⟩
      have := toNat_le_foldl_max (m := 0) (Or.inr hm)
      rw [CrudSpec.maxId] at hlt
      omega

theorem step_create_inc {o : OverflowChecks} {s : CrudStore} (hinc : s.idStrategy ≠ "uuid")
    (hb : s.state.nextId.toNat + 1 < 2 ^ 64) (uuid : String) (body : Value) :
    s.step o (.create uuid body) = some
      ({ s with
          state := {
            items := s.state.items.insert (toString s.state.nextId.toNat)
              (s.createdItem uuid body)
            nextId := s.state.nextId + 1 } },
        (201, s.createdItem uuid body)) := by
  have hn : s.nextIdAfter o = .ok (s.state.nextId + 1) := by
    rw [nextIdAfter, if_neg hinc, OverflowChecks.succ_of_lt o hb]
  simp [step, CrudStore.apply, create_eq, hn, createdKey, hinc, Except.map, Except.toOption]

theorem step_of_not_create {o : OverflowChecks} {s : CrudStore} {op : CrudOp}
    {r : CrudStore × CrudResponse} (h : s.step o op = some r) (hop : op.isCreate = false) :
    r.1.state.nextId = s.state.nextId ∧ r.1.idStrategy = s.idStrategy ∧
      ∀ key ∈ r.1.state.items.keys, key ∈ s.state.items.keys := by
  cases op with
  | create uuid body => simp [CrudOp.isCreate] at hop
  | list | get key | methodNotAllowed =>
    simp only [step, CrudStore.apply, Except.toOption, Option.some.injEq] at h
    simp [← h]
  | replace id body =>
    simp only [step, CrudStore.apply, replace, Except.toOption, Option.some.injEq] at h
    split_ifs at h with hk
    · subst h
      have hk : id ∈ s.state.items.keys := by simpa [IndexMap.containsKey] using hk
      simp [setItems, IndexMap.keys_insert_of_mem _ hk]
    · simp [← h]
  | patch id body =>
    simp only [step, CrudStore.apply, patch, Except.toOption, Option.some.injEq] at h
    cases hget : s.state.items.get? id with
    | none => simp [← h, hget]
    | some existing =>
      rw [hget] at h
      subst h
      simp [setItems, IndexMap.keys_insert_of_mem _ (IndexMap.mem_keys_of_get? hget)]
  | delete id =>
    simp only [step, CrudStore.apply, delete, Except.toOption, Option.some.injEq] at h
    cases hget : s.state.items.get? id with
    | none => simp [← h, hget]
    | some item =>
      rw [hget] at h
      subst h
      refine ⟨rfl, rfl, fun key hkey => ?_⟩
      exact (IndexMap.mem_keys_shiftRemove.mp hkey).1

private theorem appends_step {o : OverflowChecks} {s : CrudStore} {op : CrudOp}
    {r : CrudStore × CrudResponse} (hinc : s.idStrategy ≠ "uuid") (hs : s.KeysBehind)
    (hb : s.state.nextId.toNat + [op].countP CrudOp.isCreate < 2 ^ 64)
    (h : s.step o op = some r) :
    s.Appends op r ∧ r.1.KeysBehind ∧ r.1.idStrategy = s.idStrategy ∧
      r.1.state.nextId.toNat = s.state.nextId.toNat + [op].countP CrudOp.isCreate := by
  by_cases hop : op.isCreate
  · obtain ⟨uuid, body, rfl⟩ := CrudOp.exists_of_isCreate hop
    simp only [List.countP_singleton, CrudOp.isCreate, ↓reduceIte] at hb ⊢
    rw [step_create_inc hinc hb, Option.some.injEq] at h
    subst h
    have hfresh := hs s.state.nextId.toNat le_rfl hb
    have hnext := OverflowChecks.toNat_add_one hb
    refine ⟨⟨?_, ?_⟩, ?_, rfl, hnext⟩
    · rwa [createdKey, if_neg hinc]
    · rw [list, IndexMap.values_insert_of_not_mem _ hfresh]
    · intro n hle hn hk
      rcases IndexMap.mem_keys_insert.mp hk with hold | hnew
      · exact hs n (by rw [hnext] at hle; omega) hn hold
      · have := numeral_injective hnew
        rw [hnext] at hle
        omega
  · obtain ⟨hn, hi, hk⟩ := step_of_not_create h (by simpa using hop)
    refine ⟨?_, ?_, hi, by simp [hn, hop]⟩
    · cases op with
      | create uuid body => simp [CrudOp.isCreate] at hop
      | _ => trivial
    · intro n hle hlt hmem
      exact hs n (hn ▸ hle) hlt (hk _ hmem)

private theorem appends_run {o : OverflowChecks} {s : CrudStore} {ops : List CrudOp}
    (hinc : s.idStrategy ≠ "uuid") (hs : s.KeysBehind)
    (hb : s.state.nextId.toNat + ops.countP CrudOp.isCreate < 2 ^ 64) :
    Along (CrudStore.step o) Appends s ops := by
  induction ops generalizing s with
  | nil => trivial
  | cons op ops ih =>
    intro r hr
    have hsplit : (op :: ops).countP CrudOp.isCreate =
        [op].countP CrudOp.isCreate + ops.countP CrudOp.isCreate := by
      rw [← List.countP_append, List.singleton_append]
    obtain ⟨happ, hk, hi, hn⟩ := appends_step hinc hs (by omega) hr
    exact ⟨happ, ih (hi ▸ hinc) hk (by omega)⟩

private theorem run_creates {o : OverflowChecks} {s : CrudStore} (hinc : s.idStrategy ≠ "uuid")
    (k : ℕ) (hb : s.state.nextId.toNat + k < 2 ^ 64) :
    ∃ s' bs, run (CrudStore.step o) s (List.replicate k (.create "" .null)) = some (s', bs) ∧
      s'.state.nextId.toNat = s.state.nextId.toNat + k ∧ s'.idStrategy = s.idStrategy ∧
      ∀ key ∈ s.state.items.keys, key ∈ s'.state.items.keys := by
  induction k generalizing s with
  | zero => exact ⟨s, [], rfl, rfl, rfl, fun _ h => h⟩
  | succ k ih =>
    have hlt : s.state.nextId.toNat + 1 < 2 ^ 64 := by omega
    obtain ⟨m, resp, hstep, hi, hn, hk⟩ : ∃ m resp,
        s.step o (.create "" .null) = some (m, resp) ∧ m.idStrategy = s.idStrategy ∧
          m.state.nextId.toNat = s.state.nextId.toNat + 1 ∧
          ∀ key ∈ s.state.items.keys, key ∈ m.state.items.keys :=
      ⟨_, _, step_create_inc hinc hlt "" .null, rfl, OverflowChecks.toNat_add_one hlt,
        fun key hkey => IndexMap.mem_keys_insert.mpr (Or.inl hkey)⟩
    obtain ⟨s', bs, hrun, hn', hi', hk'⟩ := ih (hi ▸ hinc) (by omega)
    exact ⟨s', resp :: bs, run_cons_eq_some.mpr ⟨m, resp, bs, hstep, hrun, rfl⟩, by omega,
      hi'.trans hi, fun key hkey => hk' key (hk key hkey)⟩

end CrudStore

/-- In every run from a new store whose counter has room for its creates, each create uses a new
key and the items listed afterwards are those before, in the same order, and the new one. -/
def CreatesAppend (o : OverflowChecks) (spec : CrudSpec) : Prop :=
  ∀ s ops, CrudStore.new o spec = .ok s →
    spec.maxId.toNat + ops.countP CrudOp.isCreate + 1 < 2 ^ 64 →
    Along (CrudStore.step o) CrudStore.Appends s ops

/-- No initial id is the text of an integer that the counter can reach. -/
def NoNumeralAhead (spec : CrudSpec) : Prop :=
  ∀ item ∈ spec.data, ∀ n : ℕ, spec.maxId.toNat < n → n + 1 < 2 ^ 64 →
    item.get? spec.id.name ≠ some (.string (toString n))

/-- Creates with automatic integer ids always append exactly when no initial string id is a
numeral ahead of the counter. -/
theorem creates_append_iff (o : OverflowChecks) (spec : CrudSpec) (hinc : spec.id.new ≠ "uuid") :
    CreatesAppend o spec ↔ NoNumeralAhead spec := by
  constructor
  · intro h item hitem n hlt hn hv
    have hb : spec.maxId.toNat + 1 < 2 ^ 64 := by omega
    obtain ⟨s, hs⟩ := CrudStore.exists_new o hb
    have hs0 := CrudStore.toNat_nextId_new hs hb
    have hinc' : s.idStrategy ≠ "uuid" := (CrudStore.new_eq_ok hs).2.2.1 ▸ hinc
    have hkey : toString n ∈ s.state.items.keys :=
      (CrudStore.mem_keys_new hs).mpr ⟨item, hitem, _, hv, rfl⟩
    -- create until the counter stands at the numeral of the string id
    obtain ⟨m, bs, hrun, hm, hi, hk⟩ :=
      CrudStore.run_creates (o := o) hinc' (n - spec.maxId.toNat - 1) (by omega)
    have hmn : m.state.nextId.toNat = n := by omega
    have hstep := CrudStore.step_create_inc (o := o) (hi ▸ hinc') (by omega) "" .null
    have hall := h s (List.replicate (n - spec.maxId.toNat - 1) (.create "" .null) ++
      [.create "" .null]) hs (by
        simp [List.countP_replicate, CrudOp.isCreate]
        omega)
    have hlast := along_iff.mp hall _ _ [] m bs _ rfl hrun hstep
    refine hlast.1 ?_
    rw [CrudStore.createdKey, if_neg (hi ▸ hinc'), hmn]
    exact hk _ hkey
  · intro h s ops hs hb
    have hlt : spec.maxId.toNat + 1 < 2 ^ 64 := by omega
    have hs0 := CrudStore.toNat_nextId_new hs hlt
    refine CrudStore.appends_run ((CrudStore.new_eq_ok hs).2.2.1 ▸ hinc) ?_ (by omega)
    exact (CrudStore.keysBehind_new_iff hs hlt).mpr h

theorem creates_append_of_numbers :
    CreatesAppend .checked { data := [.obj [("id", .ofNat 7)] (by decide)] } := by
  refine (creates_append_iff .checked _ (by decide)).mpr ?_
  intro item hitem n _ _ hv
  obtain rfl := List.mem_singleton.mp hitem
  have hid : (Value.obj [("id", .ofNat 7)] (by decide)).get? "id" = some (.ofNat 7) := by decide
  cases hid.symm.trans hv

/-- An initial item with the id `"1"` is overwritten by the first create. -/
theorem create_overwrites_string_id :
    ¬ CreatesAppend .checked { data := [.obj [("id", .string "1")] (by decide)] } := by
  intro h
  have hrun := h _ [.create "" .null] rfl (by decide)
  exact (hrun _ rfl).1.1 (by decide)

end Mockinx
