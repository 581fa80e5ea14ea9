import Mockinx.Lib.Run
import Mockinx.Reply.Crud

/-!
Writes that do not meet. A replace, a patch and a delete each amend the entry of one id and answer
from that entry alone, so two of them on different ids give one store and the same answers in
either order; two object patches of one item that name different fields are both kept.
-/

set_option autoImplicit false
set_option relaxedAutoImplicit false

namespace Mockinx

open Lib Lib.Run

namespace CrudOp

/-- The id whose entry a replace, a patch or a delete amends. -/
def updatedId : CrudOp → Option String
  | .replace id _ | .patch id _ | .delete id => some id
  | _ => none

def itemAfter (idField : String) (op : CrudOp) (existing : Value) : Option Value :=
  match op with
  | .replace id body => some (.object ((asItem body).insert idField (idKeyToValue id)))
  | .patch _ body => some (mergeValues existing body)
  | _ => none

def answerAfter : Option Value → CrudResponse
  | some item => (200, item)
  | none => (204, .null)

def answer (idField : String) (op : CrudOp) (entry : Option Value) : CrudResponse :=
  (entry.map fun existing => answerAfter (op.itemAfter idField existing)).getD notFound

end CrudOp

namespace CrudStore

def amend (s : CrudStore) (op : CrudOp) (id : String) : CrudStore :=
  match s.state.items.get? id with
  | some existing => s.setItems (s.state.items.amend id (op.itemAfter s.idField existing))
  | none => s

@[simp] theorem idField_amend (s : CrudStore) (op : CrudOp) (id : String) :
    (s.amend op id).idField = s.idField := by
  rw [amend]
  cases s.state.items.get? id <;> rfl

theorem step_update (o : OverflowChecks) (s : CrudStore) {op : CrudOp} {id : String}
    (h : op.updatedId = some id) :
    s.step o op = some (s.amend op id, op.answer s.idField (s.state.items.get? id)) := by
  cases op with
  | list | get key | create uuid body | methodNotAllowed => simp [CrudOp.updatedId] at h
  | replace key body =>
    obtain rfl : key = id := by simpa [CrudOp.updatedId] using h
    simp only [step, apply, replace, amend, CrudOp.answer]
    cases hget : s.state.items.get? key with
    | none =>
      have hk := IndexMap.get?_eq_none.mp hget
      simp [IndexMap.containsKey, hk, Except.toOption]
    | some existing =>
      have hk := IndexMap.mem_keys_of_get? hget
      simp [IndexMap.containsKey, hk, Except.toOption, CrudOp.itemAfter, IndexMap.amend,
        CrudOp.answerAfter]
  | patch key body =>
    obtain rfl : key = id := by simpa [CrudOp.updatedId] using h
    simp only [step, apply, patch, amend, CrudOp.answer]
    cases hget : s.state.items.get? key with
    | none => rfl
    | some existing =>
      have hk := IndexMap.mem_keys_of_get? hget
      simp [Except.toOption, CrudOp.itemAfter, IndexMap.amend, hk, CrudOp.answerAfter]
  | delete key =>
    obtain rfl : key = id := by simpa [CrudOp.updatedId] using h
    simp only [step, apply, delete, amend, CrudOp.answer]
    cases s.state.items.get? key <;> rfl

theorem get?_amend_of_ne (s : CrudStore) (op : CrudOp) {id key : String} (h : key ≠ id) :
    (s.amend op id).state.items.get? key = s.state.items.get? key := by
  rw [amend]
  cases s.state.items.get? id with
  | none => rfl
  | some existing => exact IndexMap.get?_amend_of_ne _ h _

private theorem amend_comm (s : CrudStore) (a b : CrudOp) {i j : String} (h : i ≠ j) :
    (s.amend a i).amend b j = (s.amend b j).amend a i := by
  have hj : (s.amend a i).state.items.get? j = s.state.items.get? j := s.get?_amend_of_ne a h.symm
  have hi : (s.amend b j).state.items.get? i = s.state.items.get? i := s.get?_amend_of_ne b h
  rw [amend, hj, idField_amend, amend.eq_1 (s.amend b j), hi, idField_amend]
  cases hgi : s.state.items.get? i with
  | none =>
    have ha : s.amend a i = s := by simp [amend, hgi]
    rw [ha, amend]
  | some x =>
    have ha : s.amend a i = s.setItems (s.state.items.amend i (a.itemAfter s.idField x)) := by
      simp [amend, hgi]
    cases hgj : s.state.items.get? j with
    | none =>
      have hb : s.amend b j = s := by simp [amend, hgj]
      rw [ha, hb]
    | some y =>
      have hb : s.amend b j = s.setItems (s.state.items.amend j (b.itemAfter s.idField y)) := by
        simp [amend, hgj]
      rw [ha, hb]
      exact congrArg s.setItems (IndexMap.amend_comm s.state.items h _ _)

private theorem step_patch (o : OverflowChecks) {s : CrudStore} {id : String} {existing : Value}
    (body : Value) (h : s.state.items.get? id = some existing) :
    s.step o (.patch id body) =
      some (s.setItems (s.state.items.insert id (mergeValues existing body)),
        (200, mergeValues existing body)) := by
  simp [step, apply, patch, h, Except.toOption]

private theorem run_two_patches (o : OverflowChecks) {s : CrudStore} {id : String} {m : Map}
    (p q : Map) (h : s.state.items.get? id = some (.object m)) :
    ∃ s', run (CrudStore.step o) s [.patch id (.object p), .patch id (.object q)] =
        some (s', [(200, .object (m.extend p)), (200, .object ((m.extend p).extend q))]) ∧
      s'.state.items.get? id = some (.object ((m.extend p).extend q)) ∧
      ∀ key, key ≠ id → s'.state.items.get? key = s.state.items.get? key := by
  let mid := s.setItems (s.state.items.insert id (.object (m.extend p)))
  have hmid : mid.state.items.get? id = some (.object (m.extend p)) :=
    IndexMap.get?_insert_self _ _ _
  refine ⟨mid.setItems (mid.state.items.insert id (.object ((m.extend p).extend q))), ?_,
    IndexMap.get?_insert_self _ _ _, ?_⟩
  · simp only [run, step_patch o (.object p) h, mergeValues]
    rw [show s.setItems (s.state.items.insert id (.object (m.extend p))) = mid from rfl,
      step_patch o (.object q) hmid]
    rfl
  · intro key hkey
    have hlast : (mid.setItems (mid.state.items.insert id
        (.object ((m.extend p).extend q)))).state.items.get? key = mid.state.items.get? key := by
      simp [setItems, IndexMap.get?_insert, hkey]
    rw [hlast]
    simp [mid, setItems, IndexMap.get?_insert, hkey]

end CrudStore

private theorem get?_extend_extend_comm {m p q : Map} (h : ∀ k ∈ p.keys, k ∉ q.keys) (k : String) :
    ((m.extend p).extend q).get? k = ((m.extend q).extend p).get? k := by
  simp only [IndexMap.get?_extend]
  by_cases hp : k ∈ p.keys
  · have hq : q.get? k = none := IndexMap.get?_eq_none.mpr (h k hp)
    rw [hq, Option.none_or, Option.none_or]
  · have hp : p.get? k = none := IndexMap.get?_eq_none.mpr hp
    rw [hp, Option.none_or, Option.none_or]

/-- Two writes on different ids give the same store and the same answers in either order; two
object patches of one object that name different fields give the same item, with the fields of
both, in either order. -/
theorem independent_writes_commute (o : OverflowChecks) (s : CrudStore) :
    (∀ (a b : CrudOp) (i j : String), a.updatedId = some i → b.updatedId = some j → i ≠ j →
      ∃ s' ra rb, run (CrudStore.step o) s [a, b] = some (s', [ra, rb]) ∧
        run (CrudStore.step o) s [b, a] = some (s', [rb, ra])) ∧
    ∀ (id : String) (m p q : Map), s.state.items.get? id = some (.object m) →
      (∀ k ∈ p.keys, k ∉ q.keys) →
      ∃ spq sqp mpq mqp rp rq,
        run (CrudStore.step o) s [.patch id (.object p), .patch id (.object q)] =
            some (spq, [rp, (200, .object mpq)]) ∧
          run (CrudStore.step o) s [.patch id (.object q), .patch id (.object p)] =
            some (sqp, [rq, (200, .object mqp)]) ∧
          spq.state.items.get? id = some (.object mpq) ∧
          sqp.state.items.get? id = some (.object mqp) ∧
          (∀ k, mpq.get? k = mqp.get? k) ∧
          (∀ k, mpq.get? k = ((p.get? k).or (q.get? k)).or (m.get? k)) ∧
          ∀ key, key ≠ id → spq.state.items.get? key = sqp.state.items.get? key := by
  constructor
  · intro a b i j ha hb hne
    refine ⟨(s.amend a i).amend b j, a.answer s.idField (s.state.items.get? i),
      b.answer s.idField (s.state.items.get? j), ?_, ?_⟩
    · simp only [run, CrudStore.step_update o _ ha, CrudStore.step_update o _ hb,
        CrudStore.idField_amend, s.get?_amend_of_ne a hne.symm, Option.map_some]
    · simp only [run, CrudStore.step_update o _ ha, CrudStore.step_update o _ hb,
        CrudStore.idField_amend, s.get?_amend_of_ne b hne, Option.map_some,
        s.amend_comm a b hne]
  · intro id m p q hget hdisjoint
    obtain ⟨spq, hpq, hgpq, hframe⟩ := CrudStore.run_two_patches o p q hget
    obtain ⟨sqp, hqp, hgqp, hframe'⟩ := CrudStore.run_two_patches o q p hget
    refine ⟨spq, sqp, (m.extend p).extend q, (m.extend q).extend p, (200, .object (m.extend p)),
      (200, .object (m.extend q)), hpq, hqp, hgpq, hgqp, get?_extend_extend_comm hdisjoint, ?_, ?_⟩
    · intro k
      rw [get?_extend_extend_comm hdisjoint]
      simp only [IndexMap.get?_extend, Option.or_assoc]
    · intro key hkey
      rw [hframe key hkey, hframe' key hkey]

theorem independent_writes_commute_run :
    ∃ s, CrudStore.new .checked { data := [.obj [("id", .ofNat 4)] (by decide),
        .obj [("id", .ofNat 6), ("a", .null)] (by decide)] } = .ok s ∧
      (∃ s' ra rb,
        run (CrudStore.step .checked) s [.delete "4", .patch "6" .null] = some (s', [ra, rb]) ∧
          run (CrudStore.step .checked) s [.patch "6" .null, .delete "4"] =
            some (s', [rb, ra])) ∧
      ∃ spq sqp mpq mqp rp rq,
        run (CrudStore.step .checked) s
            [.patch "6" (.obj [("a", .ofNat 1)] (by decide)),
              .patch "6" (.obj [("b", .ofNat 2)] (by decide))] =
            some (spq, [rp, (200, .object mpq)]) ∧
          run (CrudStore.step .checked) s
            [.patch "6" (.obj [("b", .ofNat 2)] (by decide)),
              .patch "6" (.obj [("a", .ofNat 1)] (by decide))] =
            some (sqp, [rq, (200, .object mqp)]) ∧
          ∀ k, mpq.get? k = mqp.get? k := by
  let toys : IndexMap String Value := IndexMap.ofEntries
    [("4", .obj [("id", .ofNat 4)] (by decide)),
      ("6", .obj [("id", .ofNat 6), ("a", .null)] (by decide))] (by decide)
  let s : CrudStore :=
    { state := { items := toys, nextId := 7 }, idField := "id", idStrategy := "inc" }
  refine ⟨s, rfl, ?_, ?_⟩
  · exact (independent_writes_commute .checked s).1 (.delete "4") (.patch "6" .null) "4" "6" rfl
      rfl (by decide)
  · obtain ⟨spq, sqp, mpq, mqp, rp, rq, hpq, hqp, _, _, hsame, _⟩ :=
      (independent_writes_commute .checked s).2 "6"
        (IndexMap.ofEntries [("id", .ofNat 6), ("a", .null)] (by decide))
        (IndexMap.ofEntries [("a", .ofNat 1)] (by decide))
        (IndexMap.ofEntries [("b", .ofNat 2)] (by decide)) rfl (by decide)
    exact ⟨spq, sqp, mpq, mqp, rp, rq, hpq, hqp, hsame⟩

end Mockinx
