import Mathlib
import ScopeScript.Proofs.Store.SelfBound
import ScopeScript.Proofs.Value.Canonical
import ScopeScript.Proofs.Value.Data
import ScopeScript.Run.Action

/-!
# Equality of values as a relation

Equality is symmetric and transitive, and only what is no number keeps a value from being equal to
itself (`Value.equal_self_iff`).  Equal objects have the same keys and equal values there, and
functions and natives are equal to what has their identity, whatever else there is to them.
-/

namespace ScopeScript

/-! ## Symmetry and transitivity -/

mutual

theorem Value.equal_comm : (v w : Value) → v.equal w = w.equal v
  | .null, w => by cases w <;> rfl
  | .number x, w => by
    cases w with
    | number y => exact BEq.comm
    | _ => rfl
  | .bool a, w => by
    cases w with
    | bool b => exact BEq.comm
    | _ => rfl
  | .object fs, w => by
    cases w with
    | object gs => exact fieldsEqual_comm fs gs
    | _ => rfl
  | .function c, w => by
    cases w with
    | function d => exact BEq.comm
    | _ => rfl
  | .native m, w => by
    cases w with
    | native n => exact BEq.comm
    | _ => rfl

theorem fieldsEqual_comm : (fs gs : Fields) → fieldsEqual fs gs = fieldsEqual gs fs
  | [], gs => by cases gs <;> rfl
  | (k, v) :: fs, [] => rfl
  | (k, v) :: fs, (l, w) :: gs => by
    rw [fieldsEqual, fieldsEqual, BEq.comm, Value.equal_comm v w, fieldsEqual_comm fs gs]

end

mutual

theorem Value.equal_trans : (u v w : Value) → u.equal v = true → v.equal w = true →
    u.equal w = true
  | .null, v, w, huv, hvw => by
    cases v with
    | null => exact hvw
    | _ => cases huv
  | .number x, v, w, huv, hvw => by
    cases v with
    | number y =>
      cases w with
      | number z => exact PartialEquivBEq.trans huv hvw
      | _ => cases hvw
    | _ => cases huv
  | .bool a, v, w, huv, hvw => by
    cases v with
    | bool b => exact eq_of_beq huv ▸ hvw
    | _ => cases huv
  | .object fs, v, w, huv, hvw => by
    cases v with
    | object gs =>
      cases w with
      | object hs => exact fieldsEqual_trans fs gs hs huv hvw
      | _ => cases hvw
    | _ => cases huv
  | .function c, v, w, huv, hvw => by
    cases v with
    | function d =>
      cases w with
      | function e => exact beq_iff_eq.2 ((eq_of_beq huv).trans (eq_of_beq hvw))
      | _ => cases hvw
    | _ => cases huv
  | .native l, v, w, huv, hvw => by
    cases v with
    | native m =>
      cases w with
      | native n => exact beq_iff_eq.2 ((eq_of_beq huv).trans (eq_of_beq hvw))
      | _ => cases hvw
    | _ => cases huv

theorem fieldsEqual_trans : (fs gs hs : Fields) → fieldsEqual fs gs = true →
    fieldsEqual gs hs = true → fieldsEqual fs hs = true
  | [], [], _, _, h => h
  | (k, u) :: fs, (l, v) :: gs, (m, w) :: hs, h, h' => by
    simp only [fieldsEqual, Bool.and_eq_true, beq_iff_eq] at h h' ⊢
    obtain ⟨⟨hkl, huv⟩, hfg⟩ := h
    obtain ⟨⟨hlm, hvw⟩, hgh⟩ := h'
    exact ⟨⟨hkl.trans hlm, Value.equal_trans u v w huv hvw⟩, fieldsEqual_trans fs gs hs hfg hgh⟩

end

/-! ## Values that are equal to themselves -/

mutual

/-- A value is equal to itself just if all numbers in it are numbers. -/
theorem Value.equal_self_iff : (v : Value) →
    (v.equal v = true ↔ ∀ x ∈ v.numbers, x.isNaN = false)
  | .null | .bool _ | .function _ | .native _ => by simp [Value.equal, Value.numbers]
  | .number x => by simp [Value.equal, Value.numbers]
  | .object fields => fieldsEqual_self_iff fields

theorem fieldsEqual_self_iff : (fields : Fields) →
    (fieldsEqual fields fields = true ↔ ∀ x ∈ Fields.numbers fields, x.isNaN = false)
  | [] => by simp [fieldsEqual, Fields.numbers]
  | (key, v) :: rest => by
    simp only [fieldsEqual, Fields.numbers, beq_self_eq_true, Bool.true_and, Bool.and_eq_true,
      List.forall_mem_append, Value.equal_self_iff v, fieldsEqual_self_iff rest]

end

/-! ## Parts of equal values -/

theorem Value.kind_of_equal {v w : Value} (h : v.equal w = true) : v.kind = w.kind := by
  cases v <;> cases w <;> first | rfl | cases h

theorem fieldsEqual_iff_forall₂ {fs gs : Fields} :
    fieldsEqual fs gs = true ↔
      List.Forall₂ (fun f g => f.1 = g.1 ∧ f.2.equal g.2 = true) fs gs := by
  induction fs generalizing gs with
  | nil => cases gs <;> simp [fieldsEqual]
  | cons f fs ih =>
    cases gs with
    | nil => simp [fieldsEqual]
    | cons g gs => simp [fieldsEqual, ih]

/-- Equal objects have the same keys and equal values there. -/
theorem Fields.keys_and_values_of_equal {fs gs : Fields}
    (h : (Value.object fs).equal (.object gs) = true) :
    fs.map Prod.fst = gs.map Prod.fst ∧
      ∀ key, Option.Rel (fun a b => a.equal b = true) (fs.get? key) (gs.get? key) := by
  have hentries := fieldsEqual_iff_forall₂.1 h
  refine ⟨?_, Fields.rel_get?_of_forall₂ hentries⟩
  rw [← List.forall₂_eq_eq_eq, List.forall₂_map_left_iff, List.forall₂_map_right_iff]
  exact hentries.imp fun _ _ hfg => hfg.1

theorem Fields.Sorted.equal {fs gs : Fields} (hfs : fs.Sorted) (hgs : gs.Sorted)
    (h : ∀ key, Option.Rel (fun a b => a.equal b = true) (fs.get? key) (gs.get? key)) :
    (Value.object fs).equal (.object gs) = true :=
  fieldsEqual_iff_forall₂.2 (hfs.forall₂ hgs h)

theorem Value.equal_function_iff {c : Closure} {v : Value} :
    (Value.function c).equal v = true ↔ ∃ d, v = .function d ∧ d.identity = c.identity := by
  cases v with
  | function d => simp [equal, @eq_comm _ d.identity]
  | null | number | bool | object | native => simp [equal]

theorem Value.equal_native_iff {n : Native} {v : Value} :
    (Value.native n).equal v = true ↔ ∃ m, v = .native m ∧ m.identity = n.identity := by
  cases v with
  | native m => simp [equal, @eq_comm _ m.identity]
  | null | number | bool | object | function => simp [equal]

/-- Functions that are bound to their names are equal only if they are one function. -/
theorem Store.SelfNamed.equal_iff_eq {s : Store} {c d : Closure} (hs : s.SelfNamed)
    (hc : s.SelfBound c) (hd : s.SelfBound d) :
    (Value.function c).equal (.function d) = true ↔ c = d := by
  rw [Value.equal, beq_iff_eq]
  exact ⟨hs.unique c d hc hd, fun h => h ▸ rfl⟩

/-- A native that is made is none that there was. -/
theorem Host.equal_add (host : Host) (name : String) (act : List Value → Action) {n : Native}
    (hn : n.identity < host.actions.size) :
    (Value.native (host.add name act).1).equal (.native n) = false := by
  rw [Value.equal, beq_eq_false_iff_ne]
  exact Nat.ne_of_gt hn

/-! ## The relation -/

namespace Value

/-- Equality is symmetric and transitive, and a value is equal to itself just if no number in it, at
any depth, is NaN.  Equal values are of one kind.  Objects are equal just if they have the same keys
and equal values there.  A function is equal to the functions with its identity, and a native to the
natives with its identity, whatever names, parameters or bodies they have.  Functions that programs
make are one function if they are equal, and a native that a host is given is equal to none that it
had. -/
theorem equal_isPartialEquivalence (u v w : Value) :
    v.equal w = w.equal v ∧
      (u.equal v = true → v.equal w = true → u.equal w = true) ∧
      (v.equal v = true ↔ ∀ x ∈ v.numbers, x.isNaN = false) ∧
      (v.equal w = true → v.kind.label = w.kind.label) ∧
      (∀ fs gs : Fields, (object fs).equal (.object gs) = true →
        fs.map Prod.fst = gs.map Prod.fst ∧
          ∀ key, Option.Rel (fun a b => a.equal b = true) (fs.get? key) (gs.get? key)) ∧
      (∀ fs gs : Fields, fs.Sorted → gs.Sorted →
        (∀ key, Option.Rel (fun a b => a.equal b = true) (fs.get? key) (gs.get? key)) →
          (object fs).equal (.object gs) = true) ∧
      (∀ c, (function c).equal v = true ↔ ∃ d, v = .function d ∧ d.identity = c.identity) ∧
      (∀ n, (native n).equal v = true ↔ ∃ m, v = .native m ∧ m.identity = n.identity) ∧
      (∀ s : Store, s.SelfNamed → ∀ c d, s.SelfBound c → s.SelfBound d →
        ((function c).equal (.function d) = true ↔ c = d)) ∧
      ∀ (host : Host) name act (n : Native), n.identity < host.actions.size →
        (native (host.add name act).1).equal (.native n) = false :=
  ⟨equal_comm v w, equal_trans u v w, equal_self_iff v,
    fun h => congrArg Kind.label (kind_of_equal h), fun _ _ => Fields.keys_and_values_of_equal,
    fun _ _ hfs hgs => hfs.equal hgs,
    fun _ => equal_function_iff, fun _ => equal_native_iff, fun _ hs _ _ => hs.equal_iff_eq,
    fun host name act _ => host.equal_add name act⟩

/-- The two zeros in objects next to a function, and NaN in an object of an object. -/
theorem equal_isPartialEquivalence_zeros :
    let c : Closure := ⟨0, "f", [], [], 1⟩
    let d : Closure := { c with name := "g", params := ["a"] }
    let u : Value := .object [("a", .number 0), ("f", .function c)]
    let v : Value := .object [("a", .number (-0)), ("f", .function c)]
    let w : Value := .object [("a", .number 0), ("f", .function d)]
    let o : Value := .object [("o", .object [("n", .number (0 / 0))])]
    u.equal v = true ∧ v.equal w = true ∧ u.equal w = true ∧ v.kind.label = w.kind.label ∧
      o.equal o = false := by
  intro c d u v w o
  have huv : u.equal v = true := by decide
  have hvw : v.equal w = true := by decide
  obtain ⟨-, htrans, -, hkind, -⟩ := equal_isPartialEquivalence u v w
  obtain ⟨-, -, hself, -⟩ := equal_isPartialEquivalence o o o
  refine ⟨huv, hvw, htrans huv hvw, hkind hvw, ?_⟩
  rw [← Bool.not_eq_true, hself]
  intro hall
  exact absurd (hall (0 / 0) (by simp [o, numbers, Fields.numbers])) (by decide)

end Value

end ScopeScript
