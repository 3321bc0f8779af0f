import ScopeScript.Store.Fault

/-!
# Frames and stores

A frame binds names to values and may have a parent frame, in which the names are looked up that
it does not bind itself.  A store holds all frames that were ever made; the number of a frame is
its place in the order of creation.
-/

namespace ScopeScript

/-- A name as a frame has it: with its value, and whether it is marked as a constant. -/
structure Binding where
  name : String
  value : Value
  constant : Bool

/-- The names of one scope.  The values and the marks of constants are in two tables, which nothing
but the operations on frames keeps in step. -/
structure Frame where
  parent : Option FrameId
  bindings : List (String × Value)
  constants : List String

namespace Frame

/-- The frame without bindings below `parent`. -/
def empty (parent : Option FrameId) : Frame := ⟨parent, [], []⟩

/-- Whether `name` is marked as a constant of this frame. -/
def isConstant (f : Frame) (name : String) : Bool := f.constants.contains name

/-- The binding of `name` in this frame. -/
def find? (f : Frame) (name : String) : Option Binding :=
  (f.bindings.lookup name).map fun v => ⟨name, v, f.isConstant name⟩

/-- Whether this frame binds `name`. -/
def binds (f : Frame) (name : String) : Bool := (f.find? name).isSome

/-- The frame with one more binding, and with a mark if that is constant. -/
def add (f : Frame) (b : Binding) : Frame :=
  { f with
    bindings := (b.name, b.value) :: f.bindings
    constants := if b.constant then b.name :: f.constants else f.constants }

/-- The frame with `v` in place of the value of `name`. -/
def set (f : Frame) (name : String) (v : Value) : Frame :=
  { f with bindings := f.bindings.map fun b => if b.1 == name then (b.1, v) else b }

theorem isConstant_add (f : Frame) (b : Binding) (name : String) :
    (f.add b).isConstant name =
      if b.name = name then b.constant || f.isConstant name else f.isConstant name := by
  unfold add isConstant
  by_cases h : b.name = name <;> cases b.constant <;> simp [h, Ne.symm]

@[simp] theorem isConstant_set (f : Frame) (name : String) (v : Value) (other : String) :
    (f.set name v).isConstant other = f.isConstant other := rfl

theorem constant_eq_of_find? {f : Frame} {name : String} {b : Binding} (h : f.find? name = some b) :
    b.constant = f.isConstant name := by
  obtain ⟨v, -, rfl⟩ := Option.map_eq_some_iff.1 h
  rfl

theorem name_of_find? {f : Frame} {name : String} {b : Binding} (h : f.find? name = some b) :
    b.name = name := by
  obtain ⟨v, -, rfl⟩ := Option.map_eq_some_iff.1 h
  rfl

theorem mem_of_find? {f : Frame} {name : String} {b : Binding} (h : f.find? name = some b) :
    (name, b.value) ∈ f.bindings := by
  obtain ⟨v, hv, rfl⟩ := Option.map_eq_some_iff.1 h
  obtain ⟨before, behind, hsplit, -⟩ := List.lookup_eq_some_iff.1 hv
  rw [hsplit]
  exact List.mem_append_right before List.mem_cons_self

theorem lookup_cons (b : String × Value) (rest : List (String × Value)) (name : String) :
    (b :: rest).lookup name = if b.1 = name then some b.2 else rest.lookup name := by
  obtain ⟨x, v⟩ := b
  by_cases h : x = name
  · simp [h]
  · simp [List.lookup_cons, h, beq_eq_false_iff_ne.2 (Ne.symm h)]

theorem binds_iff_mem (f : Frame) (name : String) :
    f.binds name = true ↔ name ∈ f.bindings.map (·.1) := by
  rw [binds, find?, Option.isSome_map]
  induction f.bindings with
  | nil => simp
  | cons b rest ih =>
    rw [lookup_cons, List.map_cons, List.mem_cons]
    by_cases h : b.1 = name
    · simp [h]
    · simp [h, Ne.symm h, ih]

theorem find?_add (f : Frame) (b : Binding) (name : String) :
    (f.add b).find? name =
      if b.name = name then some { b with constant := b.constant || f.isConstant name }
      else f.find? name := by
  have hlookup : (f.add b).bindings.lookup name =
      if b.name = name then some b.value else f.bindings.lookup name := lookup_cons ..
  unfold find?
  rw [hlookup, isConstant_add]
  by_cases h : b.name = name <;> simp [h]

theorem find?_set (f : Frame) (name : String) (v : Value) (other : String) :
    (f.set name v).find? other =
      (f.find? other).map fun b => if other = name then { b with value := v } else b := by
  have hlookup : (f.set name v).bindings.lookup other =
      (f.bindings.lookup other).map fun w => if other = name then v else w := by
    unfold set
    induction f.bindings with
    | nil => rfl
    | cons b rest ih =>
      rw [List.map_cons, lookup_cons, lookup_cons, ih]
      by_cases hb : b.1 = name <;> by_cases ho : b.1 = other <;> simp_all
  unfold find?
  rw [hlookup, Option.map_map, Option.map_map]
  congr 1
  funext w
  by_cases h : other = name <;> simp [h]

end Frame

/-- All frames that were made, and how many function values were made. -/
structure Store where
  frames : Array Frame
  closures : Nat

namespace Store

/-- The store without frames. -/
def empty : Store := ⟨#[], 0⟩

/-- Makes a frame below `parent`. -/
def newFrame (s : Store) (parent : Option FrameId) : FrameId × Store :=
  (s.frames.size, { s with frames := s.frames.push (.empty parent) })

/-- Makes an identity for a function value. -/
def newClosure (s : Store) : Nat × Store := (s.closures, { s with closures := s.closures + 1 })

/-- The frame with the given number. -/
def frame (s : Store) (id : FrameId) : Except Halt Frame :=
  match s.frames[id]? with
  | some f => .ok f
  | none => .error (.missingFrame id)

/-- Replaces a frame. -/
def put (s : Store) (id : FrameId) (f : Frame) : Store :=
  { s with frames := s.frames.setIfInBounds id f }

/-- Binds `name` in the frame `id`, which must not bind it yet. -/
def declare (s : Store) (id : FrameId) (name : String) (v : Value) (constant : Bool) :
    Except Halt Store := do
  let f ← s.frame id
  if f.binds name then throw (.fault (.redefinedVariable name))
  else return s.put id (f.add ⟨name, v, constant⟩)

/-- The first frame that binds `name` among at most `n` frames, from `id` on to its parents. -/
def resolveWithin (s : Store) (name : String) : Nat → FrameId → Except Halt FrameId
  | 0, id => throw (.missingFrame id)
  | n + 1, id => do
    let f ← s.frame id
    if f.binds name then return id
    else
      match f.parent with
      | some parent => resolveWithin s name n parent
      | none => throw (.fault (.unknownVariable name))

/-- The first frame that binds `name`, from `id` on to its parents. -/
def resolve (s : Store) (id : FrameId) (name : String) : Except Halt FrameId :=
  s.resolveWithin name s.frames.size id

/-- The value of `name` in the first frame that binds it, from `id` on to its parents. -/
def lookup (s : Store) (id : FrameId) (name : String) : Except Halt Value := do
  let owner ← s.resolve id name
  let f ← s.frame owner
  match f.find? name with
  | some b => return b.value
  | none => throw (.fault (.unknownVariable name))

/-- Rebinds `name` in the first frame that binds it, from `id` on to its parents.  A constant is not
rebound. -/
def assign (s : Store) (id : FrameId) (name : String) (v : Value) : Except Halt Store := do
  let owner ← s.resolve id name
  let f ← s.frame owner
  if f.isConstant name then throw (.fault (.constantAssigned name))
  else return s.put owner (f.set name v)

end Store

end ScopeScript
