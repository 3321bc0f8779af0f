import ScopeScript.Store.Basic
import ScopeScript.Value.Printer

/-!
# Written forms of frames

The text of a frame shows the names that it binds, sorted, and the text of its parent.
-/

namespace ScopeScript

/-- The names that a frame binds, sorted. -/
def Frame.names (f : Frame) : List String :=
  (f.bindings.map (·.1)).mergeSort (fun a b => a ≤ b)

namespace Store

/-- The text of the frame `id` with those of at most `n - 1` of its ancestors. -/
def inspectWithin (s : Store) : Nat → FrameId → String
  | 0, _ => "Env \x7b .. \x7d"
  | n + 1, id =>
    match s.frames[id]? with
    | none => "Env \x7b .. \x7d"
    | some f =>
      let parent := match f.parent with
        | none => "None"
        | some p => "Some(" ++ s.inspectWithin n p ++ ")"
      "Env \x7b bindings: " ++ inspectStrings f.names ++ ", parent: " ++ parent ++ " \x7d"

/-- The text of the frame `id`. -/
def inspect (s : Store) (id : FrameId) : String := s.inspectWithin s.frames.size id

end Store

end ScopeScript
