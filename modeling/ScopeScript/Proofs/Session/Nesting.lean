import ScopeScript.Proofs.Run.Room
import ScopeScript.Proofs.Session.Moments

/-!
# Nesting in sessions

How long the ancestries in a session get depends on how deep definitions are nested in the programs
that are run there, and not on how deep calls are nested.  The bound holds at every moment of a run,
however many calls were entered before it.
-/

namespace ScopeScript

/-- Above the two frames of a session no ancestry has more than `N` frames, and none will have more
when functions are called. -/
structure Store.NestedWithin (s : Store) (N : Nat) : Prop where
  frames : ∀ f < s.frames.size, ∃ chain, s.Ancestry f chain ∧ chain.length ≤ N + 2
  functions : ∀ c, s.Has c →
    ∃ chain, s.Ancestry c.frame chain ∧ chain.length + 1 + Stmt.nestingAll c.body ≤ N + 2

theorem Store.Roomy.nestedWithin {s : Store} {N : Nat} (hs : s.Roomy (some (N + 2))) :
    s.NestedWithin N where
  frames f hf := by
    obtain ⟨chain, hchain, hlimit⟩ := hs.frames f hf
    exact ⟨chain, hchain, hlimit _ rfl⟩
  functions c hc := by
    obtain ⟨chain, hchain, hlimit⟩ := hs.functions c hc
    have hle := hlimit _ rfl
    exact ⟨chain, hchain, by omega⟩

namespace Session

variable {limit : Option Nat}

theorem ancestry_top : start.Ancestry top [top, globals] :=
  .inner rfl rfl (.outermost rfl rfl)

theorem roomy_start (hlimit : ∀ l ∈ limit, 2 ≤ l) : start.Roomy limit := by
  have hglobals : Builtin.store.Ancestry globals [globals] := .outermost rfl rfl
  have hstore : Builtin.store.Roomy limit := by
    refine ⟨Merged.parented_store, fun f hf => ?_, fun c hc => ?_⟩
    · obtain ⟨rfl, -⟩ := Merged.eq_globals (Array.getElem?_eq_getElem hf)
      exact ⟨_, hglobals, fun l hl => Nat.le_of_succ_le (hlimit l hl)⟩
    · obtain ⟨f, frame, hframe, hc⟩ := hc
      obtain ⟨-, rfl⟩ := Merged.eq_globals hframe
      cases hc
  exact hstore.newFrame ⟨_, hglobals, hlimit⟩

/-- A session admits that there is room for the functions that the programs define. -/
theorem admits_roomy {programs : Program → Prop} (hlimit : ∀ l ∈ limit, 2 ≤ l)
    (hprograms : ∀ p, programs p → ∀ l ∈ limit, Stmt.nestingAll p.body + 2 ≤ l) :
    Admits (.roomy limit []) Host.Forwarding Action.Forwarding programs where
  kept host hhost := Contract.isKept_roomy (hhost.forwardingWith []) limit
  builtin := Builtin.forwarding_host
  add _ name _ hhost := hhost.add name
  store := ⟨roomy_start hlimit, nofun⟩
  inGlobals := ancestry_top.lt_of_mem (by simp)
  inTop := ancestry_top.lt
  native _ _ hc := nomatch hc
  program p hp stmt hmem := by
    refine ⟨_, ancestry_top, fun l hl => ?_⟩
    have hstmt := Stmt.nesting_le_nestingAll hmem
    have hle := hprograms p hp l hl
    simp only [List.length_cons, List.length_nil]
    omega

/-- In a session no ancestry has more frames than those of the session and one for each definition
around the code, if no program nests definitions deeper than `N`.  This is so after the programs and
at every moment of their runs, however deep the calls are nested.  For a function, there is room for
the frame of a call and for those of all the functions in its body. -/
theorem ancestries_nestedWithin {N : Nat} {s : Session}
    (hs : s.Reached Action.Forwarding fun p => Stmt.nestingAll p.body ≤ N) :
    s.state.store.NestedWithin N ∧
      ∀ m, s.Passes (fun p => Stmt.nestingAll p.body ≤ N) m →
        m.state.store.NestedWithin N ∧
          ((m.run s.host).final m.state).store.NestedWithin N := by
  have hadmits : Admits (.roomy (some (N + 2)) []) Host.Forwarding Action.Forwarding
      fun p => Stmt.nestingAll p.body ≤ N := by
    refine admits_roomy (fun l hl => ?_) fun p hp l hl => ?_
    · obtain rfl := Option.some.inj hl
      exact Nat.le_add_left 2 N
    · obtain rfl := Option.some.inj hl
      exact Nat.add_le_add_right hp 2
  refine ⟨(hadmits.reached hs).1.1.nestedWithin, fun m hm => ?_⟩
  obtain ⟨hready, hkept⟩ := hadmits.ready hs hm
  exact ⟨hready.store.1.nestedWithin, (hready.ends hkept).store.1.nestedWithin⟩

/-- In a call of a function that was defined in the call of another one, the bound is reached. -/
theorem ancestries_nestedWithin_inner :
    let inner : List Stmt := [.expr (.name "true")]
    let outer : List Stmt := [.define "g" [] inner, .expr (.call (.name "g") [])]
    let s := ((new none (.still ⟨0⟩)).run 0 ⟨[.define "f" [] outer]⟩).2
    s.Reached Action.Forwarding (fun p => Stmt.nestingAll p.body ≤ 2) ∧
      s.state.store.NestedWithin 2 ∧
      ∃ m, s.Passes (fun p => Stmt.nestingAll p.body ≤ 2) m ∧ m.code = .body inner ∧
        m.state.store.Ancestry m.frame [3, 2, top, globals] ∧ m.state.store.NestedWithin 2 := by
  intro inner outer s
  have hs : s.Reached Action.Forwarding fun p => Stmt.nestingAll p.body ≤ 2 :=
    (Reached.new none (.still ⟨0⟩)).run 0 (by decide)
  obtain ⟨hstore, hmoments⟩ := ancestries_nestedWithin hs
  let q : Program := ⟨[.expr (.call (.name "f") [])]⟩
  let t := (Run.openScope ⟨0, "f", [], outer, top⟩ []).final s.state
  let t' := (Stmt.runAll (Run.call s.host 1) 2 .null [.define "g" [] inner]).final t
  let u := (Run.openScope ⟨1, "g", [], inner, 2⟩ []).final t'
  have houter : Relation.ReflTransGen (Moment.Next s.host) ⟨2, top, .body q.body, s.state⟩
      ⟨1, 2, .body outer, t⟩ :=
    .head .first (.head .expr (.head (.call rfl rfl) (.single (.enter rfl rfl))))
  have hinner : Relation.ReflTransGen (Moment.Next s.host) ⟨1, 2, .body outer, t⟩
      ⟨0, 3, .body inner, u⟩ :=
    .head (@Moment.Next.stmt _ _ _ _ [_] [] _ _ rfl)
      (.head .expr (.head (.call rfl rfl) (.single (.enter rfl rfl))))
  have hm : s.Passes (fun p => Stmt.nestingAll p.body ≤ 2) ⟨0, 3, .body inner, u⟩ :=
    ⟨2, q, by decide, houter.trans hinner⟩
  have hnested := (hmoments _ hm).1
  refine ⟨hs, hstore, ⟨0, 3, .body inner, u⟩, hm, rfl, ?_, hnested⟩
  exact .inner rfl rfl (.inner rfl rfl (.inner rfl rfl (.outermost rfl rfl)))

end Session

end ScopeScript
