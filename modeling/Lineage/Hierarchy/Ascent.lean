import Lineage.Hierarchy.Edge

/-!
# Ascents

An ascent climbs from a type along its superclasses and meets one type at each step.  The superclass
is looked up one step ahead: when that fails, the type itself is still met, and the failure comes in
the next step.  A type that was met before ends the ascent with a cycle.  After a failure, or at a
root, there is nothing more.

An ascent needs no limit beside the types it has met: each step that meets one leaves fewer types of
the hierarchy that were not met (`remaining_lt_of_step`).

`collect` climbs to the end, `search` only as far as something is found; `Hierarchy.chain` and
`Hierarchy.inherits` are the questions that they answer at once.
-/

namespace Lineage

section Progress

variable {h : Hierarchy} {c : Handle}

theorem Hierarchy.mem_handles_of_node? {node : TypeNode} (e : h.node? c = some node) :
    c ∈ h.handles := by
  have hc : c.index < h.size := by
    rw [Hierarchy.node?, Roster.at?] at e
    exact (Array.getElem?_eq_some_iff.mp e).1
  exact List.mem_map.mpr ⟨c.index, List.mem_range.mpr hc, Handle.ofIndex_index c⟩

theorem Hierarchy.mem_handles_of_resolve {node : TypeNode} (e : h.resolve c = .ok node) :
    c ∈ h.handles := by
  unfold Hierarchy.resolve at e
  split at e
  · rename_i found
    exact mem_handles_of_node? found
  · cases e

/-- The number of types that a traversal has not dealt with yet. -/
def Hierarchy.remaining (h : Hierarchy) (done : List Handle) : Nat :=
  (h.handles.filter (· ∉ done)).length

/-- Dealing with one more type leaves fewer. -/
theorem Hierarchy.remaining_lt {done more : List Handle} (sub : ∀ x ∈ done, x ∈ more)
    (hc : c ∈ h.handles) (old : c ∉ done) (new : c ∈ more) : h.remaining more < h.remaining done := by
  have : h.handles.filter (· ∉ more) = (h.handles.filter (· ∉ done)).filter (· ∉ more) := by
    rw [List.filter_filter]
    apply List.filter_congr
    intro x _
    have := sub x
    by_cases hx : x ∈ done <;> simp_all
  rw [remaining, remaining, this]
  apply List.length_filter_lt_length_iff_exists.mpr
  exact ⟨c, List.mem_filter.mpr ⟨hc, by simpa using old⟩, by simpa using new⟩

end Progress

/-- An ascent on its way: the type to meet next, the failure to report next, and the types met so
far. -/
structure Ascent where
  ahead : Option Handle
  failure : Option ResolveError
  met : List Handle
deriving DecidableEq

def Ascent.start (c : Handle) : Ascent := ⟨some c, none, []⟩

namespace Ascent

/-- One step: the type that is met, or the failure, or nothing; and the ascent after it. -/
def step (h : Hierarchy) (w : Ascent) : Option (Except ResolveError Handle) × Ascent :=
  match w.failure with
  | some e => (some (.error e), { w with failure := none })
  | none =>
    match w.ahead with
    | none => (none, w)
    | some c =>
      if c ∈ w.met then
        (some (.error (.cycle c)), { w with ahead := none })
      else
        match h.superclass c with
        | .ok parent => (some (.ok c), ⟨parent, none, c :: w.met⟩)
        | .error (.unknownType u) => (some (.error (.unknownType u)), ⟨none, none, c :: w.met⟩)
        | .error e => (some (.ok c), ⟨none, some e, c :: w.met⟩)

variable {h : Hierarchy} {w w' : Ascent} {c : Handle}

/-- A type that is met belongs to the hierarchy, is new, and counts as met from then on. -/
theorem of_step_ok (e : w.step h = (some (.ok c), w')) :
    c ∈ h.handles ∧ c ∉ w.met ∧ w'.met = c :: w.met := by
  unfold step at e
  split at e
  · cases e
  · split at e
    · cases e
    · split at e
      · cases e
      · rename_i p _ hs
        cases hr : h.resolve p with
        | ok node =>
          have hp := Hierarchy.mem_handles_of_resolve hr
          split at e <;> cases e
          · exact ⟨hp, hs, rfl⟩
          · exact ⟨hp, hs, rfl⟩
        | error err =>
          obtain ⟨u, rfl⟩ : ∃ u, err = .unknownType u := by
            unfold Hierarchy.resolve at hr
            split at hr <;> cases hr
            exact ⟨p, rfl⟩
          have : h.superclass p = .error (.unknownType u) := by
            rw [Hierarchy.superclass, hr]
            rfl
          rw [this] at e
          cases e

theorem remaining_lt_of_step (e : w.step h = (some (.ok c), w')) :
    h.remaining w'.met < h.remaining w.met := by
  obtain ⟨hc, old, hs⟩ := of_step_ok e
  rw [hs]
  exact Hierarchy.remaining_lt (fun x hx => List.mem_cons_of_mem c hx) hc old List.mem_cons_self

/-- What the next steps give, one item for each. -/
def take (h : Hierarchy) : Nat → Ascent → List (Option (Except ResolveError Handle))
  | 0, _ => []
  | n + 1, w => (w.step h).1 :: take h n (w.step h).2

/-- All the types that are met up to the end, or the failure there. -/
def collect (h : Hierarchy) (w : Ascent) : Except ResolveError (List Handle) :=
  match _step : w.step h with
  | (none, _) => .ok []
  | (some (.error err), _) => .error err
  | (some (.ok c), w') => (collect h w').map (c :: ·)
termination_by h.remaining w.met
decreasing_by exact remaining_lt_of_step _step

/-- What `probe` finds at the first type where it finds something.  The ascent goes no further than
that type; without such a type, it goes to its end. -/
def search {α : Type} (h : Hierarchy) (probe : Handle → Option α) (w : Ascent) :
    Except ResolveError (Option α) :=
  match _step : w.step h with
  | (none, _) => .ok none
  | (some (.error err), _) => .error err
  | (some (.ok c), w') =>
    match probe c with
    | some found => .ok (some found)
    | none => search h probe w'
termination_by h.remaining w.met
decreasing_by exact remaining_lt_of_step _step

end Ascent

namespace Hierarchy

variable (h : Hierarchy)

/-- A type, followed by its superclasses up to the root. -/
def chain (c : Handle) : Except ResolveError (List Handle) := (Ascent.start c).collect h

/-- Whether `ancestor` is `c` or one of its superclasses.  What lies beyond `ancestor` does not
matter. -/
def inherits (c ancestor : Handle) : Except ResolveError Bool :=
  ((Ascent.start c).search h fun s => if s = ancestor then some () else none).map Option.isSome

end Hierarchy

end Lineage
