import Lineage.Hierarchy.Ascent

/-!
# Worklists

The closure of a list of types under direct interfaces, breadth first.  A worklist keeps the types in
the order in which they were found; a first part of them is expanded, the others wait.  Expanding a
type puts those of its interfaces at the end that were not found before.

No type is found twice (`Worklist.nodup`), so a type is expanded at most once, and the number of
types of the hierarchy bounds the work.
-/

namespace Lineage

theorem nodup_eraseDups {α : Type} [BEq α] [LawfulBEq α] (l : List α) : l.eraseDups.Nodup := by
  match l with
  | [] => exact List.nodup_nil
  | a :: l =>
    rw [List.eraseDups_cons, List.nodup_cons]
    refine ⟨fun h => ?_, nodup_eraseDups _⟩
    simp [List.mem_eraseDups] at h
termination_by l.length
decreasing_by exact Nat.lt_succ_of_le (List.length_filter_le _ _)

/-- Types found so far: those that are expanded, then those that wait. -/
structure Worklist where
  expanded : List Handle
  waiting : List Handle
  nodup : (expanded ++ waiting).Nodup
deriving DecidableEq

namespace Worklist

/-- The worklist on which nothing is expanded yet. -/
def ofSeed (seed : List Handle) : Worklist := ⟨[], seed.eraseDups, nodup_eraseDups seed⟩

def found (w : Worklist) : List Handle := w.expanded ++ w.waiting

/-- The types of a list that are new, each once. -/
def fresh (w : Worklist) (candidates : List Handle) : List Handle :=
  (candidates.filter (· ∉ w.found)).eraseDups

private theorem nodup_advance {w : Worklist} {c : Handle} {rest : List Handle}
    (hw : w.waiting = c :: rest) (interfaces : List Handle) :
    ((w.expanded ++ [c]) ++ (rest ++ w.fresh interfaces)).Nodup := by
  have hf : (w.expanded ++ [c]) ++ (rest ++ w.fresh interfaces) = w.found ++ w.fresh interfaces := by
    rw [found, hw]
    simp
  rw [hf, List.nodup_append]
  refine ⟨w.nodup, nodup_eraseDups _, ?_⟩
  rintro a ha b hb rfl
  rw [fresh, List.mem_eraseDups, List.mem_filter] at hb
  simp [ha] at hb

/-- The worklist after its first waiting type `c` is expanded: the new ones of the interfaces of `c`
go to the end. -/
def advance (w : Worklist) {c : Handle} {rest : List Handle} (hw : w.waiting = c :: rest)
    (interfaces : List Handle) : Worklist :=
  ⟨w.expanded ++ [c], rest ++ w.fresh interfaces, nodup_advance hw interfaces⟩

theorem remaining_lt_of_advance {h : Hierarchy} {w : Worklist} {c : Handle}
    {rest interfaces : List Handle} (hw : w.waiting = c :: rest)
    (hc : h.interfaces c = .ok interfaces) :
    h.remaining (w.advance hw interfaces).expanded < h.remaining w.expanded := by
  have old : c ∉ w.expanded := by
    have := w.nodup
    rw [hw, List.nodup_append] at this
    exact fun hm => this.2.2 c hm c List.mem_cons_self rfl
  have known : c ∈ h.handles := by
    cases hr : h.resolve c with
    | ok node => exact Hierarchy.mem_handles_of_resolve hr
    | error e =>
      rw [Hierarchy.interfaces, hr] at hc
      cases hc
  exact Hierarchy.remaining_lt (fun x hx => List.mem_append_left [c] hx) known old
    (List.mem_append_right _ List.mem_cons_self)

/-- Expand all that waits, and all that turns up. -/
def saturate (h : Hierarchy) (w : Worklist) : Except ResolveError (List Handle) :=
  match hw : w.waiting with
  | [] => .ok w.expanded
  | c :: _ =>
    match _hc : h.interfaces c with
    | .error e => .error e
    | .ok interfaces => saturate h (w.advance hw interfaces)
termination_by h.remaining w.expanded
decreasing_by exact remaining_lt_of_advance hw _hc

end Worklist

end Lineage
