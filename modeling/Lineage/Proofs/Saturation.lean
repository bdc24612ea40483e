import Lineage.Hierarchy.Worklist

/-!
# Runs of a worklist

The three things that can happen to a worklist: nothing waits, the first type that waits cannot be
expanded, or it can be.  Proofs about `saturate` go by `saturate.induct` and use one of the equations
`saturate_of_nil`, `saturate_of_error` and `saturate_of_ok` in each case.
-/

namespace Lineage.Worklist

variable {h : Hierarchy} {w : Worklist} {c t : Handle} {rest is : List Handle}

theorem saturate_of_nil (hw : w.waiting = []) : w.saturate h = .ok w.expanded := by
  rw [saturate]
  split
  · rfl
  · rename_i hw'
    cases hw.symm.trans hw'

theorem saturate_of_error {e : ResolveError} (hw : w.waiting = c :: rest)
    (hi : h.interfaces c = .error e) : w.saturate h = .error e := by
  rw [saturate]
  split
  · rename_i hw'
    cases hw.symm.trans hw'
  · rename_i hw'
    cases hw.symm.trans hw'
    split
    · rename_i hi'
      cases hi.symm.trans hi'
      rfl
    · rename_i hi'
      cases hi.symm.trans hi'

theorem saturate_of_ok (hw : w.waiting = c :: rest) (hi : h.interfaces c = .ok is) :
    w.saturate h = (w.advance hw is).saturate h := by
  rw [saturate]
  split
  · rename_i hw'
    cases hw.symm.trans hw'
  · rename_i hw'
    cases hw.symm.trans hw'
    split
    · rename_i hi'
      cases hi.symm.trans hi'
    · rename_i hi'
      cases hi.symm.trans hi'
      rfl

/-- An expansion finds the new ones of the interfaces. -/
theorem found_advance (hw : w.waiting = c :: rest) : (w.advance hw is).found = w.found ++ w.fresh is := by
  rw [found, found, hw]
  simp [advance]

/-- What waits after an expansion waited before, or is an interface of the type that was expanded. -/
theorem of_mem_waiting_advance (hw : w.waiting = c :: rest) (ht : t ∈ (w.advance hw is).waiting) :
    t ∈ w.waiting ∨ t ∈ is := by
  rcases List.mem_append.mp ht with ht | ht
  · exact .inl (hw ▸ List.mem_cons_of_mem c ht)
  · rw [fresh, List.mem_eraseDups] at ht
    exact .inr (List.mem_filter.mp ht).1

/-- The types that come out are all different. -/
theorem nodup_of_saturate {types : List Handle} (e : w.saturate h = .ok types) : types.Nodup := by
  induction w using saturate.induct (h := h) with
  | case1 w hw =>
    rw [saturate_of_nil hw] at e
    cases e
    exact (List.nodup_append.mp w.nodup).1
  | case2 w c rest hw err hi =>
    rw [saturate_of_error hw hi] at e
    cases e
  | case3 w c rest hw is hi ih =>
    rw [saturate_of_ok hw hi] at e
    exact ih e

end Lineage.Worklist
