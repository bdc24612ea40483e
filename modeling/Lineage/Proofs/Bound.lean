import Lineage.Proofs.Foreign
import Lineage.Proofs.Level
import Lineage.Proofs.Walk

/-!
# How long a traversal takes

The loops along superclasses and over interfaces have no limit of their own.  Here they get one: the same loops,
but cut off after so many rounds (`collectWithin`, `searchWithin`, `saturateWithin`).  What they remember is
enough to make the number of types a sufficient limit, since each type that is met, found or expanded was not
before, and is one less of those that remain (`Hierarchy.remaining`).

Main facts: `WellFormed.remaining_add_length` (the measure, exactly), `Ascent.collectWithin_eq`,
`Ascent.searchWithin_eq` and `Worklist.saturateWithin_eq` (the limits that are sufficient); at the end all of it
for the traversals of a scope.
-/

namespace Lineage

/-! ### Counting -/

namespace Hierarchy

variable {h : Hierarchy} {done more types : List Handle} {c : Handle}

theorem remaining_nil (h : Hierarchy) : h.remaining [] = h.size := by
  simp [remaining, handles]

namespace WellFormed

variable (hw : h.WellFormed)
include hw

theorem mem_handles_iff : c ∈ h.handles ↔ c.index < h.size := by
  constructor
  · intro hc
    obtain ⟨i, hi, rfl⟩ := List.mem_map.mp hc
    have hi : i < h.size := List.mem_range.mp hi
    rwa [hw.index_ofIndex hi]
  · intro known
    obtain ⟨node, there⟩ := exists_node? known
    exact mem_handles_of_node? there

/-- No handle is given out twice. -/
theorem nodup_handles : h.handles.Nodup := by
  refine List.Nodup.map_on (fun i hi j hj same => ?_) List.nodup_range
  rw [List.mem_range] at hi hj
  rw [← hw.index_ofIndex hi, same, hw.index_ofIndex hj]

/-- Dealing with some new types leaves fewer by their number. -/
theorem remaining_add_length (new : List Handle) (all : ∀ t, t ∈ more ↔ t ∈ done ∨ t ∈ new)
    (nodup : new.Nodup) (known : ∀ t ∈ new, t.index < h.size) (fresh : ∀ t ∈ new, t ∉ done) :
    h.remaining more + new.length = h.remaining done := by
  have apart : (h.handles.filter (· ∉ more)).Disjoint new := fun t ht hn =>
    of_decide_eq_true (List.mem_filter.mp ht).2 ((all t).mpr (.inr hn))
  -- what remained before is what remains after it and the new types, in some order
  have row : (h.handles.filter (· ∉ done)).Perm (h.handles.filter (· ∉ more) ++ new) := by
    refine (List.perm_ext_iff_of_nodup (hw.nodup_handles.filter _)
      ((hw.nodup_handles.filter _).append nodup apart)).mpr fun t => ?_
    simp only [List.mem_append, List.mem_filter, hw.mem_handles_iff, decide_eq_true_eq, all]
    by_cases hn : t ∈ new
    · simp [hn, fresh t hn, known t hn]
    · simp [hn]
  rw [remaining, remaining, row.length_eq, List.length_append]

/-- A list of different types is not longer than that of all types. -/
theorem length_le_size (nodup : types.Nodup) (known : ∀ t ∈ types, t.index < h.size) :
    types.length ≤ h.size := by
  have count : h.remaining types + types.length = h.remaining [] :=
    hw.remaining_add_length types (by simp) nodup known (by simp)
  rw [remaining_nil] at count
  omega

end WellFormed

end Hierarchy

/-! ### Walks -/

namespace Ascent

variable {h : Hierarchy} {w w' : Ascent} {c : Handle} {n : Nat}

/-- All the types that are met up to the end, as `collect` gives them, if the end is reached in so many steps. -/
def collectWithin (h : Hierarchy) : Nat → Ascent → Option (Except ResolveError (List Handle))
  | 0, _ => none
  | n + 1, w =>
    match w.step h with
    | (none, _) => some (.ok [])
    | (some (.error e), _) => some (.error e)
    | (some (.ok c), w') => (collectWithin h n w').map (·.map (c :: ·))

/-- What `search` finds, if it comes to its end in so many steps. -/
def searchWithin {α : Type} (h : Hierarchy) (probe : Handle → Option α) :
    Nat → Ascent → Option (Except ResolveError (Option α))
  | 0, _ => none
  | n + 1, w =>
    match w.step h with
    | (none, _) => some (.ok none)
    | (some (.error e), _) => some (.error e)
    | (some (.ok c), w') =>
      match probe c with
      | some found => some (.ok (some found))
      | none => searchWithin h probe n w'

/-- A limit above the number of types that remain does not change what is collected. -/
theorem collectWithin_eq (enough : h.remaining w.met < n) : w.collectWithin h n = some (w.collect h) := by
  induction n generalizing w with
  | zero => omega
  | succ n ih =>
    rcases e : w.step h with ⟨_ | _ | c, w'⟩
    · simp [collectWithin, e, collect_of_none e]
    · simp [collectWithin, e, collect_of_error e]
    · have less := remaining_lt_of_step e
      have rest := ih (w := w') (by omega)
      simp [collectWithin, e, collect_of_ok e, rest]

/-- Nor does it change what a search finds. -/
theorem searchWithin_eq {α : Type} {probe : Handle → Option α} (enough : h.remaining w.met < n) :
    w.searchWithin h probe n = some (w.search h probe) := by
  induction n generalizing w with
  | zero => omega
  | succ n ih =>
    rcases e : w.step h with ⟨_ | _ | c, w'⟩
    · simp [searchWithin, e, search_of_none e]
    · simp [searchWithin, e, search_of_error e]
    · have less := remaining_lt_of_step e
      have rest := ih (w := w') (by omega)
      cases hp : probe c <;> simp [searchWithin, e, search_of_ok e, hp, rest]

/-- Meeting a type leaves one less to be met. -/
theorem remaining_step (hw : h.WellFormed) (e : w.step h = (some (.ok c), w')) :
    h.remaining w'.met + 1 = h.remaining w.met := by
  obtain ⟨there, new, met⟩ := of_step_ok e
  refine hw.remaining_add_length [c] (fun t => ?_) (List.nodup_singleton c) ?_ ?_
  · simp [met, or_comm]
  · simpa [hw.mem_handles_iff] using there
  · simpa using new

end Ascent

/-! ### Worklists -/

namespace Worklist

variable {h : Hierarchy} {w : Worklist} {c : Handle} {rest is : List Handle} {n : Nat}

/-- What `saturate` gives, if nothing waits any more after so many rounds, one for each type that is expanded. -/
def saturateWithin (h : Hierarchy) : Nat → Worklist → Option (Except ResolveError (List Handle))
  | 0, w => if w.waiting = [] then some (.ok w.expanded) else none
  | n + 1, w =>
    match hw : w.waiting with
    | [] => some (.ok w.expanded)
    | c :: _ =>
      match h.interfaces c with
      | .error e => some (.error e)
      | .ok interfaces => saturateWithin h n (w.advance hw interfaces)

/-- What waits is not expanded. -/
theorem not_mem_expanded (hw : w.waiting = c :: rest) : c ∉ w.expanded := by
  have nodup := w.nodup
  rw [hw] at nodup
  intro old
  exact List.disjoint_of_nodup_append nodup old List.mem_cons_self

/-- An expansion leaves one type less to be expanded. -/
theorem remaining_expanded (wf : h.WellFormed) (hw : w.waiting = c :: rest) (hi : h.interfaces c = .ok is) :
    h.remaining (w.advance hw is).expanded + 1 = h.remaining w.expanded := by
  obtain ⟨node, there⟩ := Hierarchy.node?_of_interfaces_ok hi
  refine wf.remaining_add_length [c] (fun t => ?_) (List.nodup_singleton c) ?_ ?_
  · simp [advance]
  · simpa using Hierarchy.lt_size_of_node? there
  · simpa using not_mem_expanded hw

/-- The types that it puts at the end were not found before, and are no longer to be found. -/
theorem remaining_found (wf : h.WellFormed) (hw : w.waiting = c :: rest) (hi : h.interfaces c = .ok is) :
    h.remaining (w.advance hw is).found + (w.fresh is).length = h.remaining w.found := by
  have fresh (t : Handle) : t ∈ w.fresh is ↔ t ∈ is ∧ t ∉ w.found := mem_unseen_iff
  refine wf.remaining_add_length (w.fresh is) (fun t => ?_) (nodup_eraseDups _) (fun t ht => ?_) fun t ht => ?_
  · simp [found_advance]
  · exact wf.interface_lt hi ((fresh t).mp ht).1
  · exact ((fresh t).mp ht).2

/-- When no types remain, nothing waits. -/
theorem waiting_eq_nil (wf : h.WellFormed) (known : ∀ t ∈ w.found, t.index < h.size)
    (done : h.remaining w.expanded = 0) : w.waiting = [] := by
  rcases e : w.waiting with _ | ⟨c, rest⟩
  · rfl
  · have there : c ∈ h.handles := wf.mem_handles_iff.mpr (known c (by simp [found, e]))
    have less : h.remaining (c :: w.expanded) < h.remaining w.expanded :=
      Hierarchy.remaining_lt (by simp +contextual) there (not_mem_expanded e) List.mem_cons_self
    omega

/-- As many rounds as there are types that are not expanded are enough. -/
theorem saturateWithin_eq (wf : h.WellFormed) (known : ∀ t ∈ w.found, t.index < h.size)
    (enough : h.remaining w.expanded ≤ n) : w.saturateWithin h n = some (w.saturate h) := by
  induction n generalizing w with
  | zero =>
    have empty := waiting_eq_nil wf known (by omega)
    simp [saturateWithin, empty, saturate_of_nil empty]
  | succ n ih =>
    rw [saturateWithin]
    split
    · rename_i e
      rw [saturate_of_nil e]
    · rename_i c rest e
      rcases hi : h.interfaces c with err | is
      · rw [saturate_of_error e hi]
      · have less := remaining_expanded wf e hi
        rw [saturate_of_ok e hi]
        -- what is found by the expansion is known as well
        refine ih (fun t ht => ?_) (by omega)
        rw [found_advance, List.mem_append] at ht
        rcases ht with old | new
        · exact known t old
        · exact wf.interface_lt hi (mem_unseen_iff.mp new).1

end Worklist

/-! ### The traversals of a hierarchy -/

namespace Hierarchy

variable {h : Hierarchy} {c : Handle} {seed types : List Handle} {ending : Option ResolveError} {n : Nat}

namespace WellFormed

variable (hw : h.WellFormed)
include hw

/-- A walk meets at most as many types as there are. -/
theorem length_le_of_climb (hc : h.Climb [] c types ending) : types.length ≤ h.size := by
  refine hw.length_le_size hc.nodup fun t ht => ?_
  obtain ⟨node, there⟩ := hc.exists_node? t ht
  exact lt_size_of_node? there

theorem lt_size_of_mem_chainInterfaces (list : h.chainInterfaces c = .ok seed) :
    ∀ t ∈ seed, t.index < h.size := by
  intro t ht
  obtain ⟨u, -, step⟩ := exists_extends_of_chainInterfaces list ht
  exact hw.lt_size_of_extends step

/-- The worklist over the interfaces of a chain needs at most as many rounds as there are types. -/
theorem saturateWithin_ofSeed (list : h.chainInterfaces c = .ok seed) (enough : h.size ≤ n) :
    (Worklist.ofSeed seed).saturateWithin h n = some (h.interfaceClosure c) := by
  have known : ∀ t ∈ (Worklist.ofSeed seed).found, t.index < h.size := by
    simpa [Worklist.ofSeed, Worklist.found, List.mem_eraseDups] using hw.lt_size_of_mem_chainInterfaces list
  have all : h.remaining (Worklist.ofSeed seed).expanded ≤ n := by
    simpa [Worklist.ofSeed, remaining_nil] using enough
  rw [Worklist.saturateWithin_eq hw known all, interfaceClosure, list]
  rfl

/-- A closure holds at most as many types as there are. -/
theorem length_le_of_interfaceClosure (e : h.interfaceClosure c = .ok types) : types.length ≤ h.size := by
  obtain ⟨seed, -, closure⟩ := bind_eq_ok_iff.mp e
  refine hw.length_le_size (Worklist.nodup_of_saturate closure) fun t ht => ?_
  obtain ⟨u, -, step⟩ := exists_extends_of_interfaceClosure e ht
  exact hw.lt_size_of_extends step

end WellFormed

end Hierarchy

/-! ### The traversals of a scope -/

namespace Scope

variable {root : Option TypeId} {s : Scope}

/-- **Every traversal ends**, however the types are tangled up and whatever is missing: no loop needs more than
one round for each type and one more, since each type that is met, expanded or found lowers by one the number
of those that are not dealt with. -/
theorem Reachable.traversals_bounded (hs : s.Reachable root) :
    (∀ c : Handle, ∃ m ≤ s.hierarchy.size,
        (∀ n < m, ∃ t, (Ascent.start c).item s.hierarchy n = some (.ok t)) ∧
        (∀ n ≥ m, ∀ t, (Ascent.start c).item s.hierarchy n ≠ some (.ok t)) ∧
        ∀ n > m, (Ascent.start c).item s.hierarchy n = none) ∧
      (∀ (c : Handle) (n : Nat), s.hierarchy.size < n →
        ((Ascent.start c).collectWithin s.hierarchy n).map (·.map .handles) = some (s.ask (.chain c)).1 ∧
        (∀ a, ((Ascent.start c).searchWithin s.hierarchy (fun t => if t = a then some () else none) n).map
            (·.map fun found => .truth found.isSome) = some (s.ask (.inherits c a)).1) ∧
        (∀ name, ((Ascent.start c).searchWithin s.hierarchy
            (fun t => (s.hierarchy.ownMembers t).field? name) n).map (·.map .field) =
          some (s.ask (.field c name)).1) ∧
        ∀ name descriptor, ((Ascent.start c).searchWithin s.hierarchy
            (fun t => (s.hierarchy.ownMembers t).method? ⟨name, descriptor⟩) n).map (·.map .method) =
          some (s.ask (.method c name descriptor)).1) ∧
      (∀ c seed, (s.ask (.chainInterfaces c)).1 = .ok (.handles seed) → ∀ n, s.hierarchy.size ≤ n →
        ((Worklist.ofSeed seed).saturateWithin s.hierarchy n).map (·.map .handles) =
          some (s.ask (.interfaceClosure c)).1) ∧
      (∀ c types, (s.ask (.interfaceClosure c)).1 = .ok (.handles types) → types.length ≤ s.hierarchy.size) ∧
      (∀ (w w' : Ascent) (t : Handle), w.step s.hierarchy = (some (.ok t), w') →
        s.hierarchy.remaining w'.met + 1 = s.hierarchy.remaining w.met) ∧
      ∀ (w : Worklist) (c : Handle) (rest is : List Handle) (hw : w.waiting = c :: rest),
        s.hierarchy.interfaces c = .ok is →
          s.hierarchy.remaining (w.advance hw is).expanded + 1 = s.hierarchy.remaining w.expanded ∧
          s.hierarchy.remaining (w.advance hw is).found + (w.fresh is).length =
            s.hierarchy.remaining w.found := by
  have hw := hs.hierarchy.wellFormed
  refine ⟨fun c => ?_, fun c n enough => ?_, fun c seed list n enough => ?_, fun c types e => ?_,
    fun w w' t => Ascent.remaining_step hw, fun w c rest is first hi =>
      ⟨Worklist.remaining_expanded hw first hi, Worklist.remaining_found hw first hi⟩⟩
  · obtain ⟨types, ending, hc⟩ := Hierarchy.exists_climb s.hierarchy [] c
    refine ⟨types.length, hw.length_le_of_climb hc, fun n hn => ?_, fun n hn t => ?_,
      fun n hn => hc.item_of_length_lt hn⟩
    · exact ⟨types[n], hc.item_of_getElem? (List.getElem?_eq_getElem hn)⟩
    · rcases Nat.eq_or_lt_of_le hn with rfl | later
      · rw [Ascent.start, hc.item_length]
        cases ending <;> simp
      · rw [Ascent.start, hc.item_of_length_lt later]
        simp
  · have enough : s.hierarchy.remaining (Ascent.start c).met < n := by
      simpa [Ascent.start, Hierarchy.remaining_nil] using enough
    simp only [Ascent.collectWithin_eq enough, Ascent.searchWithin_eq enough, hs.ask_eq]
    refine ⟨rfl, fun a => ?_, fun name => rfl, fun name descriptor => rfl⟩
    rw [Hierarchy.answer, Hierarchy.inherits]
    cases (Ascent.start c).search s.hierarchy fun t => if t = a then some () else none <;> rfl
  · have list : s.hierarchy.chainInterfaces c = .ok seed :=
      (hs.ask_eq_ok_iff rfl fun _ => Answer.handles.inj).mp list
    rw [hw.saturateWithin_ofSeed list enough, hs.ask_eq]
    rfl
  · exact hw.length_le_of_interfaceClosure ((hs.ask_eq_ok_iff rfl fun _ => Answer.handles.inj).mp e)

/-- Three types, each with the next one as its interface and the last one with the first; each but the last also
has the next one as its superclass. -/
def ring : Scope :=
  let named (n : UInt32) : TypeId := ⟨⟨.empty⟩, ⟨n⟩⟩
  loaded none [.new (named 1) (.binary (some (named 2)) [named 2]),
    .new (named 2) (.binary (some (named 3)) [named 3]),
    .new (named 3) (.binary none [named 1])]

/-- The limits cannot be lowered: the chain of the first type takes one round more than there are types, and the
closure of the interfaces of the last one as many rounds as there are types. -/
theorem traversals_bounded_ring :
    ring.Reachable none ∧ ring.hierarchy.size = 3 ∧
      (Ascent.start ⟨0⟩).collectWithin ring.hierarchy 3 = none ∧
      ((Ascent.start ⟨0⟩).collectWithin ring.hierarchy 4).map (·.map .handles) =
        some (ring.ask (.chain ⟨0⟩)).1 ∧
      (Worklist.ofSeed [⟨0⟩]).saturateWithin ring.hierarchy 2 = none ∧
      ((Worklist.ofSeed [⟨0⟩]).saturateWithin ring.hierarchy 3).map (·.map .handles) =
        some (ring.ask (.interfaceClosure ⟨2⟩)).1 ∧
      (ring.ask (.interfaceClosure ⟨2⟩)).1 = .ok (.handles [⟨0⟩, ⟨1⟩, ⟨2⟩]) := by
  have reachable : ring.Reachable none := reachable_loaded none _
  have size : ring.hierarchy.size = 3 := by decide +kernel
  have list : (ring.ask (.chainInterfaces ⟨2⟩)).1 = .ok (.handles [⟨0⟩]) := by decide +kernel
  have closure : (ring.ask (.interfaceClosure ⟨2⟩)).1 = .ok (.handles [⟨0⟩, ⟨1⟩, ⟨2⟩]) := by decide +kernel
  obtain ⟨-, walks, worklists, -⟩ := reachable.traversals_bounded
  exact ⟨reachable, size, by decide +kernel, (walks ⟨0⟩ 4 (by omega)).1, by decide +kernel,
    worklists ⟨2⟩ _ list 3 (by omega), closure⟩

end Scope

end Lineage
