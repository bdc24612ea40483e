import Lineage.Proofs.Defect
import Lineage.Proofs.Memoization
import Mathlib.Data.List.Nodup
import Mathlib.Data.List.Perm.Subperm
import Mathlib.Data.Nat.Find

/-!
# The closure of interfaces, level by level

The types that some given ones extend, directly or not, in the order of their distance: the given ones,
then the direct interfaces of these that are new, and so on (`level`).  A worklist, which expands one type
at a time and looks for new ones at every step, goes through just these levels, since what one type adds
is new to the next one in any case (`unseen_append`).

Main facts: `saturate_level` (the worklist comes to the beginning of each level before which nothing
fails), `exists_level_eq_nil` (the levels end), `mem_found_iff` (what the levels hold is what can be
reached), `closureFrom_of_all` and `closureFrom_of_first_failure`, and without levels `of_closureFrom_ok` and
`exists_closureFrom`; at the end all of it for the answers of a scope.
-/

namespace Lineage

/-! ### What is new in a list -/

section Unseen

variable {α : Type} [DecidableEq α]

/-- The first mention of each item that was not found before. -/
def unseen (found candidates : List α) : List α := (candidates.filter (· ∉ found)).eraseDups

variable {found : List α} {a : α}

theorem mem_unseen_iff {l : List α} : a ∈ unseen found l ↔ a ∈ l ∧ a ∉ found := by
  simp [unseen, List.mem_eraseDups]

theorem unseen_nil (found : List α) : unseen found [] = [] := rfl

/-- The new items of two lists are those of the first, then those of the second that are not among
them. -/
theorem unseen_append (found l l' : List α) :
    unseen found (l ++ l') = unseen found l ++ unseen (found ++ unseen found l) l' := by
  have later : (l'.filter (· ∉ found)).removeAll (l.filter (· ∉ found)) =
      l'.filter (· ∉ found ++ unseen found l) := by
    rw [List.removeAll, List.filter_filter]
    refine List.filter_congr fun b _ => ?_
    by_cases hb : b ∈ found <;> simp [hb, mem_unseen_iff]
  rw [unseen, List.filter_append, List.eraseDups_append, later]
  rfl

theorem eraseDups_of_nodup {l : List α} (nodup : l.Nodup) : l.eraseDups = l := by
  induction l with
  | nil => rfl
  | cons b l ih =>
    rw [List.nodup_cons] at nodup
    have others : l.filter (fun x => !x == b) = l := by
      refine List.filter_eq_self.mpr fun x hx => ?_
      have : x ≠ b := fun e => nodup.1 (e ▸ hx)
      simpa using this
    rw [List.eraseDups_cons, others, ih nodup.2]

omit [DecidableEq α] in
/-- If not all items of a list are as they should be, there is a first one that is not. -/
theorem exists_first_not {p : α → Prop} {l : List α} (h : ¬ ∀ b ∈ l, p b) :
    ∃ before b after, l = before ++ b :: after ∧ (∀ x ∈ before, p x) ∧ ¬ p b := by
  induction l with
  | nil => simp at h
  | cons b l ih =>
    by_cases hb : p b
    · have rest : ¬ ∀ x ∈ l, p x := fun all => h (List.forall_mem_cons.mpr ⟨hb, all⟩)
      obtain ⟨before, x, after, rfl, good, bad⟩ := ih rest
      exact ⟨b :: before, x, after, rfl, List.forall_mem_cons.mpr ⟨hb, good⟩, bad⟩
    · exact ⟨[], b, l, rfl, by simp, hb⟩

end Unseen

namespace Hierarchy

variable {h : Hierarchy} {seed : List Handle} {t i : Handle} {m n : Nat}

/-! ### Levels -/

/-- The direct interfaces of a type, none if they cannot be determined. -/
def extended (h : Hierarchy) (t : Handle) : List Handle :=
  match h.interfaces t with
  | .ok is => is
  | .error _ => []

/-- The direct interfaces of a type can be determined. -/
def Expands (h : Hierarchy) (t : Handle) : Prop := ∃ is, h.interfaces t = .ok is

/-- What was found before the `n`-th round, and what is new in that round. -/
def round (h : Hierarchy) (seed : List Handle) : Nat → List Handle × List Handle
  | 0 => ([], seed)
  | n + 1 =>
    let (before, new) := round h seed n
    (before ++ new, unseen (before ++ new) (new.flatMap h.extended))

/-- The `n`-th level above some types: the types themselves at first, then at each level the direct
interfaces of the one before, in order, that are on no level yet. -/
def level (h : Hierarchy) (seed : List Handle) (n : Nat) : List Handle := (h.round seed n).2

/-- The first `n` levels in one list. -/
def found (h : Hierarchy) (seed : List Handle) (n : Nat) : List Handle :=
  (List.range n).flatMap (h.level seed)

theorem level_zero (h : Hierarchy) (seed : List Handle) : h.level seed 0 = seed := rfl

theorem found_succ (h : Hierarchy) (seed : List Handle) (n : Nat) :
    h.found seed (n + 1) = h.found seed n ++ h.level seed n := by
  simp [found, List.range_succ]

theorem round_fst (h : Hierarchy) (seed : List Handle) (n : Nat) :
    (h.round seed n).1 = h.found seed n := by
  induction n with
  | zero => rfl
  | succ n ih => rw [found_succ, ← ih, round, level]

/-- Each level holds the new ones among the direct interfaces of the level before. -/
theorem level_succ (h : Hierarchy) (seed : List Handle) (n : Nat) :
    h.level seed (n + 1) =
      unseen (h.found seed (n + 1)) ((h.level seed n).flatMap h.extended) := by
  rw [found_succ, ← round_fst, level, round]
  rfl

theorem mem_found_iff_level : t ∈ h.found seed n ↔ ∃ m < n, t ∈ h.level seed m := by
  simp [found]

theorem mem_extended_iff : i ∈ h.extended t ↔ h.Extends t i := by
  unfold extended Extends
  cases e : h.interfaces t <;> simp

theorem extended_of_ok {is : List Handle} (e : h.interfaces t = .ok is) : h.extended t = is := by
  rw [extended, e]

/-- After an empty level there are only empty levels. -/
theorem level_eq_nil_of_le (empty : h.level seed n = []) (hnm : n ≤ m) : h.level seed m = [] := by
  induction hnm with
  | refl => exact empty
  | step _ ih => rw [level_succ, ih, List.flatMap_nil, unseen_nil]

/-! ### What is reached -/

/-- What stands on a level can be reached. -/
theorem reached_of_mem_level (ht : t ∈ h.level seed n) :
    ∃ u ∈ seed, Relation.ReflTransGen h.Extends u t := by
  induction n generalizing t with
  | zero => exact ⟨t, ht, .refl⟩
  | succ n ih =>
    rw [level_succ, mem_unseen_iff, List.mem_flatMap] at ht
    obtain ⟨⟨v, hv, hvt⟩, -⟩ := ht
    obtain ⟨u, hu, path⟩ := ih hv
    exact ⟨u, hu, path.tail (mem_extended_iff.mp hvt)⟩

/-- The levels up to an empty one are closed under direct interfaces. -/
theorem found_closed (empty : h.level seed n = []) (ht : t ∈ h.found seed n) (hi : h.Extends t i) :
    i ∈ h.found seed n := by
  obtain ⟨m, hm, ht⟩ := mem_found_iff_level.mp ht
  by_cases old : i ∈ h.found seed (m + 1)
  · obtain ⟨k, hk, hik⟩ := mem_found_iff_level.mp old
    exact mem_found_iff_level.mpr ⟨k, by omega, hik⟩
  · -- a new interface stands on the next level, which is not the empty one
    have next : i ∈ h.level seed (m + 1) := by
      rw [level_succ, mem_unseen_iff]
      exact ⟨List.mem_flatMap.mpr ⟨t, ht, mem_extended_iff.mpr hi⟩, old⟩
    have : m + 1 ≠ n := by
      rintro rfl
      rw [empty] at next
      exact absurd next List.not_mem_nil
    exact mem_found_iff_level.mpr ⟨m + 1, by omega, next⟩

theorem seed_subset_found (empty : h.level seed n = []) (ht : t ∈ seed) : t ∈ h.found seed n := by
  have : n ≠ 0 := by
    rintro rfl
    rw [level_zero] at empty
    rw [empty] at ht
    exact absurd ht List.not_mem_nil
  exact mem_found_iff_level.mpr ⟨0, by omega, ht⟩

/-- A set that holds the given types and is closed under direct interfaces holds all that is reached. -/
theorem mem_of_reached {S : Handle → Prop} (start : ∀ u ∈ seed, S u)
    (closed : ∀ u, S u → ∀ i, h.Extends u i → S i)
    (reached : ∃ u ∈ seed, Relation.ReflTransGen h.Extends u t) : S t := by
  obtain ⟨u, hu, path⟩ := reached
  induction path with
  | refl => exact start u hu
  | tail _ step ih => exact closed _ ih _ step

/-- **The levels up to an empty one hold what can be reached**, and nothing else. -/
theorem mem_found_iff (empty : h.level seed n = []) :
    t ∈ h.found seed n ↔ ∃ u ∈ seed, Relation.ReflTransGen h.Extends u t := by
  constructor
  · intro ht
    obtain ⟨m, -, ht⟩ := mem_found_iff_level.mp ht
    exact reached_of_mem_level ht
  · exact mem_of_reached (fun u hu => seed_subset_found empty hu)
      fun u hu i hi => found_closed empty hu hi

/-! ### The worklist -/

/-- Expanding a row of types puts all that is new among their interfaces at the end. -/
theorem saturate_row (row : List Handle) {w : Worklist} {rest : List Handle}
    (hw : w.waiting = row ++ rest) (all : ∀ t ∈ row, h.Expands t) :
    ∃ w' : Worklist, w'.expanded = w.expanded ++ row ∧
      w'.waiting = rest ++ unseen w.found (row.flatMap h.extended) ∧
      w.saturate h = w'.saturate h := by
  induction row generalizing w rest with
  | nil => exact ⟨w, by simp, by simp [hw, unseen_nil], rfl⟩
  | cons t row ih =>
    obtain ⟨is, hi⟩ := all t List.mem_cons_self
    have hw : w.waiting = t :: (row ++ rest) := hw
    have found : (w.advance hw is).found = w.found ++ unseen w.found is := Worklist.found_advance hw
    have later : (w.advance hw is).waiting = row ++ (rest ++ w.fresh is) :=
      List.append_assoc row rest _
    obtain ⟨w', hexpanded, hwaiting, run⟩ :=
      ih later fun u hu => all u (List.mem_cons_of_mem t hu)
    refine ⟨w', ?_, ?_, ?_⟩
    · rw [hexpanded]
      simp [Worklist.advance]
    · rw [hwaiting, found, List.flatMap_cons, extended_of_ok hi, unseen_append, ← List.append_assoc]
      rfl
    · rw [Worklist.saturate_of_ok hw hi, run]

/-- The worklist comes to the beginning of each level, if nothing fails before. -/
theorem saturate_level (nodup : seed.Nodup) (n : Nat)
    (all : ∀ m < n, ∀ t ∈ h.level seed m, h.Expands t) :
    ∃ w : Worklist, w.expanded = h.found seed n ∧ w.waiting = h.level seed n ∧
      h.closureFrom seed = w.saturate h := by
  induction n with
  | zero => exact ⟨.ofSeed seed, rfl, eraseDups_of_nodup nodup, rfl⟩
  | succ n ih =>
    obtain ⟨w, hexpanded, hwaiting, run⟩ := ih fun m hm => all m (Nat.lt_succ_of_lt hm)
    have hw : w.waiting = h.level seed n ++ [] := by rw [hwaiting, List.append_nil]
    obtain ⟨w', hexpanded', hwaiting', run'⟩ := saturate_row _ hw (all n (Nat.lt_succ_self n))
    refine ⟨w', ?_, ?_, run.trans run'⟩
    · rw [hexpanded', hexpanded, found_succ]
    · rw [hwaiting', List.nil_append, level_succ, found_succ, Worklist.found, hexpanded, hwaiting]

/-- The types of the first levels are all different. -/
theorem nodup_found (nodup : seed.Nodup) (all : ∀ m < n, ∀ t ∈ h.level seed m, h.Expands t) :
    (h.found seed n).Nodup := by
  obtain ⟨w, hexpanded, -, -⟩ := saturate_level nodup n all
  have := w.nodup
  rw [hexpanded] at this
  exact (List.nodup_append.mp this).1

/-- The levels end, since there are only so many types. -/
theorem exists_level_eq_nil (nodup : seed.Nodup)
    (all : ∀ n, ∀ t ∈ h.level seed n, h.Expands t) : ∃ n, h.level seed n = [] := by
  by_contra endless
  have grows (n : Nat) : n ≤ (h.found seed n).length := by
    induction n with
    | zero => exact Nat.zero_le _
    | succ n ih =>
      have : 0 < (h.level seed n).length :=
        List.length_pos_iff.mpr fun empty => endless ⟨n, empty⟩
      rw [found_succ, List.length_append]
      omega
  have known : h.found seed (h.handles.length + 1) ⊆ h.handles := by
    intro t ht
    obtain ⟨m, -, ht⟩ := mem_found_iff_level.mp ht
    obtain ⟨is, hi⟩ := all m t ht
    obtain ⟨node, there⟩ := node?_of_interfaces_ok hi
    exact mem_handles_of_node? there
  have fits := ((nodup_found nodup fun m _ => all m).subperm known).length_le
  have := grows (h.handles.length + 1)
  omega

/-- If all types of all levels can be expanded, the closure is the levels one after the other. -/
theorem closureFrom_of_all (nodup : seed.Nodup) (all : ∀ n, ∀ t ∈ h.level seed n, h.Expands t) :
    ∃ n, h.level seed n = [] ∧ h.closureFrom seed = .ok (h.found seed n) := by
  obtain ⟨n, empty⟩ := exists_level_eq_nil nodup all
  obtain ⟨w, hexpanded, hwaiting, run⟩ := saturate_level nodup n fun m _ => all m
  refine ⟨n, empty, ?_⟩
  rw [run, Worklist.saturate_of_nil (hwaiting.trans empty), hexpanded]

/-- The first type that cannot be expanded, level by level, decides about the failure. -/
theorem closureFrom_of_first_failure (nodup : seed.Nodup) {before after : List Handle}
    {e : ResolveError} (lower : ∀ m < n, ∀ u ∈ h.level seed m, h.Expands u)
    (hlevel : h.level seed n = before ++ t :: after) (nearer : ∀ u ∈ before, h.Expands u)
    (fails : h.interfaces t = .error e) : h.closureFrom seed = .error e := by
  obtain ⟨w, -, hwaiting, run⟩ := saturate_level nodup n lower
  obtain ⟨w', -, hwaiting', run'⟩ := saturate_row before (hwaiting.trans hlevel) nearer
  rw [run, run']
  exact Worklist.saturate_of_error hwaiting' fails

/-- If not all can be expanded, there is a first one that cannot. -/
theorem exists_first_failure (some : ¬ ∀ n, ∀ t ∈ h.level seed n, h.Expands t) :
    ∃ n before t after e, h.level seed n = before ++ t :: after ∧
      (∀ m < n, ∀ u ∈ h.level seed m, h.Expands u) ∧ (∀ u ∈ before, h.Expands u) ∧
      h.interfaces t = .error e := by
  classical
  rw [not_forall] at some
  -- the first level with a failure, and the first failure there
  obtain ⟨before, t, after, hlevel, nearer, stuck⟩ := exists_first_not (Nat.find_spec some)
  refine ⟨Nat.find some, before, t, after, ?_⟩
  have lower : ∀ m < Nat.find some, ∀ u ∈ h.level seed m, h.Expands u :=
    fun m hm => not_not.mp (Nat.find_min some hm)
  cases hi : h.interfaces t with
  | ok is => exact absurd ⟨is, hi⟩ stuck
  | error e => exact ⟨e, hlevel, lower, nearer, rfl⟩

/-- A closure holds what can be reached, and all of that can be expanded. -/
theorem of_closureFrom_ok {types : List Handle} (nodup : seed.Nodup)
    (e : h.closureFrom seed = .ok types) :
    (∀ t, t ∈ types ↔ ∃ u ∈ seed, Relation.ReflTransGen h.Extends u t) ∧
      ∀ t ∈ types, h.Expands t := by
  have all : ∀ n, ∀ t ∈ h.level seed n, h.Expands t := by
    by_contra some
    obtain ⟨n, before, t, after, err, hlevel, lower, nearer, fails⟩ := exists_first_failure some
    cases e.symm.trans (closureFrom_of_first_failure nodup lower hlevel nearer fails)
  obtain ⟨n, empty, run⟩ := closureFrom_of_all nodup all
  cases e.symm.trans run
  refine ⟨fun t => mem_found_iff empty, fun t ht => ?_⟩
  obtain ⟨m, -, ht⟩ := mem_found_iff_level.mp ht
  exact all m t ht

/-- There is a closure if all that can be reached can be expanded. -/
theorem exists_closureFrom (nodup : seed.Nodup)
    (all : ∀ u ∈ seed, ∀ t, Relation.ReflTransGen h.Extends u t → h.Expands t) :
    ∃ types, h.closureFrom seed = .ok types := by
  have levels : ∀ n, ∀ t ∈ h.level seed n, h.Expands t := by
    intro n t ht
    obtain ⟨u, hu, path⟩ := reached_of_mem_level ht
    exact all u hu t path
  obtain ⟨n, -, run⟩ := closureFrom_of_all nodup levels
  exact ⟨_, run⟩

/-- The interfaces of a chain are listed without repetition. -/
theorem nodup_of_chainInterfaces {c : Handle} (e : h.chainInterfaces c = .ok seed) : seed.Nodup := by
  obtain ⟨types, -, along⟩ := bind_eq_ok_iff.mp e
  obtain ⟨declared, -, union⟩ := bind_eq_ok_iff.mp along
  cases union
  exact nodup_eraseDups _

/-- All that is in the closure of interfaces of a type is extended by a type above, or by one that such a
type extends. -/
theorem exists_extends_of_interfaceClosure {c : Handle} {types : List Handle}
    (e : h.interfaceClosure c = .ok types) (ht : t ∈ types) : ∃ u, h.Extended c u ∧ h.Extends u t := by
  obtain ⟨seed, list, closure⟩ := bind_eq_ok_iff.mp e
  obtain ⟨reached, -⟩ := of_closureFrom_ok (nodup_of_chainInterfaces list) closure
  obtain ⟨i, hi, path⟩ := (reached t).mp ht
  obtain ⟨u, above, first⟩ := exists_extends_of_chainInterfaces list hi
  rcases Relation.ReflTransGen.cases_tail path with rfl | ⟨v, before, step⟩
  · exact ⟨u, ⟨u, above, .refl⟩, first⟩
  · exact ⟨v, ⟨u, above, (Relation.ReflTransGen.single first).trans before⟩, step⟩

end Hierarchy

/-! ### The closure that a scope answers with -/

namespace Scope

variable {root : Option TypeId} {s : Scope}

/-- **The closure of interfaces is the least closed set, breadth first**: the levels one after the other, without
repetition.  If not all direct interfaces can be determined, it fails as the first type fails, level by
level.  A type implements what is in its closure. -/
theorem ask_interfaceClosure_levels (hs : s.Reachable root) (c : Handle) :
    (∀ e, (s.ask (.chainInterfaces c)).1 = .error e →
        (s.ask (.interfaceClosure c)).1 = .error e) ∧
      (∀ seed, (s.ask (.chainInterfaces c)).1 = .ok (.handles seed) →
        ((∀ n, ∀ t ∈ s.hierarchy.level seed n, ∃ is, (s.ask (.interfaces t)).1 = .ok (.handles is)) →
          ∃ n types, (∀ m ≥ n, s.hierarchy.level seed m = []) ∧
            types = (List.range n).flatMap (s.hierarchy.level seed) ∧
            (s.ask (.interfaceClosure c)).1 = .ok (.handles types) ∧ types.Nodup ∧
            (∀ t, t ∈ types ↔ ∃ u ∈ seed, Relation.ReflTransGen s.hierarchy.Extends u t) ∧
            (∀ t ∈ seed, t ∈ types) ∧
            (∀ t ∈ types, ∀ i, s.hierarchy.Extends t i → i ∈ types) ∧
            ∀ S : Handle → Prop, (∀ t ∈ seed, S t) →
              (∀ t, S t → ∀ i, s.hierarchy.Extends t i → S i) → ∀ t ∈ types, S t) ∧
        (¬ (∀ n, ∀ t ∈ s.hierarchy.level seed n,
            ∃ is, (s.ask (.interfaces t)).1 = .ok (.handles is)) →
          ∃ n before t after e, s.hierarchy.level seed n = before ++ t :: after ∧
            (∀ m < n, ∀ u ∈ s.hierarchy.level seed m,
              ∃ is, (s.ask (.interfaces u)).1 = .ok (.handles is)) ∧
            (∀ u ∈ before, ∃ is, (s.ask (.interfaces u)).1 = .ok (.handles is)) ∧
            (s.ask (.interfaces t)).1 = .error e ∧ (s.ask (.interfaceClosure c)).1 = .error e)) ∧
      ∀ i,
        ((s.ask (.implements c i)).1 = .ok (.truth true) ↔
          ∃ types, (s.ask (.interfaceClosure c)).1 = .ok (.handles types) ∧ i ∈ types) ∧
        ((s.ask (.implements c i)).1 = .ok (.truth false) ↔
          ∃ types, (s.ask (.interfaceClosure c)).1 = .ok (.handles types) ∧ i ∉ types) ∧
        ∀ e, (s.ask (.implements c i)).1 = .error e ↔ (s.ask (.interfaceClosure c)).1 = .error e := by
  have closure (types : List Handle) : (s.ask (.interfaceClosure c)).1 = .ok (.handles types) ↔
      s.hierarchy.interfaceClosure c = .ok types :=
    hs.ask_eq_ok_iff rfl fun _ => Answer.handles.inj
  have closureFails (e : ResolveError) : (s.ask (.interfaceClosure c)).1 = .error e ↔
      s.hierarchy.interfaceClosure c = .error e :=
    hs.ask_eq_error_iff rfl
  have expands (t : Handle) : (∃ is, (s.ask (.interfaces t)).1 = .ok (.handles is)) ↔
      s.hierarchy.Expands t :=
    exists_congr fun is => hs.ask_eq_ok_iff rfl fun _ => Answer.handles.inj
  refine ⟨fun e failed => ?_, fun seed list => ?_, fun i => ?_⟩
  · have failed : s.hierarchy.chainInterfaces c = .error e := (hs.ask_eq_error_iff rfl).mp failed
    rw [closureFails, Hierarchy.interfaceClosure, failed]
    rfl
  · have list : s.hierarchy.chainInterfaces c = .ok seed :=
      (hs.ask_eq_ok_iff rfl fun _ => Answer.handles.inj).mp list
    have nodup := Hierarchy.nodup_of_chainInterfaces list
    have from_seed : s.hierarchy.interfaceClosure c = s.hierarchy.closureFrom seed := by
      rw [Hierarchy.interfaceClosure, list]
      rfl
    simp only [expands]
    refine ⟨fun all => ?_, fun some => ?_⟩
    · obtain ⟨n, empty, run⟩ := Hierarchy.closureFrom_of_all nodup all
      refine ⟨n, s.hierarchy.found seed n, fun m hm => Hierarchy.level_eq_nil_of_le empty hm, rfl,
        (closure _).mpr (from_seed.trans run), Hierarchy.nodup_found nodup fun m _ => all m,
        fun t => Hierarchy.mem_found_iff empty, fun t ht => Hierarchy.seed_subset_found empty ht,
        fun t ht i hi => Hierarchy.found_closed empty ht hi, ?_⟩
      intro S start closed t ht
      exact Hierarchy.mem_of_reached start closed ((Hierarchy.mem_found_iff empty).mp ht)
    · obtain ⟨n, before, t, after, e, hlevel, lower, nearer, fails⟩ :=
        Hierarchy.exists_first_failure some
      have run := Hierarchy.closureFrom_of_first_failure nodup lower hlevel nearer fails
      exact ⟨n, before, t, after, e, hlevel, lower, nearer, (hs.ask_eq_error_iff rfl).mpr fails,
        (closureFails e).mpr (from_seed.trans run)⟩
  · have implements (b : Bool) : (s.ask (.implements c i)).1 = .ok (.truth b) ↔
        ∃ types, s.hierarchy.interfaceClosure c = .ok types ∧ types.contains i = b :=
      (hs.ask_eq_ok_iff rfl fun _ => Answer.truth.inj).trans map_eq_ok_iff
    refine ⟨?_, ?_, fun e => ?_⟩
    · simp only [implements, closure, List.contains_iff_mem]
    · simp only [implements, closure, ← Bool.not_eq_true, List.contains_iff_mem]
    · rw [closureFails]
      exact (hs.ask_eq_error_iff rfl).trans map_eq_error_iff

/-- A type with two interfaces, one of which names one that leads back to the other; and a type whose
interface names one that is missing. -/
def entangled : Scope :=
  let named (n : UInt32) : TypeId := ⟨⟨.empty⟩, ⟨n⟩⟩
  loaded none [.new (named 1) (.binary none [named 2, named 3]),
    .new (named 2) (.binary none [named 3, named 4]),
    .new (named 3) (.binary none [named 4]),
    .new (named 4) (.binary none [named 2]),
    .new (named 5) (.binary none [named 6]),
    .new (named 6) (.binary none [named 7])]

/-- The closure of the first type is what can be reached from its two interfaces; that of the other one
fails at the interface on its first level. -/
theorem ask_interfaceClosure_entangled :
    entangled.Reachable none ∧
      (entangled.ask (.interfaceClosure ⟨0⟩)).1 = .ok (.handles [⟨1⟩, ⟨2⟩, ⟨3⟩]) ∧
      (∀ t, t ∈ ([⟨1⟩, ⟨2⟩, ⟨3⟩] : List Handle) ↔
        ∃ u ∈ ([⟨1⟩, ⟨2⟩] : List Handle),
          Relation.ReflTransGen entangled.hierarchy.Extends u t) ∧
      ∃ n t e, t ∈ entangled.hierarchy.level [⟨5⟩] n ∧ (entangled.ask (.interfaces t)).1 = .error e ∧
        (entangled.ask (.interfaceClosure ⟨4⟩)).1 = .error e := by
  have reachable : entangled.Reachable none := reachable_loaded none _
  have first : (entangled.ask (.chainInterfaces ⟨0⟩)).1 = .ok (.handles [⟨1⟩, ⟨2⟩]) := by
    decide +kernel
  have closed : (entangled.ask (.interfaceClosure ⟨0⟩)).1 = .ok (.handles [⟨1⟩, ⟨2⟩, ⟨3⟩]) := by
    decide +kernel
  have second : (entangled.ask (.chainInterfaces ⟨4⟩)).1 = .ok (.handles [⟨5⟩]) := by
    decide +kernel
  have stuck : (entangled.ask (.interfaces ⟨5⟩)).1 =
      .error (.missingInterface ⟨5⟩ ⟨⟨.empty⟩, ⟨7⟩⟩) := by
    decide +kernel
  refine ⟨reachable, closed, ?_, ?_⟩
  · obtain ⟨levels, failure⟩ := (ask_interfaceClosure_levels reachable ⟨0⟩).2.1 _ first
    -- the closure is no failure, so all types of all levels can be expanded
    have all := not_not.mp fun some => by
      obtain ⟨_, _, _, _, e, _, _, _, _, fails⟩ := failure some
      cases closed.symm.trans fails
    obtain ⟨n, types, -, -, same, -, reached, -⟩ := levels all
    cases closed.symm.trans same
    exact reached
  · obtain ⟨-, failure⟩ := (ask_interfaceClosure_levels reachable ⟨4⟩).2.1 _ second
    have some : ¬ ∀ n, ∀ t ∈ entangled.hierarchy.level [⟨5⟩] n,
        ∃ is, (entangled.ask (.interfaces t)).1 = .ok (.handles is) := by
      intro all
      obtain ⟨is, expands⟩ := all 0 ⟨5⟩ List.mem_cons_self
      cases stuck.symm.trans expands
    obtain ⟨n, before, t, after, e, hlevel, -, -, fails, closure⟩ := failure some
    exact ⟨n, t, e, by simp [hlevel], fails, closure⟩

end Scope

end Lineage
