import Lineage.Proofs.Likeness
import Lineage.Proofs.Refusal
import Mathlib.Tactic.Common

/-!
# The order of loading

Types that name their ancestors can be added in any order.  Their handles depend on the order, but an
identity stands for the same declaration, and the handles at which an identity is found in two orders
correspond.  So the two hierarchies are alike, and all that is asked about an identity has the same
answer, up to the handles.

Main facts: `run_adds` (what comes of adding a list of declarations), `Hierarchy.ConsistsOf.relates` (two
hierarchies that consist of the same declarations are alike) and at the end `load_perm`.
-/

namespace Lineage

/-! ### Correspondence by identity -/

/-- Handles correspond if one identity is found at both, identities and names if they are equal, members
if nothing but their declaring types is different, and these correspond. -/
def Correspondence.byIdentity (h h' : Hierarchy) : Correspondence where
  handle c c' := ∃ id, h.find? id = some c ∧ h'.find? id = some c'
  id := Eq
  name := Eq
  field f f' := (∃ id, h.find? id = some f.declaring ∧ h'.find? id = some f'.declaring) ∧
    f' = f.withOwner f'.declaring
  method m m' := (∃ id, h.find? id = some m.declaring ∧ h'.find? id = some m'.declaring) ∧
    m' = m.withOwner m'.declaring

namespace Hierarchy

variable {h h' : Hierarchy} {c : Handle} {node : TypeNode} {id : TypeId} {d : Declaration}
  {ds ds' : List Declaration}

/-- The types of the hierarchy are the given declarations, all of them, under some handles. -/
structure ConsistsOf (h : Hierarchy) (ds : List Declaration) : Prop where
  wellFormed : h.WellFormed
  declared : ∀ {c : Handle} {node : TypeNode}, h.node? c = some node → ∃ d ∈ ds, node = d.settle c
  found : ∀ d ∈ ds, ∃ c, h.find? d.id = some c

namespace ConsistsOf

/-- The identities that are found are those of the declarations. -/
theorem exists_find?_iff (hd : h.ConsistsOf ds) :
    (∃ c, h.find? id = some c) ↔ ∃ d ∈ ds, d.id = id := by
  constructor
  · rintro ⟨c, e⟩
    obtain ⟨node, hnode, rfl⟩ := hd.wellFormed.find?_eq_some_iff.mp e
    obtain ⟨d, hm, rfl⟩ := hd.declared hnode
    exact ⟨d, hm, rfl⟩
  · rintro ⟨d, hm, rfl⟩
    exact hd.found d hm

theorem perm (hd : h.ConsistsOf ds) (same : ds.Perm ds') : h.ConsistsOf ds' where
  wellFormed := hd.wellFormed
  declared e := by
    obtain ⟨d, hm, rfl⟩ := hd.declared e
    exact ⟨d, same.mem_iff.mp hm, rfl⟩
  found d hm := hd.found d (same.mem_iff.mpr hm)

section Alike

variable (hd : h.ConsistsOf ds) (hd' : h'.ConsistsOf ds)

include hd hd' in
theorem lawful_byIdentity : (Correspondence.byIdentity h h').Lawful where
  handle_unique := by
    constructor
    · rintro c₁ c₂ c' ⟨id, e, e'⟩ ⟨id₂, e₂, e₂'⟩
      obtain rfl := hd'.wellFormed.id_eq_of_find? e' e₂'
      exact Option.some.inj (e.symm.trans e₂)
    · rintro c c₁' c₂' ⟨id, e, e'⟩ ⟨id₂, e₂, e₂'⟩
      obtain rfl := hd.wellFormed.id_eq_of_find? e e₂
      exact Option.some.inj (e'.symm.trans e₂')
  id_unique := biUnique_eq
  name_unique := biUnique_eq
  field_name := by
    rintro f f' ⟨-, e⟩
    rw [e]
    rfl
  field_static := by
    rintro f f' ⟨-, e⟩
    rw [e]
    rfl
  method_selector := by
    rintro m m' ⟨-, e⟩
    rw [e]
    exact ⟨rfl, rfl⟩

include hd hd' in
/-- An identity is found in both hierarchies or in neither. -/
theorem rel_find?_byIdentity (id : TypeId) :
    Option.Rel (Correspondence.byIdentity h h').handle (h.find? id) (h'.find? id) := by
  have both : (∃ c, h.find? id = some c) ↔ ∃ c', h'.find? id = some c' :=
    hd.exists_find?_iff.trans hd'.exists_find?_iff.symm
  cases e : h.find? id with
  | none =>
    cases e' : h'.find? id with
    | none => exact .none
    | some c' =>
      obtain ⟨c, e⟩ := both.mpr ⟨c', e'⟩
      cases ‹h.find? id = none›.symm.trans e
  | some c =>
    obtain ⟨c', e'⟩ := both.mp ⟨c, e⟩
    rw [e']
    exact .some ⟨id, e, e'⟩

/-- One declaration makes corresponding types under corresponding handles. -/
theorem nodes_byIdentity {c c' : Handle} (hc : (Correspondence.byIdentity h h').handle c c')
    (named : ∀ s is, d.ancestry ≠ .synthetic s is) :
    (Correspondence.byIdentity h h').Nodes (d.settle c) (d.settle c') where
  id := rfl
  ancestry := by
    show Correspondence.Ancestries _ d.ancestry d.ancestry
    cases e : d.ancestry with
    | source s is => exact .source (rel_eq_self s) (forall₂_eq_self is)
    | binary s is => exact .binary (rel_eq_self s) (forall₂_eq_self is)
    | synthetic s is => exact absurd e (named s is)
  members := by
    constructor
    · show List.Forall₂ _ (d.members.withOwner c).fields (d.members.withOwner c').fields
      rw [Members.fields_withOwner, Members.fields_withOwner, List.forall₂_map_left_iff,
        List.forall₂_map_right_iff]
      exact List.forall₂_same.mpr fun f _ => ⟨hc, rfl⟩
    · show List.Forall₂ _ (d.members.withOwner c).methods (d.members.withOwner c').methods
      rw [Members.methods_withOwner, Members.methods_withOwner, List.forall₂_map_left_iff,
        List.forall₂_map_right_iff]
      exact List.forall₂_same.mpr fun m _ => ⟨hc, rfl⟩

include hd hd' in
/-- **Two hierarchies that consist of the same declarations are alike**, whatever the order of their
handles is. -/
theorem relates (root : h.implicitRoot = h'.implicitRoot) (distinct : (ds.map (·.id)).Nodup)
    (named : ∀ d ∈ ds, ∀ s is, d.ancestry ≠ .synthetic s is) :
    (Correspondence.byIdentity h h').Relates h h' where
  lawful := hd.lawful_byIdentity hd'
  root := root ▸ rel_eq_self h.implicitRoot
  find := by
    rintro id _ rfl
    exact hd.rel_find?_byIdentity hd' id
  node := by
    rintro c c' hc
    obtain ⟨id, e, e'⟩ := hc
    obtain ⟨node, hnode, hid⟩ := hd.wellFormed.find?_eq_some_iff.mp e
    obtain ⟨node', hnode', hid'⟩ := hd'.wellFormed.find?_eq_some_iff.mp e'
    obtain ⟨d, hm, rfl⟩ := hd.declared hnode
    obtain ⟨d', hm', rfl⟩ := hd'.declared hnode'
    -- two declarations of one identity are the same declaration
    obtain rfl : d = d' := List.inj_on_of_nodup_map distinct hm hm' (hid.trans hid'.symm)
    rw [hnode, hnode']
    exact .some (nodes_byIdentity ⟨id, e, e'⟩ (named d hm))

end Alike

end ConsistsOf

/-! ### Adding one declaration -/

/-- A type that names its ancestors is taken in if its identity is new and a handle is left. -/
theorem add_of_room (fresh : h.find? d.id = none) (room : h.size < Handle.unassigned.index)
    (named : ∀ s is, d.ancestry ≠ .synthetic s is) :
    ∃ h', h.add d = .ok (.ofIndex h.size, h') := by
  have known : ∀ a ∈ d.ancestry.handles, a.index < h.size :=
    Ancestry.forall_mem_handles_iff.mpr fun s is e => absurd e (named s is)
  have accepted : h.accept d = .ok (.ofIndex h.size) := (accept_eq_ok_iff room).mpr ⟨rfl, fresh, known⟩
  exact ⟨_, by rw [add, accepted]; rfl⟩

/-- When all handles are given out, no type is taken in. -/
theorem add_of_full (fresh : h.find? d.id = none) (full : ¬ h.size < Handle.unassigned.index) :
    h.add d = .error .tooManyTypes := by
  have refused : h.accept d = .error .tooManyTypes := by
    simp [accept, fresh, full]
  rw [add, refused]
  rfl

end Hierarchy

/-! ### Adding many declarations -/

namespace Scope

open Correspondence

variable {root : Option TypeId} {s s' : Scope} {ds ds' : List Declaration}

/-- What comes of the declaration at a position of a list, if nothing but the number of handles is in the
way. -/
def loadOutcome (i : Nat) : Outcome :=
  .added (if i < Handle.unassigned.index then .ok (.ofIndex i) else .error .tooManyTypes)

/-- A declaration with a new identity, which names its ancestors, gets the next handle, if there is
one.  The identities of the other types do not notice. -/
theorem add_named {i : Nat} {d : Declaration}
    (size : s.hierarchy.size = min i Handle.unassigned.index)
    (fresh : s.hierarchy.find? d.id = none) (named : ∀ s is, d.ancestry ≠ .synthetic s is) :
    .added (s.add d).1 = loadOutcome i ∧
      (s.add d).2.hierarchy.size = min (i + 1) Handle.unassigned.index ∧
      (∀ id, id ≠ d.id → (s.add d).2.hierarchy.find? id = s.hierarchy.find? id) ∧
      (i < Handle.unassigned.index → ∃ c, (s.add d).2.hierarchy.find? d.id = some c) := by
  unfold loadOutcome
  by_cases room : i < Handle.unassigned.index
  · have next : s.hierarchy.size = i := by omega
    obtain ⟨h', ha⟩ := Hierarchy.add_of_room fresh (next.symm ▸ room) named
    rw [add_of_ok ha, if_pos room, next]
    refine ⟨rfl, ?_, fun id hid => ?_, fun _ => ⟨.ofIndex s.hierarchy.size, ?_⟩⟩
    · show h'.size = _
      rw [Hierarchy.size_add ha]
      omega
    · show h'.find? id = _
      rw [Hierarchy.find?_add ha, if_neg hid]
    · show h'.find? d.id = _
      rw [Hierarchy.find?_add ha, if_pos rfl]
  · have full : ¬ s.hierarchy.size < Handle.unassigned.index := by omega
    rw [add_of_error (Hierarchy.add_of_full fresh full), if_neg room]
    refine ⟨rfl, ?_, fun _ _ => rfl, fun i => absurd i room⟩
    show s.hierarchy.size = _
    omega

/-- Declarations with new and different identities, which name their ancestors, get the next handles, as
far as these go, and are found then. -/
theorem run_adds (hs : s.Reachable root) {i : Nat}
    (size : s.hierarchy.size = min i Handle.unassigned.index)
    (fresh : ∀ d ∈ ds, s.hierarchy.find? d.id = none) (distinct : (ds.map (·.id)).Nodup)
    (named : ∀ d ∈ ds, ∀ s is, d.ancestry ≠ .synthetic s is) :
    (s.run (ds.map .add)).1 = (List.range' i ds.length).map loadOutcome ∧
      (i + ds.length ≤ Handle.unassigned.index →
        ∀ d ∈ ds, ∃ c, (s.run (ds.map .add)).2.hierarchy.find? d.id = some c) := by
  induction ds generalizing s i with
  | nil => exact ⟨rfl, fun _ d hd => absurd hd List.not_mem_nil⟩
  | cons d ds ih =>
    rw [List.map_cons, List.nodup_cons] at distinct
    obtain ⟨first, others⟩ := List.forall_mem_cons.mp fresh
    obtain ⟨outcome, size', kept, there⟩ := add_named size first (named d List.mem_cons_self)
    have next : (s.add d).2.Reachable root := hs.perform (.add d)
    have fresh' : ∀ e ∈ ds, (s.add d).2.hierarchy.find? e.id = none := by
      intro e he
      have other : e.id ≠ d.id := fun same => distinct.1 (List.mem_map.mpr ⟨e, he, same⟩)
      rw [kept e.id other, others e he]
    obtain ⟨outcomes, all⟩ :=
      ih next size' fresh' distinct.2 fun e he => named e (List.mem_cons_of_mem d he)
    constructor
    · show .added (s.add d).1 :: ((s.add d).2.run (ds.map .add)).1 = _
      rw [outcome, outcomes, List.length_cons, List.range'_succ, List.map_cons]
    · intro room e he
      rw [List.length_cons] at room
      rcases List.mem_cons.mp he with rfl | he
      · obtain ⟨c, hc⟩ := there (by omega)
        exact ⟨c, find?_run next hc (ds.map .add)⟩
      · exact all (by omega) e he

/-- Adding declarations brings in no other types. -/
theorem declared_run_adds {c : Handle} {node : TypeNode}
    (e : (s.run (ds.map .add)).2.hierarchy.node? c = some node) :
    s.hierarchy.node? c = some node ∨ ∃ d ∈ ds, node = d.settle c := by
  induction ds generalizing s with
  | nil => exact .inl e
  | cons d ds ih =>
    rcases ih (s := (s.add d).2) e with before | ⟨d', hd', rfl⟩
    · obtain ⟨k, h', ha, added⟩ | ⟨r, -, refused⟩ := add_cases s d
      · have before : h'.node? c = some node := by rwa [added] at before
        rw [Hierarchy.node?_add ha] at before
        by_cases hc : c = k
        · rw [if_pos hc] at before
          cases before
          exact .inr ⟨d, List.mem_cons_self, by rw [hc]⟩
        · rw [if_neg hc] at before
          exact .inl before
      · rw [refused] at before
        exact .inl before
    · exact .inr ⟨d', List.mem_cons_of_mem d hd', rfl⟩

/-- Questions leave the types as they are. -/
theorem hierarchy_run_asks (s : Scope) (asked : List (Query Symbol)) :
    (s.run (asked.map .ask)).2.hierarchy = s.hierarchy := by
  induction asked generalizing s with
  | nil => rfl
  | cons q asked ih => exact ih (s.ask q).2

/-! ### Loading -/

/-- Declarations added one after the other to a new scope: what comes of each, and the scope. -/
def load (root : Option TypeId) (memoize : Bool) (ds : List Declaration) : List Outcome × Scope :=
  (new root memoize).run (ds.map .add)

theorem reachable_load (root : Option TypeId) (memoize : Bool) (ds : List Declaration) :
    (load root memoize ds).2.Reachable root :=
  (Reachable.new memoize).run _

section Load

variable (root : Option TypeId) (memoize : Bool) (distinct : (ds.map (·.id)).Nodup)
  (named : ∀ d ∈ ds, ∀ s is, d.ancestry ≠ .synthetic s is)
include distinct named

theorem load_outcomes : (load root memoize ds).1 = (List.range ds.length).map loadOutcome := by
  rw [List.range_eq_range']
  exact (run_adds (.new memoize) rfl (fun d _ => Hierarchy.find?_empty root d.id) distinct named).1

/-- If there is a handle for each, the scope consists of the declarations. -/
theorem consistsOf_load (room : ds.length ≤ Handle.unassigned.index) :
    (load root memoize ds).2.hierarchy.ConsistsOf ds where
  wellFormed := (reachable_load root memoize ds).hierarchy.wellFormed
  declared e := by
    rcases declared_run_adds e with before | declared
    · exact absurd (Hierarchy.lt_size_of_node? before) (Nat.not_lt_zero _)
    · exact declared
  found := by
    have start : (new root memoize).Reachable root := .new memoize
    obtain ⟨-, all⟩ :=
      run_adds start (i := 0) rfl (fun d _ => Hierarchy.find?_empty root d.id) distinct named
    exact all (by omega)

end Load

/-- **The order of loading does not matter.**  Declarations with different identities that name their ancestors
are taken in as far as there are handles.  If all are, then in any two orders every question and every walk
comes to the same, up to the handles. -/
theorem load_perm {outcomes outcomes' : List Outcome} {memoize : Bool} (same : ds.Perm ds')
    (distinct : (ds.map (·.id)).Nodup) (named : ∀ d ∈ ds, ∀ s is, d.ancestry ≠ .synthetic s is)
    (first : load root memoize ds = (outcomes, s)) (second : load root memoize ds' = (outcomes', s')) :
    outcomes = (List.range ds.length).map loadOutcome ∧ outcomes' = outcomes ∧
      (ds.length ≤ Handle.unassigned.index →
        (∀ o ∈ outcomes, ∃ c, o = .added (.ok c)) ∧
        (∀ id, (∃ c, s.hierarchy.find? id = some c) ↔ ∃ d ∈ ds, d.id = id) ∧
        (∀ id, (∃ c, s'.hierarchy.find? id = some c) ↔ ∃ d ∈ ds, d.id = id) ∧
        (∀ (asked asked' : List (Query Symbol)) (q q' : Query Symbol),
          (byIdentity s.hierarchy s'.hierarchy).Queries q q' →
          Agrees (byIdentity s.hierarchy s'.hierarchy).Errors
            (byIdentity s.hierarchy s'.hierarchy).Answers
            ((s.run (asked.map .ask)).2.ask q).1 ((s'.run (asked'.map .ask)).2.ask q').1) ∧
        ∀ (c c' : Handle) (n : Nat),
          (byIdentity s.hierarchy s'.hierarchy).handle c c' →
          List.Forall₂
            (Option.Rel (Agrees (byIdentity s.hierarchy s'.hierarchy).Errors
              (byIdentity s.hierarchy s'.hierarchy).handle))
            ((Ascent.start c).take s.hierarchy n) ((Ascent.start c').take s'.hierarchy n)) := by
  have distinct' : (ds'.map (·.id)).Nodup := (same.map _).nodup_iff.mp distinct
  have named' : ∀ d ∈ ds', ∀ s is, d.ancestry ≠ .synthetic s is :=
    fun d hd => named d (same.mem_iff.mpr hd)
  have out := load_outcomes root memoize distinct named
  have out' := load_outcomes root memoize distinct' named'
  have reachable := reachable_load root memoize ds
  have reachable' := reachable_load root memoize ds'
  have consists := consistsOf_load root memoize distinct named
  have consists' := consistsOf_load root memoize distinct' named'
  rw [first] at out reachable consists
  rw [second] at out' reachable' consists'
  rw [← same.length_eq] at out' consists'
  refine ⟨out, out'.trans out.symm, fun room => ?_⟩
  have consists := consists room
  have consists' := (consists' room).perm same.symm
  have roots : s.hierarchy.implicitRoot = s'.hierarchy.implicitRoot :=
    reachable.hierarchy.implicitRoot_eq.trans reachable'.hierarchy.implicitRoot_eq.symm
  have alike := consists.relates consists' roots distinct named
  refine ⟨fun o ho => ?_, fun id => consists.exists_find?_iff, fun id => consists'.exists_find?_iff,
    fun asked asked' q q' hq => ?_, fun c c' n hc => alike.take hc n⟩
  · obtain rfl : outcomes = _ := out
    obtain ⟨i, hi, rfl⟩ := List.mem_map.mp ho
    have inside : i < Handle.unassigned.index := Nat.lt_of_lt_of_le (List.mem_range.mp hi) room
    exact ⟨.ofIndex i, by rw [loadOutcome, if_pos inside]⟩
  · rw [(reachable.run (asked.map .ask)).ask_eq, (reachable'.run (asked'.map .ask)).ask_eq,
      hierarchy_run_asks, hierarchy_run_asks]
    exact alike.answer hq

/-- Two types that inherit from each other, a type below them, and an interface of that type which
extends a missing one. -/
def tangled : List Declaration :=
  let named (n : UInt32) : TypeId := ⟨⟨.empty⟩, ⟨n⟩⟩
  [.new (named 1) (.binary (some (named 2)) [named 4]),
    .new (named 2) (.source (some (named 3)) []),
    .new (named 3) (.binary (some (named 2)) []),
    .new (named 4) (.source none [named 5])]

/-- In the reverse order the circle has other handles, and the same type of it is blamed. -/
theorem load_perm_tangled :
    tangled.Perm tangled.reverse ∧ (tangled.map (·.id)).Nodup ∧
      (∀ d ∈ tangled, ∀ s is, d.ancestry ≠ .synthetic s is) ∧
      ((load none true tangled).2.ask (.chain ⟨0⟩)).1 = .error (.cycle ⟨1⟩) ∧
      ((load none true tangled.reverse).2.ask (.chain ⟨3⟩)).1 = .error (.cycle ⟨2⟩) ∧
      (byIdentity (load none true tangled).2.hierarchy
        (load none true tangled.reverse).2.hierarchy).handle ⟨1⟩ ⟨2⟩ := by
  have same : tangled.Perm tangled.reverse := tangled.reverse_perm.symm
  have distinct : (tangled.map (·.id)).Nodup := by decide
  have named : ∀ d ∈ tangled, ∀ s is, d.ancestry ≠ .synthetic s is := by
    simp [tangled, Declaration.new]
  have e : ((load none true tangled).2.ask (.chain ⟨0⟩)).1 = .error (.cycle ⟨1⟩) := by decide +kernel
  have e' : ((load none true tangled.reverse).2.ask (.chain ⟨3⟩)).1 = .error (.cycle ⟨2⟩) := by
    decide +kernel
  refine ⟨same, distinct, named, e, e', ?_⟩
  have first : load none true tangled = (_, (load none true tangled).2) := rfl
  have second : load none true tangled.reverse = (_, (load none true tangled.reverse).2) := rfl
  obtain ⟨-, -, rest⟩ := load_perm same distinct named first second
  obtain ⟨-, -, -, answers, -⟩ := rest (by decide)
  have found : (byIdentity (load none true tangled).2.hierarchy
      (load none true tangled.reverse).2.hierarchy).handle ⟨0⟩ ⟨3⟩ :=
    ⟨⟨⟨.empty⟩, ⟨1⟩⟩, by decide +kernel, by decide +kernel⟩
  have blamed := answers [] [] _ _ (.chain found)
  have blamed : Agrees _ _ ((load none true tangled).2.ask (.chain ⟨0⟩)).1
    ((load none true tangled.reverse).2.ask (.chain ⟨3⟩)).1 := blamed
  rw [e, e'] at blamed
  cases blamed with
  | error failure =>
    cases failure with
    | cycle type => exact type

end Scope

end Lineage
