import Lineage.Proofs.Level
import Lineage.Proofs.Persistence
import Lineage.Proofs.Union
import Mathlib.Data.List.Infix

/-!
# Inheritance

What a type has, the types below it have as well.  On a complete chain, an ascent from a type that lies on it
is the rest of the ascent from below, so all that is collected along the one is a suffix of what is collected
along the other.  Otherwise the two may end differently: within a circle the upper ascent comes round to types
that the lower one met earlier.  Still the lower one meets every type that the upper one meets.

Main facts: `Climb.mem_of_above` and `Climb.exists_rest` (two ascents), `chainInterfaces_of_inherits` and
`closureFrom_of_subset` (interfaces); at the end the answers of a scope.
-/

namespace Lineage

namespace Hierarchy

variable {h : Hierarchy} {c p t u : Handle} {met types above is : List Handle}
  {ending : Option ResolveError}

/-! ### Ascents from two types -/

namespace Climb

/-- The rest of an ascent, from a type that it meets, is an ascent from there, with the earlier types behind
it. -/
theorem exists_rest (hc : h.Climb met c types ending) (hp : p ∈ types) :
    ∃ before above, types = before ++ p :: above ∧
      h.Climb (before.reverse ++ met) p (p :: above) ending := by
  induction hc with
  | again old => exact absurd hp List.not_mem_nil
  | foreign new e => exact absurd hp List.not_mem_nil
  | broken new e =>
    obtain rfl := List.mem_singleton.mp hp
    exact ⟨[], [], rfl, .broken new e⟩
  | root new e =>
    obtain rfl := List.mem_singleton.mp hp
    exact ⟨[], [], rfl, .root new e⟩
  | @up met c _ types _ new e rest ih =>
    rcases List.mem_cons.mp hp with rfl | hp
    · exact ⟨[], types, rfl, .up new e rest⟩
    · obtain ⟨before, above, rfl, higher⟩ := ih hp
      exact ⟨c :: before, above, rfl, by simpa using higher⟩

/-- The superclass of a type that is met is met too. -/
theorem mem_of_superclass (hw : h.WellFormed) (hc : h.Climb [] c types ending) (ht : t ∈ types)
    (up : h.superclass t = .ok (some u)) : u ∈ types := by
  obtain ⟨before, above, rfl, rest⟩ := hc.exists_rest ht
  cases rest with
  | broken _ e => cases up.symm.trans e
  | root _ e => cases up.symm.trans e
  | up _ e rest =>
    cases up.symm.trans e
    -- the superclass was met up to there, or it is what the ascent meets next
    by_cases old : u ∈ t :: (before.reverse ++ [])
    · simp only [List.append_nil, List.mem_cons, List.mem_reverse] at old
      simp only [List.mem_append, List.mem_cons]
      tauto
    · obtain ⟨node, there⟩ := Hierarchy.exists_node? (hw.superclass_lt up)
      obtain ⟨more, rfl⟩ := rest.starts old there
      simp

/-- **An ascent meets all that lies above a type that it meets**, whatever its end. -/
theorem mem_of_above (hw : h.WellFormed) (hc : h.Climb [] c types ending) (hp : p ∈ types)
    (lies : h.Above p t) : t ∈ types :=
  lies.induction hp fun _ _ => hc.mem_of_superclass hw

/-- From a type of the hierarchy, it meets just what lies above. -/
theorem mem_iff_above {node : TypeNode} (hw : h.WellFormed) (hc : h.Climb [] c types ending)
    (there : h.node? c = some node) : t ∈ types ↔ h.Above c t := by
  constructor
  · exact hc.above_of_mem
  · intro above
    obtain ⟨more, rfl⟩ := hc.starts List.not_mem_nil there
    exact hc.mem_of_above hw List.mem_cons_self above

/-! ### Searches -/

section Search

variable {α : Type} {probe : Handle → Option α}

/-- A search finds something if there is something to be found at a type that is met. -/
theorem exists_search_iff (hc : h.Climb met c types ending) :
    (∃ a, (⟨some c, none, met⟩ : Ascent).search h probe = .ok (some a)) ↔
      ∃ t ∈ types, (probe t).isSome := by
  simp only [hc.search_eq_ok_some_iff, ← Option.isSome_iff_exists, List.findSome?_isSome_iff]

theorem inherits_iff (hc : h.Climb [] c types ending) : h.inherits c p = .ok true ↔ p ∈ types := by
  rw [hc.inherits_eq]
  by_cases hp : p ∈ types
  · simp [hp]
  · rw [if_neg hp]
    cases ending <;> simp [hp]

/-- A type inherits from both types of a circle above it, though it has no chain. -/
example : Scope.belowCircle.hierarchy.inherits ⟨0⟩ ⟨2⟩ = .ok true ∧
    Scope.belowCircle.hierarchy.chain ⟨0⟩ = .error (.cycle ⟨1⟩) := by
  decide +kernel

end Search

end Climb

/-- What can be found from a type upwards can be found from below. -/
theorem exists_search_of_inherits {α : Type} {probe : Handle → Option α} (hw : h.WellFormed)
    (below : h.inherits c p = .ok true)
    (found : ∃ a, (Ascent.start p).search h probe = .ok (some a)) :
    ∃ a, (Ascent.start c).search h probe = .ok (some a) := by
  obtain ⟨types, ending, hc⟩ := exists_climb h [] c
  obtain ⟨higher, ending', hp⟩ := exists_climb h [] p
  obtain ⟨t, ht, declared⟩ := hp.exists_search_iff.mp found
  exact hc.exists_search_iff.mpr
    ⟨t, hc.mem_of_above hw (hc.inherits_iff.mp below) (hp.above_of_mem ht), declared⟩

/-! ### Chains -/

/-- **On a complete chain** the chain of a type of it is the rest. -/
theorem chain_of_inherits (e : h.chain c = .ok types) (below : h.inherits c p = .ok true) :
    ∃ before above, types = before ++ p :: above ∧ h.chain p = .ok (p :: above) := by
  have hc := climb_of_chain_eq_ok e
  obtain ⟨before, above, rfl, higher⟩ := hc.exists_rest (hc.inherits_iff.mp below)
  exact ⟨before, above, rfl, chain_eq (higher.of_subset (by simp) (by simp))⟩

/-- So what is collected along the one is a suffix of what is collected along the other. -/
theorem union_suffix_of_inherits {α : Type} (part : Members → List α) (e : h.chain c = .ok types)
    (below : h.inherits c p = .ok true) :
    ∃ xs, (h.chain p).map (·.flatMap fun t => part (h.ownMembers t)) = .ok xs ∧
      xs <:+ types.flatMap fun t => part (h.ownMembers t) := by
  obtain ⟨before, above, rfl, chain⟩ := chain_of_inherits e below
  have rest : p :: above <:+ before ++ p :: above := List.suffix_append before _
  exact ⟨_, map_eq_ok_iff.mpr ⟨_, chain, rfl⟩, List.IsSuffix.flatMap rest _⟩

/-! ### Interfaces -/

/-- The interfaces along a part of a chain are among those along the whole. -/
theorem interfacesAlong_of_append {before : List Handle}
    (e : h.interfacesAlong (before ++ above) = .ok is) :
    ∃ is', h.interfacesAlong above = .ok is' ∧ is' ⊆ is := by
  obtain ⟨declared, each, union⟩ := bind_eq_ok_iff.mp e
  cases union
  rw [List.mapM_append] at each
  obtain ⟨lower, -, each⟩ := bind_eq_ok_iff.mp each
  obtain ⟨higher, along, all⟩ := bind_eq_ok_iff.mp each
  cases all
  refine ⟨higher.flatten.eraseDups, bind_eq_ok_iff.mpr ⟨higher, along, rfl⟩, fun i hi => ?_⟩
  rw [List.mem_eraseDups] at hi ⊢
  rw [List.flatten_append]
  exact List.mem_append_right _ hi

theorem chainInterfaces_of_inherits (e : h.chainInterfaces c = .ok is)
    (below : h.inherits c p = .ok true) :
    ∃ is', h.chainInterfaces p = .ok is' ∧ is' ⊆ is := by
  obtain ⟨types, chain, along⟩ := bind_eq_ok_iff.mp e
  obtain ⟨before, above, rfl, chain'⟩ := chain_of_inherits chain below
  obtain ⟨is', along', sub⟩ := interfacesAlong_of_append along
  exact ⟨is', bind_eq_ok_iff.mpr ⟨_, chain', along'⟩, sub⟩

/-- **Fewer types have a smaller closure**, if there is a closure at all. -/
theorem closureFrom_of_subset {seed fewer : List Handle} (nodup : seed.Nodup) (nodup' : fewer.Nodup)
    (sub : fewer ⊆ seed) (e : h.closureFrom seed = .ok types) :
    ∃ types', h.closureFrom fewer = .ok types' ∧ types' ⊆ types := by
  obtain ⟨reached, expands⟩ := of_closureFrom_ok nodup e
  obtain ⟨types', e'⟩ := exists_closureFrom nodup' fun u hu t path =>
    expands t ((reached t).mpr ⟨u, sub hu, path⟩)
  refine ⟨types', e', fun t ht => ?_⟩
  obtain ⟨u, hu, path⟩ := ((of_closureFrom_ok nodup' e').1 t).mp ht
  exact (reached t).mpr ⟨u, sub hu, path⟩

theorem interfaceClosure_of_inherits (e : h.interfaceClosure c = .ok types)
    (below : h.inherits c p = .ok true) :
    ∃ types', h.interfaceClosure p = .ok types' ∧ types' ⊆ types := by
  obtain ⟨seed, list, closure⟩ := bind_eq_ok_iff.mp e
  obtain ⟨fewer, list', sub⟩ := chainInterfaces_of_inherits list below
  obtain ⟨types', closure', sub'⟩ :=
    closureFrom_of_subset (nodup_of_chainInterfaces list) (nodup_of_chainInterfaces list') sub closure
  exact ⟨types', bind_eq_ok_iff.mpr ⟨fewer, list', closure'⟩, sub'⟩

theorem implements_iff {i : Handle} (e : h.interfaceClosure c = .ok types) :
    h.implements c i = .ok true ↔ i ∈ types := by
  rw [implements, map_eq_ok_iff]
  simp [e]

end Hierarchy

/-! ### The answers of a scope -/

namespace Scope

open Hierarchy

variable {root : Option TypeId} {s : Scope} {c p : Handle}

/-- **Inheritance is monotone.**  What is found from an ancestor is found from the type, if with a nearer
declaration; the chain and the member lists of the ancestor are suffixes of those of the type, and its
interfaces and their closure are subsets. -/
theorem Reachable.ask_below (hs : s.Reachable root)
    (below : (s.ask (.inherits c p)).1 = .ok (.truth true)) :
    (∀ name, (∃ f, (s.ask (.field p name)).1 = .ok (.field (some f))) →
        ∃ f, (s.ask (.field c name)).1 = .ok (.field (some f))) ∧
      (∀ name descriptor, (∃ m, (s.ask (.method p name descriptor)).1 = .ok (.method (some m))) →
        ∃ m, (s.ask (.method c name descriptor)).1 = .ok (.method (some m))) ∧
      (∀ types, (s.ask (.chain c)).1 = .ok (.handles types) →
        (∃ before above, types = before ++ p :: above ∧
          (s.ask (.chain p)).1 = .ok (.handles (p :: above))) ∧
        (∃ ms ms', (s.ask (.chainMethods c)).1 = .ok (.methods ms) ∧
          (s.ask (.chainMethods p)).1 = .ok (.methods ms') ∧ ms' <:+ ms) ∧
        (∃ fs fs', (s.ask (.chainInstanceFields c)).1 = .ok (.fields fs) ∧
          (s.ask (.chainInstanceFields p)).1 = .ok (.fields fs') ∧ fs' <:+ fs) ∧
        ∃ gs gs', (s.ask (.chainStaticFields c)).1 = .ok (.fields gs) ∧
          (s.ask (.chainStaticFields p)).1 = .ok (.fields gs') ∧ gs' <:+ gs) ∧
      (∀ is, (s.ask (.chainInterfaces c)).1 = .ok (.handles is) →
        ∃ is', (s.ask (.chainInterfaces p)).1 = .ok (.handles is') ∧ ∀ i ∈ is', i ∈ is) ∧
      ∀ all, (s.ask (.interfaceClosure c)).1 = .ok (.handles all) →
        (∃ all', (s.ask (.interfaceClosure p)).1 = .ok (.handles all')) ∧
        ∀ i, (s.ask (.implements p i)).1 = .ok (.truth true) →
          (s.ask (.implements c i)).1 = .ok (.truth true) := by
  have hw := hs.hierarchy.wellFormed
  have handles {q : Query Symbol} {x : Except ResolveError (List Handle)} {types : List Handle}
      (hq : s.hierarchy.answer q = x.map .handles) :
      (s.ask q).1 = .ok (.handles types) ↔ x = .ok types :=
    hs.ask_eq_ok_iff hq fun _ => Answer.handles.inj
  have truth {q : Query Symbol} {x : Except ResolveError Bool}
      (hq : s.hierarchy.answer q = x.map .truth) :
      (s.ask q).1 = .ok (.truth true) ↔ x = .ok true :=
    hs.ask_eq_ok_iff hq fun _ => Answer.truth.inj
  have fields {q : Query Symbol} {x : Except ResolveError (List Field)} {fs : List Field}
      (hq : s.hierarchy.answer q = x.map .fields) :
      (s.ask q).1 = .ok (.fields fs) ↔ x = .ok fs :=
    hs.ask_eq_ok_iff hq fun _ => Answer.fields.inj
  have methods {q : Query Symbol} {x : Except ResolveError (List Method)} {ms : List Method}
      (hq : s.hierarchy.answer q = x.map .methods) :
      (s.ask q).1 = .ok (.methods ms) ↔ x = .ok ms :=
    hs.ask_eq_ok_iff hq fun _ => Answer.methods.inj
  have below : s.hierarchy.inherits c p = .ok true := (truth rfl).mp below
  refine ⟨fun name found => ?_, fun name descriptor found => ?_, fun types chain => ?_,
    fun is list => ?_, fun all closure => ?_⟩
  · have search (t : Handle) : (∃ f, (s.ask (.field t name)).1 = .ok (.field (some f))) ↔
        ∃ f, s.hierarchy.findField t name = .ok (some f) :=
      exists_congr fun f => hs.ask_eq_ok_iff rfl fun _ => Answer.field.inj
    exact (search c).mpr (exists_search_of_inherits hw below ((search p).mp found))
  · have search (t : Handle) :
        (∃ m, (s.ask (.method t name descriptor)).1 = .ok (.method (some m))) ↔
          ∃ m, s.hierarchy.findMethod t ⟨name, descriptor⟩ = .ok (some m) :=
      exists_congr fun m => hs.ask_eq_ok_iff rfl fun _ => Answer.method.inj
    exact (search c).mpr (exists_search_of_inherits hw below ((search p).mp found))
  · have chain : s.hierarchy.chain c = .ok types := (handles rfl).mp chain
    obtain ⟨before, above, split, chain'⟩ := chain_of_inherits chain below
    obtain ⟨ms', e, hm⟩ := union_suffix_of_inherits Members.methods chain below
    obtain ⟨fs', e', hf⟩ := union_suffix_of_inherits Members.instanceFields chain below
    obtain ⟨gs', e'', hg⟩ := union_suffix_of_inherits Members.staticFields chain below
    exact ⟨⟨before, above, split, (handles rfl).mpr chain'⟩,
      ⟨_, ms', (methods rfl).mpr (chainMethods_of_ok chain), (methods rfl).mpr e, hm⟩,
      ⟨_, fs', (fields rfl).mpr (chainInstanceFields_of_ok chain), (fields rfl).mpr e', hf⟩,
      ⟨_, gs', (fields rfl).mpr (chainStaticFields_of_ok chain), (fields rfl).mpr e'', hg⟩⟩
  · obtain ⟨is', list', sub⟩ := chainInterfaces_of_inherits ((handles rfl).mp list) below
    exact ⟨is', (handles rfl).mpr list', fun i hi => sub hi⟩
  · have closure : s.hierarchy.interfaceClosure c = .ok all := (handles rfl).mp closure
    obtain ⟨all', closure', sub⟩ := interfaceClosure_of_inherits closure below
    refine ⟨⟨all', (handles rfl).mpr closure'⟩, fun i implemented => ?_⟩
    have hi := (implements_iff closure').mp ((truth rfl).mp implemented)
    exact (truth rfl).mpr ((implements_iff closure).mpr (sub hi))

/-- A class with a superclass that has an interface, and that an interface above it; and a class whose
superclass has a field and no superclass that is there. -/
def descending : Scope :=
  let named (n : UInt32) : TypeId := ⟨⟨.empty⟩, ⟨n⟩⟩
  loaded none [.new (named 1) (.binary none []),
    .new (named 2) (.binary none [named 1]),
    .new (named 3) (.binary none [named 2]),
    .new (named 4) (.binary (some (named 3)) []),
    { Declaration.new (named 5) (.binary (some (named 7)) []) with
      members := ⟨Roster.empty.add (.new ⟨1⟩ .empty .empty none), .empty⟩ },
    .new (named 6) (.binary (some (named 5)) [])]

/-- The one class has the interfaces of its superclass; the other one has the field, though it has no
chain. -/
theorem ask_below_descending :
    descending.Reachable none ∧ (descending.ask (.inherits ⟨3⟩ ⟨2⟩)).1 = .ok (.truth true) ∧
      (∃ before above, [⟨3⟩, ⟨2⟩] = before ++ ⟨2⟩ :: above ∧
        (descending.ask (.chain ⟨2⟩)).1 = .ok (.handles (⟨2⟩ :: above))) ∧
      (descending.ask (.implements ⟨3⟩ ⟨0⟩)).1 = .ok (.truth true) ∧
      (descending.ask (.inherits ⟨5⟩ ⟨4⟩)).1 = .ok (.truth true) ∧
      (descending.ask (.chain ⟨5⟩)).1 = .error (.missingSuperclass ⟨4⟩ ⟨⟨.empty⟩, ⟨7⟩⟩) ∧
      ∃ f, (descending.ask (.field ⟨5⟩ ⟨1⟩)).1 = .ok (.field (some f)) := by
  have reachable : descending.Reachable none := reachable_loaded none _
  have complete : (descending.ask (.inherits ⟨3⟩ ⟨2⟩)).1 = .ok (.truth true) := by decide +kernel
  have broken : (descending.ask (.inherits ⟨5⟩ ⟨4⟩)).1 = .ok (.truth true) := by decide +kernel
  have chain : (descending.ask (.chain ⟨3⟩)).1 = .ok (.handles [⟨3⟩, ⟨2⟩]) := by decide +kernel
  have closure : (descending.ask (.interfaceClosure ⟨3⟩)).1 = .ok (.handles [⟨1⟩, ⟨0⟩]) := by
    decide +kernel
  have implemented : (descending.ask (.implements ⟨2⟩ ⟨0⟩)).1 = .ok (.truth true) := by
    decide +kernel
  have field : (descending.ask (.field ⟨4⟩ ⟨1⟩)).1 =
      .ok (.field (some (.withOwner ⟨4⟩ (.new ⟨1⟩ .empty .empty none)))) := by
    decide +kernel
  obtain ⟨-, -, chains, -, closures⟩ := reachable.ask_below complete
  obtain ⟨fields, -⟩ := reachable.ask_below broken
  exact ⟨reachable, complete, (chains _ chain).1, (closures _ closure).2 ⟨0⟩ implemented, broken,
    by decide +kernel, fields ⟨1⟩ ⟨_, field⟩⟩

end Scope

end Lineage
