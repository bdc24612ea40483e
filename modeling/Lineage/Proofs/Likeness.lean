import Lineage.Proofs.Climb
import Lineage.Proofs.Correspondence
import Lineage.Proofs.Nearest
import Lineage.Proofs.Saturation

/-!
# Hierarchies that are alike

Two hierarchies are alike under a correspondence if corresponding identities are found at corresponding
handles and corresponding handles lead to corresponding types.  Then all that is found out about
corresponding types corresponds, whatever the handles are: nothing but equality of handles, identities
and names is ever asked for.

Whether a field is static matters only where fields are listed, so hierarchies that are alike but for this
(`Resembles`) are told apart by nothing else.

Main facts: `Resembles.climb` (two ascents run side by side), `Resembles.saturate` (so do two worklists),
`Resembles.answer` and `Relates.answer` (so do questions), and `agrees_addAll` (so does the declaration of
members).
-/

namespace Lineage

/-- Whether a question asks for fields in a list, which are the static ones, or those that are not, or both
apart. -/
def Query.listsFields {ν : Type} : Query ν → Bool
  | ownInstanceFields _ | ownStaticFields _ | chainInstanceFields _ | chainStaticFields _
  | chainFields _ => true
  | _ => false

namespace Correspondence

/-- The hierarchies hold corresponding types, found under corresponding identities. -/
structure Resembles (r : Correspondence) (h h' : Hierarchy) : Prop where
  coherent : r.Coherent
  root : Option.Rel r.id h.implicitRoot h'.implicitRoot
  find : ∀ {i i' : TypeId}, r.id i i' → Option.Rel r.handle (h.find? i) (h'.find? i')
  node : ∀ {c c' : Handle}, r.handle c c' → Option.Rel r.Nodes (h.node? c) (h'.node? c')

/-- The hierarchies are alike in static fields as well. -/
structure Relates (r : Correspondence) (h h' : Hierarchy) : Prop extends r.Resembles h h' where
  lawful : r.Lawful
  coherent := lawful.toCoherent

variable {r : Correspondence} {h h' : Hierarchy} {c c' : Handle}

/-! ### Member tables -/

/-- One more item on both sides, if its key is taken on both or on neither. -/
theorem agrees_insert {κ α : Type} [Ord κ] [Std.TransOrd κ] [Std.LawfulEqOrd κ] {key : α → κ}
    {s s' : Roster key} {R : α → α → Prop} {a a' : α} (same : s.contains (key a) = s'.contains (key a'))
    (hs : List.Forall₂ R s.toList s'.toList) (ha : R a a') :
    Agrees R (fun u u' => List.Forall₂ R u.toList u'.toList) (s.insert a) (s'.insert a') := by
  cases taken : s'.contains (key a') with
  | true =>
    rw [Roster.insert_of_taken (same.trans taken), Roster.insert_of_taken taken]
    exact .error ha
  | false =>
    obtain ⟨added, listed⟩ := Roster.insert_of_new (same.trans taken)
    obtain ⟨added', listed'⟩ := Roster.insert_of_new taken
    rw [added, added']
    refine .ok ?_
    rw [listed, listed']
    exact List.rel_append hs (.cons ha .nil)

section Tables

variable {t t' : Members}

theorem Tables.field? (hl : r.Coherent) (ht : r.Tables t t') {n n' : Symbol} (hn : r.name n n') :
    Option.Rel r.field (t.field? n) (t'.field? n') := by
  rw [Members.field?, Members.field?, Roster.find?_eq_find?_toList, Roster.find?_eq_find?_toList]
  refine rel_find? ht.fields fun f f' hf => ?_
  exact decide_eq_decide.mpr (Relator.rel_eq hl.name_unique (hl.field_name hf) hn)

/-- Corresponding selectors are equal to corresponding ones at the same time. -/
theorem Coherent.selector_eq_iff (hl : r.Coherent) {s s' u u' : Selector} (hs : r.Selectors s s')
    (hu : r.Selectors u u') : s = u ↔ s' = u' := by
  have name : s.name = u.name ↔ s'.name = u'.name := Relator.rel_eq hl.name_unique hs.name hu.name
  have descriptor : s.descriptor = u.descriptor ↔ s'.descriptor = u'.descriptor :=
    Relator.rel_eq hl.name_unique hs.descriptor hu.descriptor
  rw [Selector.mk.injEq, Selector.mk.injEq, name, descriptor]

theorem Tables.method? (hl : r.Coherent) (ht : r.Tables t t') {s s' : Selector}
    (hs : r.Selectors s s') : Option.Rel r.method (t.method? s) (t'.method? s') := by
  rw [Members.method?, Members.method?, Roster.find?_eq_find?_toList, Roster.find?_eq_find?_toList]
  refine rel_find? ht.methods fun m m' hm => ?_
  exact decide_eq_decide.mpr (hl.selector_eq_iff (hl.method_selector hm) hs)

theorem Tables.hasField_eq (hl : r.Coherent) (ht : r.Tables t t') {n n' : Symbol} (hn : r.name n n') :
    t.hasField n = t'.hasField n' := by
  rw [Members.hasField, Members.hasField, Roster.contains_eq_isSome_find?,
    Roster.contains_eq_isSome_find?]
  exact isSome_eq_of_rel (ht.field? hl hn)

theorem Tables.hasMethod_eq (hl : r.Coherent) (ht : r.Tables t t') {s s' : Selector}
    (hs : r.Selectors s s') : t.hasMethod s = t'.hasMethod s' := by
  rw [Members.hasMethod, Members.hasMethod, Roster.contains_eq_isSome_find?,
    Roster.contains_eq_isSome_find?]
  exact isSome_eq_of_rel (ht.method? hl hs)

/-- Corresponding members are refused on both sides or taken in on both. -/
theorem Tables.addField (hl : r.Coherent) (ht : r.Tables t t') {f f' : Field} (hf : r.field f f') :
    Agrees r.field r.Tables (t.addField f) (t'.addField f') :=
  (agrees_insert (ht.hasField_eq hl (hl.field_name hf)) ht.fields hf).map
    fun _ _ fields => ⟨fields, ht.methods⟩

theorem Tables.addMethod (hl : r.Coherent) (ht : r.Tables t t') {m m' : Method}
    (hm : r.method m m') : Agrees r.method r.Tables (t.addMethod m) (t'.addMethod m') :=
  (agrees_insert (ht.hasMethod_eq hl (hl.method_selector hm)) ht.methods hm).map
    fun _ _ methods => ⟨ht.fields, methods⟩

theorem Tables.staticFields (hl : r.Lawful) (ht : r.Tables t t') :
    List.Forall₂ r.field t.staticFields t'.staticFields :=
  forall₂_filter ht.fields fun _ _ => hl.field_static

theorem Tables.instanceFields (hl : r.Lawful) (ht : r.Tables t t') :
    List.Forall₂ r.field t.instanceFields t'.instanceFields :=
  forall₂_filter ht.fields fun _ _ hf => congrArg not (hl.field_static hf)

theorem tables_empty (r : Correspondence) : r.Tables .empty .empty := ⟨.nil, .nil⟩

/-- The first methods of their selectors are at the same places. -/
theorem Coherent.firstPerSelector (hl : r.Coherent) {ms ms' : List Method}
    (hm : List.Forall₂ r.method ms ms') :
    List.Forall₂ r.method (Hierarchy.firstPerSelector ms) (Hierarchy.firstPerSelector ms') := by
  refine forall₂_eraseDupsBy (fun m m' n n' hm hn => ?_) hm
  rw [Bool.eq_iff_iff, beq_iff_eq, beq_iff_eq]
  exact hl.selector_eq_iff (hl.method_selector hm) (hl.method_selector hn)

end Tables

namespace Resembles

/-! ### Direct ancestors -/

section Edges

variable {n n' : TypeNode}

theorem resolve (hr : r.Resembles h h') (hc : r.handle c c') :
    Agrees r.Errors r.Nodes (h.resolve c) (h'.resolve c') := by
  obtain ⟨e, e'⟩ | ⟨n, n', e, e', hn⟩ := rel_cases (hr.node hc)
  · rw [Hierarchy.resolve_of_none e, Hierarchy.resolve_of_none e']
    exact .error (.unknownType hc)
  · rw [Hierarchy.resolve_of_some e, Hierarchy.resolve_of_some e']
    exact .ok hn

theorem superclassName (hr : r.Resembles h h') (hn : r.Nodes n n') :
    Option.Rel r.id (h.superclassName n) (h'.superclassName n') := by
  have ancestry := hn.ancestry
  rw [Hierarchy.superclassName, Hierarchy.superclassName]
  revert ancestry
  cases n.ancestry <;> cases n'.ancestry <;> intro ancestry <;> cases ancestry
  · rename_i superclass interfaces
    cases superclass with
    | some hi => exact .some hi
    | none =>
      -- the root itself has no superclass on either side
      refine rel_filter hr.root fun i i' hi => ?_
      have : i = n.id ↔ i' = n'.id := Relator.rel_eq hr.coherent.id_unique hi hn.id
      simp [bne, this]
  · rename_i superclass interfaces
    exact superclass
  · exact .none

theorem superclass (hr : r.Resembles h h') (hc : r.handle c c') :
    Agrees r.Errors (Option.Rel r.handle) (h.superclass c) (h'.superclass c') := by
  obtain ⟨e, e'⟩ | ⟨n, n', e, e', hn⟩ := rel_cases (hr.node hc)
  · rw [Hierarchy.superclass_of_foreign e, Hierarchy.superclass_of_foreign e']
    exact .error (.unknownType hc)
  · have looked_up (hs : ∀ p is, n.ancestry ≠ .synthetic p is)
        (hs' : ∀ p is, n'.ancestry ≠ .synthetic p is) :
        Agrees r.Errors (Option.Rel r.handle) (h.superclass c) (h'.superclass c') := by
      rw [Hierarchy.superclass_of_looked_up e hs, Hierarchy.superclass_of_looked_up e' hs']
      refine rel_elim (hr.superclassName hn) (.ok .none) fun i i' hi => ?_
      exact rel_elim (hr.find hi) (.error (.missingSuperclass hc hi)) fun _ _ hp => .ok (.some hp)
    have ancestry := hn.ancestry
    generalize hs : n.ancestry = a at ancestry
    generalize hs' : n'.ancestry = a' at ancestry
    cases ancestry with
    | source _ _ => exact looked_up (by simp [hs]) (by simp [hs'])
    | binary _ _ => exact looked_up (by simp [hs]) (by simp [hs'])
    | synthetic parent _ =>
      rw [Hierarchy.superclass_of_synthetic e hs, Hierarchy.superclass_of_synthetic e' hs']
      exact .ok parent

theorem namedInterface (hr : r.Resembles h h') (hc : r.handle c c') {i i' : TypeId} (hi : r.id i i') :
    Agrees r.Errors r.handle (h.namedInterface c i) (h'.namedInterface c' i') := by
  rw [Hierarchy.namedInterface_eq, Hierarchy.namedInterface_eq]
  exact rel_elim (hr.find hi) (.error (.missingInterface hc hi)) fun _ _ => .ok

theorem namedInterfaces (hr : r.Resembles h h') (hc : r.handle c c') {a a' : Ancestry}
    (ha : r.Ancestries a a') :
    Agrees r.Errors (List.Forall₂ r.handle) (h.namedInterfaces c a) (h'.namedInterfaces c' a') := by
  cases ha with
  | source superclass interfaces => exact agrees_mapM interfaces fun _ _ => hr.namedInterface hc
  | binary superclass interfaces => exact agrees_mapM interfaces fun _ _ => hr.namedInterface hc
  | synthetic superclass interfaces => exact .ok interfaces

theorem interfaces (hr : r.Resembles h h') (hc : r.handle c c') :
    Agrees r.Errors (List.Forall₂ r.handle) (h.interfaces c) (h'.interfaces c') := by
  refine (hr.resolve hc).bind fun n n' hn => ?_
  refine (hr.namedInterfaces hc hn.ancestry).bind fun is is' his => ?_
  exact .ok (forall₂_eraseDups hr.coherent.handle_unique his)

theorem ownMembers (hr : r.Resembles h h') (hc : r.handle c c') :
    r.Tables (h.ownMembers c) (h'.ownMembers c') := by
  obtain ⟨e, e'⟩ | ⟨n, n', e, e', hn⟩ := rel_cases (hr.node hc)
  · rw [Hierarchy.ownMembers_of_none e, Hierarchy.ownMembers_of_none e']
    exact tables_empty r
  · rw [Hierarchy.ownMembers_of_some e, Hierarchy.ownMembers_of_some e']
    exact hn.members

end Edges

/-! ### Ascents -/

section Ascents

variable {met met' types : List Handle} {ending : Option ResolveError}

/-- An ascent from a corresponding type has a corresponding course. -/
theorem climb (hr : r.Resembles h h') (climb : h.Climb met c types ending)
    (hmet : List.Forall₂ r.handle met met') (hc : r.handle c c') :
    ∃ types' ending', h'.Climb met' c' types' ending' ∧ List.Forall₂ r.handle types types' ∧
      Option.Rel r.Errors ending ending' := by
  have unique := hr.coherent.handle_unique
  have new {met met' : List Handle} {c c' : Handle} (hmet : List.Forall₂ r.handle met met')
      (hc : r.handle c c') (new : c ∉ met) : c' ∉ met' :=
    fun old => new ((List.rel_mem unique hc hmet).mpr old)
  induction climb generalizing met' c' with
  | again old =>
    have old' := (List.rel_mem unique hc hmet).mp old
    exact ⟨[], _, .again old', .nil, .some (.cycle hc)⟩
  | foreign fresh e =>
    obtain ⟨_, e', failure⟩ := (hr.superclass hc).of_error e
    cases failure with
    | unknownType type =>
      obtain rfl := unique.2 type hc
      exact ⟨[], _, .foreign (new hmet hc fresh) e', .nil, .some (.unknownType hc)⟩
  | broken fresh e =>
    obtain ⟨_, e', failure⟩ := (hr.superclass hc).of_error e
    cases failure with
    | missingSuperclass type missing =>
      obtain rfl := unique.2 type hc
      exact ⟨[_], _, .broken (new hmet hc fresh) e', .cons hc .nil,
        .some (.missingSuperclass hc missing)⟩
  | root fresh e =>
    obtain ⟨_, e', parent⟩ := (hr.superclass hc).of_ok e
    cases parent
    exact ⟨[_], none, .root (new hmet hc fresh) e', .cons hc .nil, .none⟩
  | up fresh e _ ih =>
    obtain ⟨_, e', parent⟩ := (hr.superclass hc).of_ok e
    cases parent with
    | some hp =>
      obtain ⟨types', ending', rest, htypes, hending⟩ := ih (.cons hc hmet) hp
      exact ⟨_, ending', .up (new hmet hc fresh) e' rest, .cons hc htypes, hending⟩

/-- Two ascents from corresponding types side by side. -/
theorem exists_climbs (hr : r.Resembles h h') (hc : r.handle c c') :
    ∃ types types' ending ending', h.Climb [] c types ending ∧ h'.Climb [] c' types' ending' ∧
      List.Forall₂ r.handle types types' ∧ Option.Rel r.Errors ending ending' := by
  obtain ⟨types, ending, climb⟩ := Hierarchy.exists_climb h [] c
  obtain ⟨types', ending', climb', htypes, hending⟩ := hr.climb climb .nil hc
  exact ⟨types, types', ending, ending', climb, climb', htypes, hending⟩

theorem chain (hr : r.Resembles h h') (hc : r.handle c c') :
    Agrees r.Errors (List.Forall₂ r.handle) (h.chain c) (h'.chain c') := by
  obtain ⟨types, types', ending, ending', climb, climb', htypes, hending⟩ := hr.exists_climbs hc
  have e : h.chain c = _ := climb.collect_eq
  have e' : h'.chain c' = _ := climb'.collect_eq
  rw [e, e']
  exact rel_elim hending (.ok htypes) fun _ _ => .error

/-- Searches find corresponding things if they find corresponding things at corresponding types. -/
theorem search (hr : r.Resembles h h') (hc : r.handle c c') {α α' : Type} {V : α → α' → Prop}
    {probe : Handle → Option α} {probe' : Handle → Option α'}
    (found : ∀ t t', r.handle t t' → Option.Rel V (probe t) (probe' t')) :
    Agrees r.Errors (Option.Rel V) ((Ascent.start c).search h probe)
      ((Ascent.start c').search h' probe') := by
  obtain ⟨types, types', ending, ending', climb, climb', htypes, hending⟩ := hr.exists_climbs hc
  rw [Ascent.start, Ascent.start, climb.search_eq, climb'.search_eq]
  refine rel_elim (rel_findSome? htypes found) ?_ fun _ _ hv => .ok (.some hv)
  exact rel_elim hending (.ok .none) fun _ _ => .error

/-- What the next steps of an ascent give, on both sides. -/
theorem take (hr : r.Resembles h h') (hc : r.handle c c') (n : Nat) :
    List.Forall₂ (Option.Rel (Agrees r.Errors r.handle)) ((Ascent.start c).take h n)
      ((Ascent.start c').take h' n) := by
  obtain ⟨types, types', ending, ending', climb, climb', htypes, hending⟩ := hr.exists_climbs hc
  have whole : List.Forall₂ (Option.Rel (Agrees r.Errors r.handle))
      ((Ascent.start c).take h (n + (types.length + 1)))
      ((Ascent.start c').take h' (n + (types.length + 1))) := by
    rw [Nat.add_comm n, Ascent.start, Ascent.start, climb.take_eq, htypes.length_eq, climb'.take_eq]
    refine List.rel_append (List.rel_map (fun _ _ ht => .some (.ok ht)) htypes) (.cons ?_ ?_)
    · cases hending with
      | none => exact .none
      | some failure => exact .some (.error failure)
    · refine List.forall₂_same.mpr fun x hx => ?_
      rw [List.eq_of_mem_replicate hx]
      exact .none
  rw [← Ascent.take_take h n (types.length + 1), ← Ascent.take_take h' n (types.length + 1)]
  exact List.forall₂_take n whole

end Ascents

/-! ### Worklists -/

section Worklists

/-- Worklists that correspond in what is expanded and in what waits find corresponding types. -/
theorem saturate (hr : r.Resembles h h') {w w' : Worklist}
    (expanded : List.Forall₂ r.handle w.expanded w'.expanded)
    (waiting : List.Forall₂ r.handle w.waiting w'.waiting) :
    Agrees r.Errors (List.Forall₂ r.handle) (w.saturate h) (w'.saturate h') := by
  have unique := hr.coherent.handle_unique
  induction w using Worklist.saturate.induct h generalizing w' with
  | case1 w hw =>
    rw [hw] at waiting
    have hw' := List.forall₂_nil_left_iff.mp waiting
    rw [Worklist.saturate_of_nil hw, Worklist.saturate_of_nil hw']
    exact .ok expanded
  | case2 w c rest hw e hi =>
    rw [hw] at waiting
    obtain ⟨c', rest', hc, hrest, hw'⟩ := List.forall₂_cons_left_iff.mp waiting
    obtain ⟨e', hi', failure⟩ := (hr.interfaces hc).of_error hi
    rw [Worklist.saturate_of_error hw hi, Worklist.saturate_of_error hw' hi']
    exact .error failure
  | case3 w c rest hw is hi ih =>
    have found := List.rel_append expanded waiting
    have waiting' := waiting
    rw [hw] at waiting'
    obtain ⟨c', rest', hc, hrest, hw'⟩ := List.forall₂_cons_left_iff.mp waiting'
    obtain ⟨is', hi', his⟩ := (hr.interfaces hc).of_ok hi
    rw [Worklist.saturate_of_ok hw hi, Worklist.saturate_of_ok hw' hi']
    refine ih (List.rel_append expanded (.cons hc .nil)) (List.rel_append hrest ?_)
    refine forall₂_eraseDups unique (forall₂_filter his fun i i' hi => ?_)
    exact decide_eq_decide.mpr (not_congr (List.rel_mem unique hi found))

theorem closureFrom (hr : r.Resembles h h') {seed seed' : List Handle}
    (hs : List.Forall₂ r.handle seed seed') :
    Agrees r.Errors (List.Forall₂ r.handle) (h.closureFrom seed) (h'.closureFrom seed') :=
  hr.saturate .nil (forall₂_eraseDups hr.coherent.handle_unique hs)

theorem interfacesAlong (hr : r.Resembles h h') {chain chain' : List Handle}
    (hs : List.Forall₂ r.handle chain chain') :
    Agrees r.Errors (List.Forall₂ r.handle) (h.interfacesAlong chain)
      (h'.interfacesAlong chain') := by
  refine (agrees_mapM hs fun _ _ => hr.interfaces).bind fun is is' his => .ok ?_
  exact forall₂_eraseDups hr.coherent.handle_unique (List.rel_flatten his)

theorem chainInterfaces (hr : r.Resembles h h') (hc : r.handle c c') :
    Agrees r.Errors (List.Forall₂ r.handle) (h.chainInterfaces c) (h'.chainInterfaces c') :=
  (hr.chain hc).bind fun _ _ => hr.interfacesAlong

theorem interfaceClosure (hr : r.Resembles h h') (hc : r.handle c c') :
    Agrees r.Errors (List.Forall₂ r.handle) (h.interfaceClosure c) (h'.interfaceClosure c') :=
  (hr.chainInterfaces hc).bind fun _ _ => hr.closureFrom

end Worklists

/-! ### Members along a chain -/

section Unions

variable {chain chain' : List Handle}

/-- Lists that are put together from corresponding tables, one for each type of a chain. -/
theorem flatMap_ownMembers (hr : r.Resembles h h') {α : Type} {R : α → α → Prop}
    {part : Members → List α} (hp : ∀ t t', r.Tables t t' → List.Forall₂ R (part t) (part t'))
    (hs : List.Forall₂ r.handle chain chain') :
    List.Forall₂ R (chain.flatMap fun s => part (h.ownMembers s))
      (chain'.flatMap fun s => part (h'.ownMembers s)) :=
  List.rel_flatMap hs fun _ _ hc => hp _ _ (hr.ownMembers hc)

theorem chainMethods (hr : r.Resembles h h') (hc : r.handle c c') :
    Agrees r.Errors (List.Forall₂ r.method) (h.chainMethods c) (h'.chainMethods c') :=
  (hr.chain hc).map fun _ _ => hr.flatMap_ownMembers fun _ _ ht => ht.methods

end Unions

/-! ### Questions -/

theorem inherits (hr : r.Resembles h h') (hc : r.handle c c') {a a' : Handle} (ha : r.handle a a') :
    Agrees r.Errors Eq (h.inherits c a) (h'.inherits c' a') := by
  have probe (t t' : Handle) (ht : r.handle t t') : Option.Rel Eq
      (if t = a then some () else none) (if t' = a' then some () else none) := by
    have same : t = a ↔ t' = a' := Relator.rel_eq hr.coherent.handle_unique ht ha
    simp only [same]
    split
    · exact .some rfl
    · exact .none
  exact (hr.search hc probe).map fun _ _ => isSome_eq_of_rel

theorem implements (hr : r.Resembles h h') (hc : r.handle c c') {i i' : Handle}
    (hi : r.handle i i') : Agrees r.Errors Eq (h.implements c i) (h'.implements c' i') := by
  refine (hr.interfaceClosure hc).map fun is is' his => ?_
  rw [Bool.eq_iff_iff, List.contains_iff_mem, List.contains_iff_mem]
  exact List.rel_mem hr.coherent.handle_unique hi his

/-- The same question about corresponding types and names, if it does not ask for a list of fields, has
corresponding answers, or fails in the same way at corresponding types. -/
theorem answer (hr : r.Resembles h h') {q q' : Query Symbol} (hq : r.Queries q q')
    (other : q.listsFields = false) : Agrees r.Errors r.Answers (h.answer q) (h'.answer q') := by
  have coherent := hr.coherent
  cases hq with
  | superclass hc => exact (hr.superclass hc).map fun _ _ => .handle
  | interfaces hc => exact (hr.interfaces hc).map fun _ _ => .handles
  | chain hc => exact (hr.chain hc).map fun _ _ => .handles
  | chainInterfaces hc => exact (hr.chainInterfaces hc).map fun _ _ => .handles
  | interfaceClosure hc => exact (hr.interfaceClosure hc).map fun _ _ => .handles
  | inherits hc ha =>
    refine (hr.inherits hc ha).map ?_
    rintro b _ rfl
    exact .truth b
  | implements hc hi =>
    refine (hr.implements hc hi).map ?_
    rintro b _ rfl
    exact .truth b
  | field hc hn =>
    refine (hr.search hc fun t t' ht => ?_).map fun _ _ => .field
    exact (hr.ownMembers ht).field? coherent hn
  | method hc hn hd =>
    refine (hr.search hc fun t t' ht => ?_).map fun _ _ => .method
    exact (hr.ownMembers ht).method? coherent ⟨hn, hd⟩
  | ownMethods hc =>
    refine ((hr.resolve hc).map fun n n' hn => ?_).map fun _ _ => .methods
    exact hn.members.methods
  | chainMethods hc => exact (hr.chainMethods hc).map fun _ _ => .methods
  | effectiveMethods hc =>
    exact ((hr.chainMethods hc).map fun _ _ => coherent.firstPerSelector).map fun _ _ => .methods
  | _ => cases other

/-- A list of fields is there on both sides or on neither, whatever fields are static. -/
theorem answer_fields (hr : r.Resembles h h') {q q' : Query Symbol} (hq : r.Queries q q')
    (lists : q.listsFields = true) :
    Agrees r.Errors (fun a a' => ∃ fs fs', a = .fields fs ∧ a' = .fields fs') (h.answer q)
      (h'.answer q') := by
  have listed {x x' : Except ResolveError (List Field)} (hx : Agrees r.Errors (fun _ _ => True) x x') :
      Agrees r.Errors (fun a a' => ∃ fs fs', a = Answer.fields fs ∧ a' = Answer.fields fs')
        (x.map .fields) (x'.map .fields) :=
    hx.map fun fs fs' _ => ⟨fs, fs', rfl, rfl⟩
  have along {c c' : Handle} (hc : r.handle c c') (part part' : List Handle → List Field) :
      Agrees r.Errors (fun _ _ => True) ((h.chain c).map part) ((h'.chain c').map part') :=
    (hr.chain hc).map fun _ _ _ => trivial
  cases hq with
  | ownInstanceFields hc | ownStaticFields hc =>
    exact listed ((hr.resolve hc).map fun _ _ _ => trivial)
  | chainInstanceFields hc | chainStaticFields hc => exact listed (along hc _ _)
  | chainFields hc =>
    refine listed ((along hc _ _).bind fun fs fs' _ => ?_)
    exact (along hc _ _).bind fun gs gs' _ => .ok trivial
  | _ => cases lists

end Resembles

namespace Relates

theorem chainInstanceFields (hr : r.Relates h h') (hc : r.handle c c') :
    Agrees r.Errors (List.Forall₂ r.field) (h.chainInstanceFields c) (h'.chainInstanceFields c') :=
  (hr.chain hc).map fun _ _ =>
    hr.flatMap_ownMembers fun _ _ ht => ht.instanceFields hr.lawful

theorem chainStaticFields (hr : r.Relates h h') (hc : r.handle c c') :
    Agrees r.Errors (List.Forall₂ r.field) (h.chainStaticFields c) (h'.chainStaticFields c') :=
  (hr.chain hc).map fun _ _ =>
    hr.flatMap_ownMembers fun _ _ ht => ht.staticFields hr.lawful

theorem chainFields (hr : r.Relates h h') (hc : r.handle c c') :
    Agrees r.Errors (List.Forall₂ r.field) (h.chainFields c) (h'.chainFields c') := by
  refine (hr.chainInstanceFields hc).bind fun fs fs' hf => ?_
  refine (hr.chainStaticFields hc).bind fun gs gs' hg => ?_
  exact .ok (List.rel_append hf hg)

/-- **Hierarchies that are alike answer alike.**  The same question about corresponding types and names
has corresponding answers, or fails in the same way at corresponding types. -/
theorem answer (hr : r.Relates h h') {q q' : Query Symbol} (hq : r.Queries q q') :
    Agrees r.Errors r.Answers (h.answer q) (h'.answer q') := by
  cases lists : q.listsFields with
  | false => exact hr.toResembles.answer hq lists
  | true =>
    cases hq with
    | ownInstanceFields hc =>
      refine ((hr.resolve hc).map fun n n' hn => ?_).map fun _ _ => .fields
      exact hn.members.instanceFields hr.lawful
    | ownStaticFields hc =>
      refine ((hr.resolve hc).map fun n n' hn => ?_).map fun _ _ => .fields
      exact hn.members.staticFields hr.lawful
    | chainInstanceFields hc => exact (hr.chainInstanceFields hc).map fun _ _ => .fields
    | chainStaticFields hc => exact (hr.chainStaticFields hc).map fun _ _ => .fields
    | chainFields hc => exact (hr.chainFields hc).map fun _ _ => .fields
    | _ => cases lists

end Relates

/-! ### Declarations -/

section Declarations

variable {d d' : Declaration}

/-- One member more: it is refused on both sides or on neither. -/
theorem agrees_add {m m' : Member} (hl : r.Coherent) (hd : r.Declarations d d') (hm : r.Items m m') :
    Agrees r.DeclareErrors r.Declarations (d.add m) (d'.add m') := by
  cases hm with
  | @field f f' hf =>
    show Agrees _ _ (d.addField f) (d'.addField f')
    rw [Declaration.addField, Declaration.addField]
    have added := hd.members.addField hl hf
    generalize d.members.addField f = x at added ⊢
    generalize d'.members.addField f' = x' at added ⊢
    cases added with
    | ok members => exact .ok ⟨hd.id, hd.ancestry, members⟩
    | error refused => exact .error (.duplicateField hd.id (hl.field_name refused))
  | @method m m' hm =>
    show Agrees _ _ (d.addMethod m) (d'.addMethod m')
    rw [Declaration.addMethod, Declaration.addMethod]
    have added := hd.members.addMethod hl hm
    generalize d.members.addMethod m = x at added ⊢
    generalize d'.members.addMethod m' = x' at added ⊢
    cases added with
    | ok members => exact .ok ⟨hd.id, hd.ancestry, members⟩
    | error refused => exact .error (.duplicateMethod hd.id (hl.method_selector refused))

/-- Members one after the other, up to the first that is refused on both sides. -/
theorem agrees_addAll {ms ms' : List Member} (hl : r.Coherent) (hd : r.Declarations d d')
    (hm : List.Forall₂ r.Items ms ms') :
    Agrees r.DeclareErrors r.Declarations (d.addAll ms) (d'.addAll ms') := by
  induction hm generalizing d d' with
  | nil => exact .ok hd
  | cons first _ ih =>
    rw [Declaration.addAll, Declaration.addAll, List.foldlM_cons, List.foldlM_cons]
    exact (agrees_add hl hd first).bind fun _ _ hd => ih hd

end Declarations

end Correspondence

end Lineage
