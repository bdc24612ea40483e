import Lineage.Proofs.Spelling

/-!
# Interning side by side

The same strings interned into two tables, one after the other and in the same order, get symbols that spell
the same; and so does all that is read from written types, members, declarations and questions.  A
declaration is refused on both sides, for the same reason, or on neither.

Main facts: `Alike.bind` and `alike_mapM` (computations are alike if their parts are), `alike_declaration`
and `alike_query`.
-/

namespace Lineage

namespace Interning

/-- Run on the two tables of `p`, the computations have results that `V` relates in the tables at the end,
unless one of them stops at a full shard. -/
def Alike {α α' : Type} (p : TablePair) (V : TablePair → α → α' → Prop) (x : Interning α)
    (x' : Interning α') : Prop :=
  ∀ a u a' u', x.run p.left = .ok (a, u) → x'.run p.right = .ok (a', u') →
    p.Later ⟨u, u'⟩ ∧ V ⟨u, u'⟩ a a'

/-- What is related stays related when the tables grow. -/
def Lasting {α α' : Type} (V : TablePair → α → α' → Prop) : Prop :=
  ∀ (p q : TablePair) (a a'), p.Later q → V p a a' → V q a a'

variable {α α' β β' : Type} {p : TablePair} {V : TablePair → α → α' → Prop}
  {W : TablePair → β → β' → Prop} {x : Interning α} {x' : Interning α'}

/-! ### Parts and wholes -/

theorem alike_pure {a : α} {a' : α'} (ha : V p a a') : Alike p V (pure a) (pure a') := by
  rintro b u b' u' ⟨⟩ ⟨⟩
  exact ⟨.refl p, ha⟩

theorem Alike.bind {f : α → Interning β} {f' : α' → Interning β'} (hx : Alike p V x x')
    (hf : ∀ q a a', p.Later q → V q a a' → Alike q W (f a) (f' a')) :
    Alike p W (x >>= f) (x' >>= f') := by
  intro b u b' u' e e'
  obtain ⟨a, t, first, second⟩ := run_bind_eq_ok_iff.mp e
  obtain ⟨a', t', first', second'⟩ := run_bind_eq_ok_iff.mp e'
  obtain ⟨grown, ha⟩ := hx a t a' t' first first'
  obtain ⟨grown', hb⟩ := hf _ a a' grown ha b u b' u' second second'
  exact ⟨grown.trans grown', hb⟩

theorem Alike.map {f : α → β} {f' : α' → β'} (hx : Alike p V x x')
    (hf : ∀ q a a', p.Later q → V q a a' → W q (f a) (f' a')) : Alike p W (f <$> x) (f' <$> x') := by
  intro b u b' u' e e'
  obtain ⟨a, ha, rfl⟩ := run_map_eq_ok_iff.mp e
  obtain ⟨a', ha', rfl⟩ := run_map_eq_ok_iff.mp e'
  obtain ⟨grown, rel⟩ := hx a u a' u' ha ha'
  exact ⟨grown, hf _ a a' grown rel⟩

theorem alike_mapM {γ : Type} {f : γ → Interning α} {f' : γ → Interning α'} (lasting : Lasting V)
    (hf : ∀ q c, Alike q V (f c) (f' c)) (l : List γ) :
    Alike p (fun q => List.Forall₂ (V q)) (l.mapM f) (l.mapM f') := by
  induction l generalizing p with
  | nil => exact alike_pure .nil
  | cons c l ih =>
    rw [List.mapM_cons, List.mapM_cons]
    refine (hf p c).bind fun q a a' _ ha => ?_
    exact ih.bind fun r as as' grown has => alike_pure (.cons (lasting q r a a' grown ha) has)

theorem alike_option_mapM {γ : Type} {f : γ → Interning α} {f' : γ → Interning α'}
    (hf : ∀ q c, Alike q V (f c) (f' c)) (o : Option γ) :
    Alike p (fun q => Option.Rel (V q)) (o.mapM f) (o.mapM f') := by
  cases o with
  | none => exact alike_pure .none
  | some c => exact (hf p c).map fun _ _ _ _ => .some

/-! ### Written types and questions -/

theorem alike_string (p : TablePair) (s : String) :
    Alike p TablePair.Spells (internString s) (internString s) := by
  intro n u n' u' e e'
  have left : p.left.intern s = .ok (n, u) := e
  have right : p.right.intern s = .ok (n', u') := e'
  exact ⟨⟨SymbolTable.later_of_intern left, SymbolTable.later_of_intern right⟩, s,
    SymbolTable.find?_of_intern left, SymbolTable.find?_of_intern right⟩

theorem alike_type (p : TablePair) (w : WrittenType) : Alike p TablePair.Ids w.intern w.intern := by
  refine Alike.bind (V := fun q (l l' : Loader) => q.Spells l.name l'.name)
    ((alike_string p w.loader).map fun _ _ _ _ hl => hl) fun q l l' _ hl => ?_
  exact (alike_string q w.name).map fun r n n' grown hn => ⟨hl.later grown, hn⟩

theorem alike_position (p : TablePair) (w : WrittenPosition) :
    Alike p TablePair.Positions w.intern w.intern :=
  (alike_string p w.url).bind fun _ _ _ _ hn => alike_pure ⟨hn, rfl, rfl, rfl⟩

theorem alike_ancestry (p : TablePair) (w : WrittenAncestry) :
    Alike p (fun q => q.correspondence.Ancestries) w.intern w.intern := by
  have superclass (q : TablePair) (s : Option WrittenType) :
      Alike q (fun q => Option.Rel q.Ids) (s.mapM (·.intern)) (s.mapM (·.intern)) :=
    alike_option_mapM alike_type s
  have interfaces (q : TablePair) (is : List WrittenType) :
      Alike q (fun q => List.Forall₂ q.Ids) (is.mapM (·.intern)) (is.mapM (·.intern)) :=
    alike_mapM (fun _ _ _ _ grown hi => hi.later grown) alike_type is
  have stays {q r : TablePair} (grown : q.Later r) (i i' : TypeId) (hi : q.Ids i i') : r.Ids i i' :=
    hi.later grown
  cases w with
  | source s is =>
    refine (superclass p s).bind fun q i i' _ hi => (interfaces q is).bind fun r _ _ grown his => ?_
    exact alike_pure (.source (rel_imp (stays grown) hi) his)
  | binary s is =>
    refine (superclass p s).bind fun q i i' _ hi => (interfaces q is).bind fun r _ _ grown his => ?_
    exact alike_pure (.binary (rel_imp (stays grown) hi) his)
  | synthetic s is =>
    exact alike_pure (.synthetic (rel_eq_self s) (forall₂_eq_self is))

theorem alike_query (p : TablePair) (q : Query String) :
    Alike p (fun q => q.correspondence.Queries) q.intern q.intern := by
  cases q with
  | field c name => exact (alike_string p name).map fun _ _ _ _ hn => .field rfl hn
  | method c name descriptor =>
    refine (alike_string p name).bind fun q n n' _ hn => ?_
    refine (alike_string q descriptor).bind fun r d d' grown hd => ?_
    exact alike_pure (.method rfl (hn.later grown) hd)
  | superclass c => exact alike_pure (.superclass rfl)
  | interfaces c => exact alike_pure (.interfaces rfl)
  | chain c => exact alike_pure (.chain rfl)
  | chainInterfaces c => exact alike_pure (.chainInterfaces rfl)
  | interfaceClosure c => exact alike_pure (.interfaceClosure rfl)
  | inherits c a => exact alike_pure (.inherits rfl rfl)
  | implements c i => exact alike_pure (.implements rfl rfl)
  | ownInstanceFields c => exact alike_pure (.ownInstanceFields rfl)
  | ownStaticFields c => exact alike_pure (.ownStaticFields rfl)
  | ownMethods c => exact alike_pure (.ownMethods rfl)
  | chainInstanceFields c => exact alike_pure (.chainInstanceFields rfl)
  | chainStaticFields c => exact alike_pure (.chainStaticFields rfl)
  | chainFields c => exact alike_pure (.chainFields rfl)
  | chainMethods c => exact alike_pure (.chainMethods rfl)
  | effectiveMethods c => exact alike_pure (.effectiveMethods rfl)

/-! ### Written declarations -/

theorem alike_member (p : TablePair) (w : WrittenMember) :
    Alike p (fun q => q.correspondence.Items) w.intern w.intern := by
  have position (q : TablePair) (a : Option WrittenPosition) :
      Alike q (fun q => Option.Rel q.Positions) (a.mapM (·.intern)) (a.mapM (·.intern)) :=
    alike_option_mapM alike_position a
  cases w with
  | field name descriptor modifiers a =>
    refine (alike_string p name).bind fun q n n' before hn => ?_
    refine (alike_string q descriptor).bind fun r d d' between hd => ?_
    refine (position r a).bind fun s _ _ after ha => alike_pure (.field ?_)
    exact ⟨hn.later (between.trans after), hd.later after, rfl, rfl, ha⟩
  | method name descriptor modifiers a =>
    refine Alike.bind (V := fun q => q.correspondence.Selectors) ?_ fun r u u' _ hu => ?_
    · refine (alike_string p name).bind fun q n n' _ hn => ?_
      exact (alike_string q descriptor).bind fun r d d' grown hd =>
        alike_pure ⟨hn.later grown, hd⟩
    · refine (position r a).bind fun s _ _ after ha => alike_pure (.method ?_)
      exact ⟨hu.name.later after, hu.descriptor.later after, rfl, rfl, ha⟩

/-- The members of a declaration, one after the other, up to the first that is refused. -/
theorem alike_addWritten (ms : List WrittenMember) {d d' : Declaration} (hp : p.Reachable)
    (hd : p.correspondence.Declarations d d') :
    Alike p (fun q => Agrees q.correspondence.DeclareErrors q.correspondence.Declarations)
      (d.addWritten ms) (d'.addWritten ms) := by
  induction ms generalizing p d d' with
  | nil => exact alike_pure (.ok hd)
  | cons m ms ih =>
    refine (alike_member p m).bind fun q k k' grown hk => ?_
    have later := hp.later grown
    have added := Correspondence.agrees_add later.lawful_correspondence.toCoherent
      (TablePair.declarations_later grown hd) hk
    generalize d.add k = x at added
    generalize d'.add k' = x' at added
    cases added with
    | ok value => exact ih later value
    | error failure => exact alike_pure (.error failure)

/-- **A written declaration** is refused on both sides, for the same reason, or becomes two declarations that
are spelt alike. -/
theorem alike_declaration (hp : p.Reachable) (w : WrittenDeclaration) :
    Alike p (fun q => Agrees q.correspondence.DeclareErrors q.correspondence.Declarations) w.intern
      w.intern := by
  refine (alike_type p w.id).bind fun q i i' g hi => ?_
  refine (alike_ancestry q w.ancestry).bind fun r a a' g' ha => ?_
  refine Alike.bind (V := fun q => Option.Rel q.Positions) (alike_option_mapM alike_position w.position)
    fun s o o' g'' _ => ?_
  refine alike_addWritten w.members (((hp.later g).later g').later g'') ⟨?_, ?_, ?_⟩
  · exact (hi.later g').later g''
  · exact TablePair.ancestries_later g'' ha
  · exact Correspondence.tables_empty _

end Interning

end Lineage
