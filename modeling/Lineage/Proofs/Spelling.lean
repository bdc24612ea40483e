import Lineage.Proofs.Interning
import Lineage.Proofs.Likeness
import Lineage.Session.Transcript

/-!
# One string, two symbols

Two symbol tables with histories of their own give one string different symbols.  `p.Spells n n'` says that
`n` and `n'` are the symbols of one string in the two tables of `p`, and `p.correspondence` carries this over
to all that is made of symbols.  It is one to one, it lasts when the tables grow, and what it relates looks
the same in strings.

Main facts: `Reachable.lawful_correspondence`, `Spells.later` with its consequences up to `nodes_later`, and
`Reachable.answer_view_eq`.
-/

namespace Lineage

/-- Two symbol tables, side by side. -/
structure TablePair where
  left : SymbolTable
  right : SymbolTable

namespace TablePair

/-- Both tables arise from a new one, each in its own way. -/
structure Reachable (p : TablePair) : Prop where
  left : p.left.Reachable
  right : p.right.Reachable

/-- The tables of `q` are what those of `p` become. -/
structure Later (p q : TablePair) : Prop where
  left : p.left.Later q.left
  right : p.right.Later q.right

section Spelling

variable (p : TablePair)

/-- The symbols that one string has in the two tables. -/
def Spells (n n' : Symbol) : Prop := ∃ s, p.left.find? s = some n ∧ p.right.find? s = some n'

/-- Identities of one spelling. -/
structure Ids (i i' : TypeId) : Prop where
  loader : p.Spells i.loader.name i'.loader.name
  name : p.Spells i.name i'.name

/-- Positions that differ in the symbol of their url only. -/
structure Positions (a a' : Position) : Prop where
  url : p.Spells a.url a'.url
  span : a.span = a'.span
  line : a.line = a'.line
  column : a.column = a'.column

/-- Fields that differ in symbols only. -/
structure Fields (f f' : Field) : Prop where
  name : p.Spells f.name f'.name
  descriptor : p.Spells f.descriptor f'.descriptor
  modifiers : f.modifiers = f'.modifiers
  declaring : f.declaring = f'.declaring
  position : Option.Rel p.Positions f.position f'.position

/-- Methods that differ in symbols only. -/
structure Methods (m m' : Method) : Prop where
  name : p.Spells m.selector.name m'.selector.name
  descriptor : p.Spells m.selector.descriptor m'.selector.descriptor
  modifiers : m.modifiers = m'.modifiers
  declaring : m.declaring = m'.declaring
  position : Option.Rel p.Positions m.position m'.position

/-- Handles correspond if they are equal, all else if it differs in symbols only. -/
def correspondence : Correspondence where
  handle := Eq
  id := p.Ids
  name := p.Spells
  field := p.Fields
  method := p.Methods

end Spelling

variable {p q : TablePair} {n n' m m' : Symbol}

/-! ### Symbols -/

theorem Later.refl (p : TablePair) : p.Later p := ⟨.refl, .refl⟩

theorem Later.trans {r : TablePair} (first : p.Later q) (second : q.Later r) : p.Later r :=
  ⟨first.left.trans second.left, first.right.trans second.right⟩

theorem Reachable.later (hp : p.Reachable) (later : p.Later q) : q.Reachable :=
  ⟨hp.left.later later.left, hp.right.later later.right⟩

/-- The symbols of a string stay its symbols. -/
theorem Spells.later (hn : p.Spells n n') (later : p.Later q) : q.Spells n n' := by
  obtain ⟨s, e, e'⟩ := hn
  exact ⟨s, later.left.find?_eq e, later.right.find?_eq e'⟩

namespace Reachable

variable (hp : p.Reachable)
include hp

/-- Both symbols read back as the one string. -/
theorem text_eq (hn : p.Spells n n') : p.left.text n = p.right.text n' := by
  obtain ⟨s, e, e'⟩ := hn
  rw [SymbolTable.text_of_find? hp.left.addressable e,
    SymbolTable.text_of_find? hp.right.addressable e']

/-- Symbols on the left are equal if their counterparts on the right are: they stand for one string. -/
theorem eq_iff (hn : p.Spells n n') (hm : p.Spells m m') : n = m ↔ n' = m' := by
  obtain ⟨s, e, e'⟩ := hn
  obtain ⟨r, f, f'⟩ := hm
  rw [SymbolTable.find?_inj hp.left.addressable e f, SymbolTable.find?_inj hp.right.addressable e' f']

theorem biUnique_spells : Relator.BiUnique p.Spells :=
  ⟨fun _ _ _ hn hm => (hp.eq_iff hn hm).mpr rfl, fun _ _ _ hn hm => (hp.eq_iff hn hm).mp rfl⟩

theorem biUnique_ids : Relator.BiUnique p.Ids := by
  have loader {a b : Loader} (e : a.name = b.name) : a = b := congrArg Loader.mk e
  constructor
  · rintro ⟨l, n⟩ ⟨k, m⟩ i hi hj
    obtain rfl : l = k := loader (hp.biUnique_spells.1 hi.loader hj.loader)
    obtain rfl : n = m := hp.biUnique_spells.1 hi.name hj.name
    rfl
  · rintro i ⟨l, n⟩ ⟨k, m⟩ hi hj
    obtain rfl : l = k := loader (hp.biUnique_spells.2 hi.loader hj.loader)
    obtain rfl : n = m := hp.biUnique_spells.2 hi.name hj.name
    rfl

theorem lawful_correspondence : p.correspondence.Lawful where
  handle_unique := biUnique_eq
  id_unique := hp.biUnique_ids
  name_unique := hp.biUnique_spells
  field_name hf := hf.name
  field_static hf := congrArg Modifiers.isStatic hf.modifiers
  method_selector hm := ⟨hm.name, hm.descriptor⟩

end Reachable

/-! ### What lasts -/

section Later

variable (grown : p.Later q)
include grown

theorem Ids.later {i i' : TypeId} (hi : p.Ids i i') : q.Ids i i' :=
  ⟨hi.loader.later grown, hi.name.later grown⟩

theorem Positions.later {a a' : Position} (ha : p.Positions a a') : q.Positions a a' :=
  { ha with url := ha.url.later grown }

theorem positions_later {a a' : Option Position} (ha : Option.Rel p.Positions a a') :
    Option.Rel q.Positions a a' :=
  rel_imp (fun _ _ ha => ha.later grown) ha

theorem Fields.later {f f' : Field} (hf : p.Fields f f') : q.Fields f f' :=
  { hf with
    name := hf.name.later grown
    descriptor := hf.descriptor.later grown
    position := positions_later grown hf.position }

theorem Methods.later {m m' : Method} (hm : p.Methods m m') : q.Methods m m' :=
  { hm with
    name := hm.name.later grown
    descriptor := hm.descriptor.later grown
    position := positions_later grown hm.position }

theorem ancestries_later {a a' : Ancestry} (ha : p.correspondence.Ancestries a a') :
    q.correspondence.Ancestries a a' := by
  have id (i i' : TypeId) (hi : p.Ids i i') : q.Ids i i' := hi.later grown
  cases ha with
  | source superclass interfaces => exact .source (rel_imp id superclass) (interfaces.imp id)
  | binary superclass interfaces => exact .binary (rel_imp id superclass) (interfaces.imp id)
  | synthetic superclass interfaces => exact .synthetic superclass interfaces

theorem tables_later {t t' : Members} (ht : p.correspondence.Tables t t') :
    q.correspondence.Tables t t' :=
  ⟨ht.fields.imp fun _ _ hf => hf.later grown, ht.methods.imp fun _ _ hm => hm.later grown⟩

theorem nodes_later {k k' : TypeNode} (hk : p.correspondence.Nodes k k') :
    q.correspondence.Nodes k k' :=
  ⟨hk.id.later grown, ancestries_later grown hk.ancestry, tables_later grown hk.members⟩

theorem declarations_later {d d' : Declaration} (hd : p.correspondence.Declarations d d') :
    q.correspondence.Declarations d d' :=
  ⟨hd.id.later grown, ancestries_later grown hd.ancestry, tables_later grown hd.members⟩

end Later

/-! ### What is shown -/

namespace Reachable

variable (hp : p.Reachable)
include hp

theorem id_view_eq {i i' : TypeId} (hi : p.Ids i i') : i.view p.left = i'.view p.right := by
  rw [TypeId.view, TypeId.view, hp.text_eq hi.loader, hp.text_eq hi.name]

theorem display_eq {i i' : TypeId} (hi : p.Ids i i') : i.display p.left = i'.display p.right := by
  rw [TypeId.display, TypeId.display, hp.text_eq hi.loader, hp.text_eq hi.name]

theorem declareError_view_eq {e e' : DeclareError} (he : p.correspondence.DeclareErrors e e') :
    e.view p.left = e'.view p.right := by
  cases he with
  | duplicateType id existing =>
    exact congrArg₂ DeclareErrorView.duplicateType (hp.id_view_eq id) existing
  | duplicateField id name =>
    exact congrArg₂ DeclareErrorView.duplicateField (hp.id_view_eq id) (hp.text_eq name)
  | duplicateMethod id selector =>
    simp only [DeclareError.view, hp.id_view_eq id, hp.text_eq selector.name,
      hp.text_eq selector.descriptor]
  | unknownAncestor id ancestor =>
    exact congrArg₂ DeclareErrorView.unknownAncestor (hp.id_view_eq id) ancestor
  | tooManyTypes => rfl

theorem resolveError_view_eq {e e' : ResolveError} (he : p.correspondence.Errors e e') :
    e.view p.left = e'.view p.right := by
  cases he with
  | missingSuperclass type missing =>
    exact congrArg₂ ResolveErrorView.missingSuperclass type (hp.id_view_eq missing)
  | missingInterface type missing =>
    exact congrArg₂ ResolveErrorView.missingInterface type (hp.id_view_eq missing)
  | cycle type => exact congrArg ResolveErrorView.cycle type
  | unknownType type => exact congrArg ResolveErrorView.unknownType type

theorem position_view_eq {a a' : Option Position} (ha : Option.Rel p.Positions a a') :
    a.map (·.view p.left) = a'.map (·.view p.right) := by
  cases ha with
  | none => rfl
  | some ha =>
    simp only [Option.map_some, Position.view, Position.fileText, Position.urlText, hp.text_eq ha.url,
      ha.span, ha.line, ha.column]

theorem field_view_eq {f f' : Field} (hf : p.Fields f f') : f.view p.left = f'.view p.right := by
  rw [Field.view, Field.view, hp.text_eq hf.name, hp.text_eq hf.descriptor, hf.modifiers,
    hf.declaring, hp.position_view_eq hf.position]

/-- Both tables have the selector of static initializers from the start. -/
theorem exists_initializers : ∃ i i', Selector.staticInitializer p.left = .ok (i, p.left) ∧
    Selector.staticInitializer p.right = .ok (i', p.right) ∧ p.correspondence.Selectors i i' := by
  have known : "<clinit>" ∈ SymbolTable.predefined ∧ "()V" ∈ SymbolTable.predefined := by decide
  obtain ⟨n, -, name⟩ := hp.left.intern_of_predefined known.1
  obtain ⟨d, -, descriptor⟩ := hp.left.intern_of_predefined known.2
  obtain ⟨n', -, name'⟩ := hp.right.intern_of_predefined known.1
  obtain ⟨d', -, descriptor'⟩ := hp.right.intern_of_predefined known.2
  refine ⟨⟨n, d⟩, ⟨n', d'⟩, SymbolTable.selector_of_intern name descriptor,
    SymbolTable.selector_of_intern name' descriptor', ?_, ?_⟩
  · exact ⟨_, SymbolTable.find?_of_intern name, SymbolTable.find?_of_intern name'⟩
  · exact ⟨_, SymbolTable.find?_of_intern descriptor, SymbolTable.find?_of_intern descriptor'⟩

theorem method_view_eq {m m' : Method} (hm : p.Methods m m') : m.view p.left = m'.view p.right := by
  have initializer : m.isInitializerIn p.left = m'.isInitializerIn p.right := by
    obtain ⟨i, i', e, e', hi⟩ := hp.exists_initializers
    rw [Method.isInitializerIn, Method.isInitializerIn, e, e']
    have same := hp.lawful_correspondence.selector_eq_iff ⟨hm.name, hm.descriptor⟩ hi
    rw [Bool.eq_iff_iff]
    simpa [Method.isInitializer] using same
  rw [Method.view, Method.view, Method.name, Method.name, Selector.render, Selector.render,
    hp.text_eq hm.name, hp.text_eq hm.descriptor, hm.modifiers, hm.declaring, initializer,
    hp.position_view_eq hm.position]

/-- Answers that correspond look the same. -/
theorem answer_view_eq {a a' : Answer} (ha : p.correspondence.Answers a a') :
    a.view p.left = a'.view p.right := by
  have field (f f' : Field) (hf : p.correspondence.field f f') : f.view p.left = f'.view p.right :=
    hp.field_view_eq hf
  have method (m m' : Method) (hm : p.correspondence.method m m') :
      m.view p.left = m'.view p.right :=
    hp.method_view_eq hm
  cases ha with
  | handle type =>
    cases type with
    | none => rfl
    | some same => exact congrArg (AnswerView.handle <| some ·) same
  | handles types => exact congrArg AnswerView.handles (List.forall₂_eq_eq_eq ▸ types)
  | truth b => rfl
  | field found => exact congrArg AnswerView.field (map_eq_of_rel field found)
  | fields listed => exact congrArg AnswerView.fields (map_eq_of_forall₂ field listed)
  | method found => exact congrArg AnswerView.method (map_eq_of_rel method found)
  | methods listed => exact congrArg AnswerView.methods (map_eq_of_forall₂ method listed)

end Reachable

end TablePair

end Lineage
