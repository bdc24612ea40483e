import Lineage.Proofs.Alongside
import Lineage.Proofs.Footprint

/-!
# Outlines

Resolution does not look at positions, at the modifiers of types and methods, at the descriptors of fields, or
at any modifier of a field but the static bit; and it looks at that bit only where it lists fields.  An outline
leaves all of this out, with the static bit or without it.  What is done with two scopes and has the same
outline goes the same way: declarations are accepted under the same handles or refused for the same reasons,
questions have answers of the same outline, and the memos remember and count the same.

Main facts: `addAll_outline` (the members of a declaration), `answer_outline`, `Outlined.perform` (what one
operation preserves) and `Outlined.run` (what a run preserves).
-/

namespace Lineage

/-! ### What is left out -/

section Outline

variable (static : Bool)

/-- A field with its name and its declaring type, and the static bit if that is to be kept. -/
def Field.outline (f : Field) : Field :=
  { f with
    descriptor := .empty
    modifiers := if static then f.modifiers.inter .staticFlag else .empty
    position := none }

/-- A method with its selector and its declaring type. -/
def Method.outline (m : Method) : Method := { m with modifiers := .empty, position := none }

def Member.outline : Member → Member
  | field f => field (f.outline static)
  | method m => method m.outline

def Members.outline (t : Members) : Members where
  fieldRoster := t.fieldRoster.map (·.outline static) fun _ => rfl
  methodRoster := t.methodRoster.map (·.outline) fun _ => rfl

/-- A declaration with its identity and its ancestors, and the outlines of its members. -/
def Declaration.outline (d : Declaration) : Declaration :=
  { d with modifiers := .empty, position := none, members := d.members.outline static }

def Operation.outline : Operation → Operation
  | add d => add (d.outline static)
  | ask q => ask q

/-- An answer with the outlines of its members.  Without the static bits, nothing is left of a list of fields
but that it is there. -/
def Answer.outline : Answer → Answer
  | handle c => handle c
  | handles cs => handles cs
  | truth b => truth b
  | field f => field (f.map (·.outline static))
  | fields fs => fields (if static then fs.map (·.outline static) else [])
  | method m => method (m.map (·.outline))
  | methods ms => methods (ms.map (·.outline))

def Outcome.outline : Outcome → Outcome
  | added r => added r
  | answered r => answered (r.map (·.outline static))

/-- Handles, identities and names stand for themselves, and members for those with the same outline. -/
def Correspondence.outlined : Correspondence where
  handle := Eq
  id := Eq
  name := Eq
  field f f' := f.outline static = f'.outline static
  method m m' := m.outline = m'.outline

end Outline

/-- The static bit alone is static or not as it was among the others. -/
theorem Field.isStatic_outline (f : Field) : (f.outline true).isStatic = f.isStatic := by
  show (f.modifiers.bits &&& 0x0008 &&& 0x0008 == 0x0008) = (f.modifiers.bits &&& 0x0008 == 0x0008)
  rw [UInt16.and_assoc, UInt16.and_self]

namespace Correspondence

variable {static : Bool} {h h' : Hierarchy} {s s' : Scope} {d d' : Declaration} {q : Query Symbol}

theorem steady_outlined (static : Bool) : (outlined static).Steady where
  handle_unique := biUnique_eq
  id_unique := biUnique_eq
  name_unique := biUnique_eq
  field_name hf := (congrArg Field.name hf :)
  method_selector hm :=
    have same := congrArg Method.selector hm
    ⟨(congrArg Selector.name same :), (congrArg Selector.descriptor same :)⟩
  handle_iff := Iff.rfl
  field_withOwner c hf := (congrArg (Field.withOwner c) hf :)
  method_withOwner c hm := (congrArg (Method.withOwner c) hm :)

theorem lawful_outlined : (outlined true).Lawful where
  toCoherent := (steady_outlined true).toCoherent
  field_static {f f'} hf := by
    rw [← f.isStatic_outline, ← f'.isStatic_outline]
    exact congrArg Field.isStatic hf

/-! ### Outlines that are the same -/

theorem items_outlined {m m' : Member} (same : m.outline static = m'.outline static) :
    (outlined static).Items m m' := by
  cases m with
  | field f =>
    cases m' with
    | field f' => exact .field (Member.field.inj same)
    | method m' => cases same
  | method m =>
    cases m' with
    | field f' => cases same
    | method m' => exact .method (Member.method.inj same)

theorem tables_outlined_iff {t t' : Members} :
    (outlined static).Tables t t' ↔ t.outline static = t'.outline static := by
  have fields (t : Members) : (t.outline static).fields = t.fields.map (·.outline static) :=
    Roster.toList_map t.fieldRoster (Field.outline static) fun _ => rfl
  have methods (t : Members) : (t.outline static).methods = t.methods.map (·.outline) :=
    Roster.toList_map t.methodRoster Method.outline fun _ => rfl
  constructor
  · intro ht
    have fieldRosters : (t.outline static).fields = (t'.outline static).fields := by
      rw [fields, fields]
      exact forall₂_map_eq_iff.mp ht.fields
    have methodRosters : (t.outline static).methods = (t'.outline static).methods := by
      rw [methods, methods]
      exact forall₂_map_eq_iff.mp ht.methods
    -- a roster is what it lists
    exact congrArg₂ Members.mk (Roster.ext_items (Array.toList_inj.mp fieldRosters))
      (Roster.ext_items (Array.toList_inj.mp methodRosters))
  · intro same
    refine ⟨forall₂_map_eq_iff.mpr ?_, forall₂_map_eq_iff.mpr ?_⟩
    · rw [← fields, ← fields, same]
    · rw [← methods, ← methods, same]

theorem ancestries_outlined_iff {a a' : Ancestry} : (outlined static).Ancestries a a' ↔ a = a' := by
  constructor
  · intro ha
    cases ha with
    | source superclass interfaces =>
      exact congrArg₂ Ancestry.source (eq_of_rel superclass) (List.forall₂_eq_eq_eq ▸ interfaces)
    | binary superclass interfaces =>
      exact congrArg₂ Ancestry.binary (eq_of_rel superclass) (List.forall₂_eq_eq_eq ▸ interfaces)
    | synthetic superclass interfaces =>
      exact congrArg₂ Ancestry.synthetic (eq_of_rel superclass) (List.forall₂_eq_eq_eq ▸ interfaces)
  · rintro rfl
    cases a with
    | source superclass interfaces => exact .source (rel_eq_self _) (forall₂_eq_self _)
    | binary superclass interfaces => exact .binary (rel_eq_self _) (forall₂_eq_self _)
    | synthetic superclass interfaces => exact .synthetic (rel_eq_self _) (forall₂_eq_self _)

theorem declarations_outlined_iff :
    (outlined static).Declarations d d' ↔ d.outline static = d'.outline static := by
  constructor
  · intro hd
    have id : d.id = d'.id := hd.id
    rw [Declaration.outline, Declaration.outline, id, ancestries_outlined_iff.mp hd.ancestry,
      tables_outlined_iff.mp hd.members]
  · intro same
    have ancestry := congrArg Declaration.ancestry same
    have members := congrArg Declaration.members same
    exact ⟨(congrArg Declaration.id same :), ancestries_outlined_iff.mpr ancestry,
      tables_outlined_iff.mpr members⟩

theorem declareErrors_outlined {e e' : DeclareError} (he : (outlined static).DeclareErrors e e') :
    e = e' := by
  cases he with
  | duplicateType id existing => exact congrArg₂ DeclareError.duplicateType id existing
  | duplicateField id name => exact congrArg₂ DeclareError.duplicateField id name
  | duplicateMethod id selector =>
    exact congrArg₂ DeclareError.duplicateMethod id
      (congrArg₂ Selector.mk selector.name selector.descriptor)
  | unknownAncestor id ancestor => exact congrArg₂ DeclareError.unknownAncestor id ancestor
  | tooManyTypes => rfl

theorem errors_outlined {e e' : ResolveError} (he : (outlined static).Errors e e') : e = e' := by
  cases he with
  | missingSuperclass type missing => exact congrArg₂ ResolveError.missingSuperclass type missing
  | missingInterface type missing => exact congrArg₂ ResolveError.missingInterface type missing
  | cycle type => exact congrArg ResolveError.cycle type
  | unknownType type => exact congrArg ResolveError.unknownType type

theorem queries_outlined (q : Query Symbol) : (outlined static).Queries q q := by
  cases q <;> constructor <;> rfl

/-- **The members of a declaration** are taken in alike, up to the first that is refused. -/
theorem addAll_outline {ms ms' : List Member} (same : d.outline static = d'.outline static)
    (members : ms.map (·.outline static) = ms'.map (·.outline static)) :
    (d.addAll ms).map (·.outline static) = (d'.addAll ms').map (·.outline static) := by
  have items : List.Forall₂ (outlined static).Items ms ms' :=
    (forall₂_map_eq_iff.mpr members).imp fun _ _ => items_outlined
  have added := agrees_addAll (steady_outlined static).toCoherent
    (declarations_outlined_iff.mpr same) items
  refine (added.map fun e e' he => ?_).eq (fun _ _ => declareErrors_outlined) fun _ _ e => e
  exact declarations_outlined_iff.mp he

/-! ### Answers -/

theorem answers_outlined {a a' : Answer} (ha : (outlined static).Answers a a') :
    a.outline static = a'.outline static := by
  cases ha with
  | handle type => exact congrArg Answer.handle (eq_of_rel type)
  | handles types => exact congrArg Answer.handles (List.forall₂_eq_eq_eq ▸ types)
  | truth b => rfl
  | field found => exact congrArg Answer.field (map_eq_of_rel (fun _ _ same => same) found)
  | fields listed =>
    have same := forall₂_map_eq_iff.mp listed
    rw [Answer.outline, Answer.outline, same]
  | method found => exact congrArg Answer.method (map_eq_of_rel (fun _ _ same => same) found)
  | methods listed => exact congrArg Answer.methods (forall₂_map_eq_iff.mp listed)

section Alike

variable (alike : (outlined static).Resembles h h')
include alike

/-- The hierarchies agree in all that a memo is asked for. -/
theorem sameReplies_outlined : h.SameReplies h' where
  chain c := by
    have chains := alike.chain (show (outlined static).handle c c from rfl)
    exact chains.eq (fun _ _ => errors_outlined) fun _ _ same => List.forall₂_eq_eq_eq ▸ same
  interfacesAlong chain := by
    have interfaces := alike.interfacesAlong (forall₂_eq_self chain)
    exact interfaces.eq (fun _ _ => errors_outlined) fun _ _ same => List.forall₂_eq_eq_eq ▸ same
  closureFrom seed := by
    have closures := alike.closureFrom (forall₂_eq_self seed)
    exact closures.eq (fun _ _ => errors_outlined) fun _ _ same => List.forall₂_eq_eq_eq ▸ same

/-- Walks meet the same types and fail in the same way. -/
theorem take_outlined (c : Handle) (n : Nat) :
    (Ascent.start c).take h n = (Ascent.start c).take h' n := by
  have walks := alike.take (show (outlined static).handle c c from rfl) n
  have same : List.Forall₂ Eq ((Ascent.start c).take h n) ((Ascent.start c).take h' n) :=
    walks.imp fun _ _ item =>
      eq_of_rel (rel_imp (fun _ _ hx => hx.eq (fun _ _ => errors_outlined) fun _ _ e => e) item)
  exact List.forall₂_eq_eq_eq ▸ same

/-- **Answers have the same outline.**  If the static bits are left out, they are asked for only by questions
for lists of fields, and of these nothing but a failure is in the outline. -/
theorem answer_outline (q : Query Symbol) :
    (h.answer q).map (·.outline static) = (h'.answer q).map (·.outline static) := by
  have outlines {V : Answer → Answer → Prop} (hV : ∀ a a', V a a' → a.outline static = a'.outline static)
      (answers : Agrees (outlined static).Errors V (h.answer q) (h'.answer q)) :
      (h.answer q).map (·.outline static) = (h'.answer q).map (·.outline static) :=
    (answers.map hV).eq (fun _ _ => errors_outlined) fun _ _ e => e
  cases static with
  | true =>
    have related : (outlined true).Relates h h' := { alike with lawful := lawful_outlined }
    exact outlines (fun _ _ => answers_outlined) (related.answer (queries_outlined q))
  | false =>
    cases lists : q.listsFields with
    | false => exact outlines (fun _ _ => answers_outlined) (alike.answer (queries_outlined q) lists)
    | true =>
      refine outlines ?_ (alike.answer_fields (queries_outlined q) lists)
      rintro _ _ ⟨fs, fs', rfl, rfl⟩
      rfl

end Alike

end Correspondence

/-- An answer with the outline of a field is a field with that outline. -/
theorem exists_field_of_outline {static : Bool} {f : Field} {x : Except ResolveError Answer}
    (e : x.map (·.outline static) = .ok (.field (some (f.outline static)))) :
    ∃ f', x = .ok (.field (some f')) ∧ f'.outline static = f.outline static := by
  obtain ⟨a, rfl, ha⟩ := map_eq_ok_iff.mp e
  cases a with
  | field found =>
    obtain ⟨f', rfl, same⟩ := Option.map_eq_some_iff.mp (Answer.field.inj ha)
    exact ⟨f', rfl, same⟩
  | _ => cases ha

/-! ### Operations on two scopes -/

namespace Scope

open Correspondence

/-- Scopes with types of the same outline, and with the same memo. -/
structure Outlined (static : Bool) (s s' : Scope) : Prop where
  alongside : (outlined static).Alongside s s'
  memo : s.memo = s'.memo

variable {static : Bool} {s s' : Scope} {d d' : Declaration} {o o' : Operation}
  {os os' : List Operation}

theorem memo_add (s : Scope) (d : Declaration) : (s.add d).2.memo =
    match (s.add d).1 with
    | .ok _ => s.memo.clear
    | .error _ => s.memo := by
  obtain ⟨c, h', -, added⟩ | ⟨r, -, refused⟩ := add_cases s d
  · rw [added]
  · rw [refused]

namespace Outlined

theorem resembles (hs : s.Outlined static s') :
    (outlined static).Resembles s.hierarchy s'.hierarchy :=
  hs.alongside.resembles (steady_outlined static)

theorem answer_eq (hs : s.Outlined static s') (q : Query Symbol) :
    (s.ask q).1.map (·.outline static) = (s'.ask q).1.map (·.outline static) := by
  obtain ⟨root, left⟩ := hs.alongside.left
  obtain ⟨root', right⟩ := hs.alongside.right
  rw [left.ask_eq, right.ask_eq]
  exact answer_outline hs.resembles q

theorem ask (hs : s.Outlined static s') (q : Query Symbol) :
    (s.ask q).2.Outlined static (s'.ask q).2 :=
  ⟨hs.alongside.ask q q, memo_ask_eq (sameReplies_outlined hs.resembles) hs.memo q⟩

theorem add (hs : s.Outlined static s') (same : d.outline static = d'.outline static) :
    (s.add d).1 = (s'.add d').1 ∧ (s.add d).2.Outlined static (s'.add d').2 := by
  obtain ⟨verdicts, alongside⟩ :=
    hs.alongside.add (steady_outlined static) (declarations_outlined_iff.mpr same)
  have verdict := verdicts.eq (fun _ _ => declareErrors_outlined) fun _ _ e => e
  refine ⟨verdict, alongside, ?_⟩
  rw [memo_add, memo_add, verdict, hs.memo]

/-- **One operation** of one outline has an outcome of one outline, and leaves the scopes as they should
be. -/
theorem perform (hs : s.Outlined static s') (same : o.outline static = o'.outline static) :
    (s.perform o).1.outline static = (s'.perform o').1.outline static ∧
      (s.perform o).2.Outlined static (s'.perform o').2 := by
  cases o with
  | add d =>
    cases o' with
    | add d' =>
      obtain ⟨verdict, next⟩ := hs.add (Operation.add.inj same)
      exact ⟨congrArg Outcome.added verdict, next⟩
    | ask q' => cases same
  | ask q =>
    cases o' with
    | add d' => cases same
    | ask q' =>
      obtain rfl : q = q' := Operation.ask.inj same
      exact ⟨congrArg Outcome.answered (hs.answer_eq q), hs.ask q⟩

/-- **A run of operations** of one outline. -/
theorem run (hs : s.Outlined static s')
    (same : os.map (·.outline static) = os'.map (·.outline static)) :
    (s.run os).1.map (·.outline static) = (s'.run os').1.map (·.outline static) ∧
      (s.run os).2.Outlined static (s'.run os').2 := by
  induction os generalizing s s' os' with
  | nil =>
    obtain rfl := List.map_eq_nil_iff.mp same.symm
    exact ⟨rfl, hs⟩
  | cons o os ih =>
    obtain ⟨o', rest, rfl, first, others⟩ := List.map_eq_cons_iff.mp same.symm
    obtain ⟨outcome, next⟩ := hs.perform first.symm
    obtain ⟨outcomes, last⟩ := ih next others.symm
    exact ⟨congrArg₂ List.cons outcome outcomes, last⟩

/-- Scopes without types. -/
theorem new (root : Option TypeId) (memoize static : Bool) :
    (Scope.new root memoize).Outlined static (Scope.new root memoize) where
  alongside := ⟨⟨root, .new memoize⟩, ⟨root, .new memoize⟩, rel_eq_self root, .nil⟩
  memo := rfl

end Outlined

/-- **Resolution sees outlines only.**  Runs of operations that differ in nothing but positions, modifiers and
descriptors of fields come out alike at each step, in their answers and in what the memo has counted; if the
static bits of fields differ too, lists of fields are excepted. -/
theorem run_outline (root : Option TypeId) (memoize static : Bool) :
    (∀ (d d' : Declaration) (ms ms' : List Member), d.outline static = d'.outline static →
        ms.map (·.outline static) = ms'.map (·.outline static) →
        (d.addAll ms).map (·.outline static) = (d'.addAll ms').map (·.outline static)) ∧
      ∀ os os' : List Operation, os.map (·.outline static) = os'.map (·.outline static) →
        ((new root memoize).run os).1.map (·.outline static) =
            ((new root memoize).run os').1.map (·.outline static) ∧
          ∀ (n : Nat) (s s' : Scope), ((new root memoize).run (os.take n)).2 = s →
            ((new root memoize).run (os'.take n)).2 = s' →
            s.memo = s'.memo ∧
            (∀ id, s.hierarchy.find? id = s'.hierarchy.find? id) ∧
            (∀ c k, (Ascent.start c).take s.hierarchy k = (Ascent.start c).take s'.hierarchy k) ∧
            (∀ q, (s.ask q).1.map (·.outline static) = (s'.ask q).1.map (·.outline static)) ∧
            ∀ c name f, (s.ask (.field c name)).1 = .ok (.field (some f)) →
              ∃ f', (s'.ask (.field c name)).1 = .ok (.field (some f')) ∧ f'.name = f.name ∧
                f'.declaring = f.declaring := by
  refine ⟨fun d d' ms ms' => addAll_outline, fun os os' same => ⟨?_, ?_⟩⟩
  · exact ((Outlined.new root memoize static).run same).1
  · rintro n s s' rfl rfl
    have same : (os.take n).map (·.outline static) = (os'.take n).map (·.outline static) := by
      rw [List.map_take, List.map_take, same]
    obtain ⟨-, hs⟩ := (Outlined.new root memoize static).run same
    refine ⟨hs.memo, fun id => hs.alongside.find?_eq (steady_outlined static) rfl,
      take_outlined hs.resembles, hs.answer_eq, fun c name f found => ?_⟩
    have answers := hs.answer_eq (.field c name)
    rw [found] at answers
    obtain ⟨f', found', outline⟩ := exists_field_of_outline answers.symm
    exact ⟨f', found', (congrArg Field.name outline :), (congrArg Field.declaring outline :)⟩

/-- A type with a field, a type below it, and two questions.  The details are free. -/
def sketch (modifiers : Modifiers) (position : Option Position) (descriptor : Symbol) : List Operation :=
  let named (n : UInt32) : TypeId := ⟨⟨.empty⟩, ⟨n⟩⟩
  let field : Field := .new ⟨1⟩ descriptor modifiers position
  [.add ⟨named 1, .binary none [], modifiers, position, ⟨Roster.empty.add field, .empty⟩⟩,
    .add ⟨named 2, .binary (some (named 1)) [], modifiers, position, .empty⟩,
    .ask (.chainFields ⟨1⟩),
    .ask (.field ⟨1⟩ ⟨1⟩)]

/-- With details that differ in the static bit as well, the chain is looked up in the memo just as often, and
the field is found in the same type; but it stands in another list. -/
theorem run_outline_sketch :
    let s := ((new none true).run (sketch .staticFlag none ⟨2⟩)).2
    let s' := ((new none true).run (sketch .publicFlag (some (.ofUrl ⟨3⟩)) ⟨4⟩)).2
    s.memo = s'.memo ∧ s.memo.hits = 1 ∧
      (∃ f', (s'.ask (.field ⟨1⟩ ⟨1⟩)).1 = .ok (.field (some f')) ∧ f'.declaring = ⟨0⟩) ∧
      (s.ask (.chainStaticFields ⟨1⟩)).1 ≠ (s'.ask (.chainStaticFields ⟨1⟩)).1 := by
  intro s s'
  have same : (sketch .staticFlag none ⟨2⟩).map (·.outline false) =
      (sketch .publicFlag (some (.ofUrl ⟨3⟩)) ⟨4⟩).map (·.outline false) := by
    have members : (⟨Roster.empty.add (.new ⟨1⟩ ⟨2⟩ .staticFlag none), .empty⟩ : Members).outline false =
        (⟨Roster.empty.add (.new ⟨1⟩ ⟨4⟩ .publicFlag (some (.ofUrl ⟨3⟩))), .empty⟩ :
          Members).outline false := by
      decide +kernel
    simp [sketch, Operation.outline, Declaration.outline, members]
  obtain ⟨-, states⟩ := (run_outline none true false).2 _ _ same
  obtain ⟨memo, -, -, -, fields⟩ := states 4 s s' rfl rfl
  have found : (s.ask (.field ⟨1⟩ ⟨1⟩)).1 =
      .ok (.field (some (.withOwner ⟨0⟩ (.new ⟨1⟩ ⟨2⟩ .staticFlag none)))) := by
    decide +kernel
  obtain ⟨f', found', -, declaring⟩ := fields _ _ _ found
  exact ⟨memo, by decide +kernel, ⟨f', found', declaring⟩, by decide +kernel⟩

end Scope

end Lineage
