import Lineage.Query
import Lineage.Proofs.Failure
import Mathlib.Data.List.Forall2
import Mathlib.Data.Option.Basic

/-!
# Correspondences

Two hierarchies can hold the same types under other handles, with other symbols for the same strings, or
with other details in their members.  A correspondence says which handles, identities, names and members
of the one stand for which of the other; from that follows which ancestries, types, failures, questions
and answers do.

Main facts: `Agrees.bind` and `agrees_mapM` (corresponding parts make corresponding computations) and
`forall₂_eraseDupsBy` (leaving out repetitions respects a correspondence that respects equality).
-/

namespace Lineage

/-! ### Computations that correspond -/

/-- Both computations succeed, with values related by `V`, or both fail, with errors related by `E`. -/
inductive Agrees {ε ε' α β : Type} (E : ε → ε' → Prop) (V : α → β → Prop) :
    Except ε α → Except ε' β → Prop where
  | ok {a : α} {b : β} (value : V a b) : Agrees E V (.ok a) (.ok b)
  | error {e : ε} {e' : ε'} (failure : E e e') : Agrees E V (.error e) (.error e')

section Agrees

variable {ε ε' α α' β β' : Type} {E : ε → ε' → Prop} {R : α → α' → Prop} {V : β → β' → Prop}
  {x : Except ε α} {x' : Except ε' α'}

theorem Agrees.map {f : α → β} {f' : α' → β'} (hx : Agrees E R x x')
    (hf : ∀ a a', R a a' → V (f a) (f' a')) : Agrees E V (x.map f) (x'.map f') := by
  cases hx with
  | ok value => exact .ok (hf _ _ value)
  | error failure => exact .error failure

theorem Agrees.bind {f : α → Except ε β} {f' : α' → Except ε' β'} (hx : Agrees E R x x')
    (hf : ∀ a a', R a a' → Agrees E V (f a) (f' a')) : Agrees E V (x >>= f) (x' >>= f') := by
  cases hx with
  | ok value => exact hf _ _ value
  | error failure => exact .error failure

theorem agrees_mapM {f : α → Except ε β} {f' : α' → Except ε' β'} {l : List α} {l' : List α'}
    (hl : List.Forall₂ R l l') (hf : ∀ a a', R a a' → Agrees E V (f a) (f' a')) :
    Agrees E (List.Forall₂ V) (l.mapM f) (l'.mapM f') := by
  induction hl with
  | nil => exact .ok .nil
  | cons ha _ ih =>
    rw [List.mapM_cons, List.mapM_cons]
    exact (hf _ _ ha).bind fun b b' hb => ih.bind fun bs bs' hbs => .ok (.cons hb hbs)

theorem Agrees.mapError_eq {γ : Type} {f : ε → γ} {f' : ε' → γ} {y : Except ε' α} (hx : Agrees E Eq x y)
    (errors : ∀ e e', E e e' → f e = f' e') : x.mapError f = y.mapError f' := by
  cases hx with
  | ok same => exact congrArg Except.ok same
  | error failure => exact congrArg Except.error (errors _ _ failure)

/-- Computations that correspond are the same if nothing but the same corresponds. -/
theorem Agrees.eq {y y' : Except ε α} {E : ε → ε → Prop} {R : α → α → Prop} (hy : Agrees E R y y')
    (errors : ∀ e e', E e e' → e = e') (values : ∀ a a', R a a' → a = a') : y = y' := by
  cases hy with
  | ok value => exact congrArg Except.ok (values _ _ value)
  | error failure => exact congrArg Except.error (errors _ _ failure)

/-- Computations that correspond look the same if their errors and their values do. -/
theorem Agrees.view_eq {γ δ : Type} {f : ε → γ} {f' : ε' → γ} {g : α → δ} {g' : α' → δ}
    (hx : Agrees E R x x') (errors : ∀ e e', E e e' → f e = f' e')
    (values : ∀ a a', R a a' → g a = g' a') : (x.mapError f).map g = (x'.mapError f').map g' := by
  cases hx with
  | ok value => exact congrArg Except.ok (values _ _ value)
  | error failure => exact congrArg Except.error (errors _ _ failure)

/-- If the one computation succeeds, so does the other. -/
theorem Agrees.of_ok {a : α} (hx : Agrees E R x x') (e : x = .ok a) : ∃ a', x' = .ok a' ∧ R a a' := by
  cases hx with
  | @ok _ a' value =>
    cases e
    exact ⟨a', rfl, value⟩
  | error failure => cases e

/-- If the one computation fails, so does the other. -/
theorem Agrees.of_error {e : ε} (hx : Agrees E R x x') (he : x = .error e) :
    ∃ e', x' = .error e' ∧ E e e' := by
  cases hx with
  | ok value => cases he
  | @error _ e' failure =>
    cases he
    exact ⟨e', rfl, failure⟩

end Agrees

/-! ### Options and lists that correspond -/

section Options

variable {α α' β β' : Type} {R : α → α' → Prop} {o : Option α} {o' : Option α'}

/-- Both options are empty, or both hold something. -/
theorem rel_cases (ho : Option.Rel R o o') :
    (o = none ∧ o' = none) ∨ ∃ a a', o = some a ∧ o' = some a' ∧ R a a' := by
  cases ho with
  | none => exact .inl ⟨rfl, rfl⟩
  | @some a a' ha => exact .inr ⟨a, a', rfl, rfl, ha⟩

theorem rel_elim {P : β → β' → Prop} {b : β} {b' : β'} {f : α → β} {f' : α' → β'}
    (ho : Option.Rel R o o') (hn : P b b') (hs : ∀ a a', R a a' → P (f a) (f' a')) :
    P (o.elim b f) (o'.elim b' f') := by
  cases ho with
  | none => exact hn
  | some ha => exact hs _ _ ha

theorem rel_imp {V : α → α' → Prop} (sub : ∀ a a', R a a' → V a a') (ho : Option.Rel R o o') :
    Option.Rel V o o' := by
  cases ho with
  | none => exact .none
  | some ha => exact .some (sub _ _ ha)

theorem rel_filter {p : α → Bool} {p' : α' → Bool} (ho : Option.Rel R o o')
    (same : ∀ a a', R a a' → p a = p' a') : Option.Rel R (o.filter p) (o'.filter p') := by
  cases ho with
  | none => exact .none
  | @some a a' ha =>
    rw [Option.filter_some, Option.filter_some, same a a' ha]
    cases p' a' with
    | true => exact .some ha
    | false => exact .none

theorem rel_eq_self (o : Option α) : Option.Rel Eq o o := by
  cases o with
  | none => exact .none
  | some a => exact .some rfl

theorem eq_of_rel {o o' : Option α} (ho : Option.Rel Eq o o') : o = o' := by
  obtain ⟨rfl, rfl⟩ | ⟨a, a', rfl, rfl, rfl⟩ := rel_cases ho <;> rfl

theorem map_eq_of_rel {γ : Type} {f : α → γ} {f' : α' → γ} (same : ∀ a a', R a a' → f a = f' a')
    (ho : Option.Rel R o o') : o.map f = o'.map f' := by
  cases ho with
  | none => rfl
  | some ha => exact congrArg some (same _ _ ha)

theorem isSome_eq_of_rel (ho : Option.Rel R o o') : o.isSome = o'.isSome := by
  cases ho <;> rfl

end Options

section Lists

variable {α α' β β' : Type} {R : α → α' → Prop} {V : β → β' → Prop} {l : List α} {l' : List α'}

theorem rel_find? {p : α → Bool} {p' : α' → Bool} (hl : List.Forall₂ R l l')
    (same : ∀ a a', R a a' → p a = p' a') : Option.Rel R (l.find? p) (l'.find? p') := by
  induction hl with
  | nil => exact .none
  | @cons a a' l l' ha _ ih =>
    rw [List.find?_cons, List.find?_cons, same a a' ha]
    cases p' a' with
    | true => exact .some ha
    | false => exact ih

theorem rel_findSome? {f : α → Option β} {f' : α' → Option β'} (hl : List.Forall₂ R l l')
    (hf : ∀ a a', R a a' → Option.Rel V (f a) (f' a')) :
    Option.Rel V (l.findSome? f) (l'.findSome? f') := by
  induction hl with
  | nil => exact .none
  | @cons a a' l l' ha _ ih =>
    rw [List.findSome?_cons, List.findSome?_cons]
    obtain ⟨e, e'⟩ | ⟨b, b', e, e', hb⟩ := rel_cases (hf a a' ha)
    · rw [e, e']
      exact ih
    · rw [e, e']
      exact .some hb

theorem forall₂_filter {p : α → Bool} {p' : α' → Bool} (hl : List.Forall₂ R l l')
    (same : ∀ a a', R a a' → p a = p' a') : List.Forall₂ R (l.filter p) (l'.filter p') :=
  List.rel_filter (fun _ _ ha => Bool.eq_iff_iff.mp (same _ _ ha)) hl

theorem map_eq_of_forall₂ {γ : Type} {f : α → γ} {f' : α' → γ} (same : ∀ a a', R a a' → f a = f' a')
    (hl : List.Forall₂ R l l') : l.map f = l'.map f' := by
  induction hl with
  | nil => rfl
  | cons ha _ ih => rw [List.map_cons, List.map_cons, same _ _ ha, ih]

theorem forall₂_eq_self (l : List α) : List.Forall₂ Eq l l := List.forall₂_same.mpr fun _ _ => rfl

theorem forall₂_map_eq_iff {γ : Type} {f : α → γ} {l l' : List α} :
    List.Forall₂ (fun a a' => f a = f a') l l' ↔ l.map f = l'.map f := by
  constructor
  · exact map_eq_of_forall₂ fun _ _ same => same
  · intro same
    rw [← List.forall₂_map_right_iff, ← List.forall₂_map_left_iff (R := Eq), same]
    exact forall₂_eq_self _

theorem rel_getElem? (hl : List.Forall₂ R l l') (i : Nat) : Option.Rel R l[i]? l'[i]? := by
  induction hl generalizing i with
  | nil => exact .none
  | cons ha _ ih =>
    cases i with
    | zero => exact .some ha
    | succ i => exact ih i

/-- Items that repeat on the one side repeat on the other. -/
theorem forall₂_eraseDupsBy {eq : α → α → Bool} {eq' : α' → α' → Bool}
    (same : ∀ a a' b b', R a a' → R b b' → eq a b = eq' a' b') {l : List α} {l' : List α'}
    (hl : List.Forall₂ R l l') : List.Forall₂ R (l.eraseDupsBy eq) (l'.eraseDupsBy eq') := by
  match l, l', hl with
  | [], [], .nil => exact .nil
  | a :: l, a' :: l', .cons ha hl =>
    rw [List.eraseDupsBy_cons, List.eraseDupsBy_cons]
    refine .cons ha (forall₂_eraseDupsBy same (forall₂_filter hl fun b b' hb => ?_))
    rw [same b b' a a' hb ha]
termination_by l.length
decreasing_by exact Nat.lt_succ_of_le (List.length_filter_le _ _)

end Lists

theorem biUnique_eq {α : Type} : Relator.BiUnique (@Eq α) :=
  ⟨fun _ _ _ e e' => e.trans e'.symm, fun _ _ _ e e' => e.symm.trans e'⟩

/-- Repetitions are left out alike if the correspondence is one to one. -/
theorem forall₂_eraseDups {α α' : Type} [DecidableEq α] [DecidableEq α'] {R : α → α' → Prop}
    {l : List α} {l' : List α'} (unique : Relator.BiUnique R) (hl : List.Forall₂ R l l') :
    List.Forall₂ R l.eraseDups l'.eraseDups := by
  refine forall₂_eraseDupsBy (fun a a' b b' ha hb => ?_) hl
  rw [Bool.eq_iff_iff, beq_iff_eq, beq_iff_eq]
  exact Relator.rel_eq unique ha hb

/-! ### Correspondences -/

/-- What stands for what: handles, identities, names and members of one hierarchy and of another. -/
structure Correspondence where
  handle : Handle → Handle → Prop
  id : TypeId → TypeId → Prop
  name : Symbol → Symbol → Prop
  field : Field → Field → Prop
  method : Method → Method → Prop

namespace Correspondence

variable (r : Correspondence)

/-- Selectors correspond in name and descriptor. -/
structure Selectors (s s' : Selector) : Prop where
  name : r.name s.name s'.name
  descriptor : r.name s.descriptor s'.descriptor

/-- Handles, identities and names correspond one to one, and members that correspond are known by
corresponding names. -/
structure Coherent : Prop where
  handle_unique : Relator.BiUnique r.handle
  id_unique : Relator.BiUnique r.id
  name_unique : Relator.BiUnique r.name
  field_name : ∀ {f f' : Field}, r.field f f' → r.name f.name f'.name
  method_selector : ∀ {m m' : Method}, r.method m m' → r.Selectors m.selector m'.selector

/-- Moreover, a static field corresponds to a static one. -/
structure Lawful : Prop extends r.Coherent where
  field_static : ∀ {f f' : Field}, r.field f f' → f.isStatic = f'.isStatic

/-- Ancestries correspond if they name or record corresponding ancestors in the same way. -/
inductive Ancestries : Ancestry → Ancestry → Prop where
  | source {s s' : Option TypeId} {is is' : List TypeId} (superclass : Option.Rel r.id s s')
      (interfaces : List.Forall₂ r.id is is') : Ancestries (.source s is) (.source s' is')
  | binary {s s' : Option TypeId} {is is' : List TypeId} (superclass : Option.Rel r.id s s')
      (interfaces : List.Forall₂ r.id is is') : Ancestries (.binary s is) (.binary s' is')
  | synthetic {s s' : Option Handle} {is is' : List Handle} (superclass : Option.Rel r.handle s s')
      (interfaces : List.Forall₂ r.handle is is') : Ancestries (.synthetic s is) (.synthetic s' is')

/-- Tables correspond member by member. -/
structure Tables (t t' : Members) : Prop where
  fields : List.Forall₂ r.field t.fields t'.fields
  methods : List.Forall₂ r.method t.methods t'.methods

/-- Types correspond in identity, in ancestry, and member by member. -/
structure Nodes (n n' : TypeNode) : Prop where
  id : r.id n.id n'.id
  ancestry : r.Ancestries n.ancestry n'.ancestry
  members : r.Tables n.members n'.members

/-- Members of a declaration that correspond. -/
inductive Items : Member → Member → Prop where
  | field {f f' : Field} (field : r.field f f') : Items (.field f) (.field f')
  | method {m m' : Method} (method : r.method m m') : Items (.method m) (.method m')

/-- Declarations correspond in identity, in ancestry, and member by member. -/
structure Declarations (d d' : Declaration) : Prop where
  id : r.id d.id d'.id
  ancestry : r.Ancestries d.ancestry d'.ancestry
  members : r.Tables d.members d'.members

/-- Reasons of one kind for refusing a declaration, over corresponding identities, names and handles. -/
inductive DeclareErrors : DeclareError → DeclareError → Prop where
  | duplicateType {i i' : TypeId} {c c' : Handle} (id : r.id i i') (existing : r.handle c c') :
      DeclareErrors (.duplicateType i c) (.duplicateType i' c')
  | duplicateField {i i' : TypeId} {n n' : Symbol} (id : r.id i i') (name : r.name n n') :
      DeclareErrors (.duplicateField i n) (.duplicateField i' n')
  | duplicateMethod {i i' : TypeId} {u u' : Selector} (id : r.id i i') (selector : r.Selectors u u') :
      DeclareErrors (.duplicateMethod i u) (.duplicateMethod i' u')
  | unknownAncestor {i i' : TypeId} {c c' : Handle} (id : r.id i i') (ancestor : r.handle c c') :
      DeclareErrors (.unknownAncestor i c) (.unknownAncestor i' c')
  | tooManyTypes : DeclareErrors .tooManyTypes .tooManyTypes

/-- Failures of one kind, at corresponding types and over corresponding identities. -/
inductive Errors : ResolveError → ResolveError → Prop where
  | missingSuperclass {c c' : Handle} {i i' : TypeId} (type : r.handle c c') (missing : r.id i i') :
      Errors (.missingSuperclass c i) (.missingSuperclass c' i')
  | missingInterface {c c' : Handle} {i i' : TypeId} (type : r.handle c c') (missing : r.id i i') :
      Errors (.missingInterface c i) (.missingInterface c' i')
  | cycle {c c' : Handle} (type : r.handle c c') : Errors (.cycle c) (.cycle c')
  | unknownType {c c' : Handle} (type : r.handle c c') : Errors (.unknownType c) (.unknownType c')

/-- The same question about corresponding types and names. -/
inductive Queries : Query Symbol → Query Symbol → Prop where
  | superclass {c c' : Handle} (type : r.handle c c') : Queries (.superclass c) (.superclass c')
  | interfaces {c c' : Handle} (type : r.handle c c') : Queries (.interfaces c) (.interfaces c')
  | chain {c c' : Handle} (type : r.handle c c') : Queries (.chain c) (.chain c')
  | chainInterfaces {c c' : Handle} (type : r.handle c c') :
      Queries (.chainInterfaces c) (.chainInterfaces c')
  | interfaceClosure {c c' : Handle} (type : r.handle c c') :
      Queries (.interfaceClosure c) (.interfaceClosure c')
  | inherits {c c' a a' : Handle} (type : r.handle c c') (ancestor : r.handle a a') :
      Queries (.inherits c a) (.inherits c' a')
  | implements {c c' i i' : Handle} (type : r.handle c c') (interface : r.handle i i') :
      Queries (.implements c i) (.implements c' i')
  | field {c c' : Handle} {n n' : Symbol} (type : r.handle c c') (name : r.name n n') :
      Queries (.field c n) (.field c' n')
  | method {c c' : Handle} {n n' d d' : Symbol} (type : r.handle c c') (name : r.name n n')
      (descriptor : r.name d d') : Queries (.method c n d) (.method c' n' d')
  | ownInstanceFields {c c' : Handle} (type : r.handle c c') :
      Queries (.ownInstanceFields c) (.ownInstanceFields c')
  | ownStaticFields {c c' : Handle} (type : r.handle c c') :
      Queries (.ownStaticFields c) (.ownStaticFields c')
  | ownMethods {c c' : Handle} (type : r.handle c c') : Queries (.ownMethods c) (.ownMethods c')
  | chainInstanceFields {c c' : Handle} (type : r.handle c c') :
      Queries (.chainInstanceFields c) (.chainInstanceFields c')
  | chainStaticFields {c c' : Handle} (type : r.handle c c') :
      Queries (.chainStaticFields c) (.chainStaticFields c')
  | chainFields {c c' : Handle} (type : r.handle c c') : Queries (.chainFields c) (.chainFields c')
  | chainMethods {c c' : Handle} (type : r.handle c c') :
      Queries (.chainMethods c) (.chainMethods c')
  | effectiveMethods {c c' : Handle} (type : r.handle c c') :
      Queries (.effectiveMethods c) (.effectiveMethods c')

/-- Answers of one kind, item by item. -/
inductive Answers : Answer → Answer → Prop where
  | handle {c c' : Option Handle} (type : Option.Rel r.handle c c') : Answers (.handle c) (.handle c')
  | handles {cs cs' : List Handle} (types : List.Forall₂ r.handle cs cs') :
      Answers (.handles cs) (.handles cs')
  | truth (b : Bool) : Answers (.truth b) (.truth b)
  | field {f f' : Option Field} (field : Option.Rel r.field f f') : Answers (.field f) (.field f')
  | fields {fs fs' : List Field} (fields : List.Forall₂ r.field fs fs') :
      Answers (.fields fs) (.fields fs')
  | method {m m' : Option Method} (method : Option.Rel r.method m m') :
      Answers (.method m) (.method m')
  | methods {ms ms' : List Method} (methods : List.Forall₂ r.method ms ms') :
      Answers (.methods ms) (.methods ms')

end Correspondence

end Lineage
