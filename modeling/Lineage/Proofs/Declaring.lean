import Lineage.Proofs.Failure
import Lineage.Proofs.Nearest
import Mathlib.Tactic.Common

/-!
# Declaring members

A member is refused just if its key is taken by one of its kind, and otherwise it goes to the end of the list of
its kind (`Declaration.add_eq_error_iff`, `Declaration.add_eq_ok_iff`).  So the members that have been declared
are always those that the table lists (`Declaration.lists_of_addAll`), and the first member that clashes with an
earlier one is the first that is refused.

Main facts: `Members.tabulates` (what a table says, in terms of its lists) and `Declaration.addAll_verdict`.
-/

namespace Lineage

/-! ### Members in a list -/

namespace Member

def field? : Member → Option Field
  | .field f => some f
  | .method _ => none

def method? : Member → Option Method
  | .field _ => none
  | .method m => some m

/-- The fields among the members, in order. -/
def fields (members : List Member) : List Field := members.filterMap field?

/-- The methods among the members, in order. -/
def methods (members : List Member) : List Method := members.filterMap method?

theorem fields_append (before after : List Member) : fields (before ++ after) = fields before ++ fields after :=
  List.filterMap_append

theorem methods_append (before after : List Member) :
    methods (before ++ after) = methods before ++ methods after :=
  List.filterMap_append

/-- The key of a field is that of one of the fields, or the key of a method that of one of the methods. -/
def Clashes (fields : List Field) (methods : List Method) : Member → Prop
  | .field f => ∃ g ∈ fields, g.name = f.name
  | .method m => ∃ n ∈ methods, n.selector = m.selector

/-- The error with which a member of the type is refused. -/
def refusal (id : TypeId) : Member → DeclareError
  | .field f => .duplicateField id f.name
  | .method m => .duplicateMethod id m.selector

/-- No two fields have the same name and no two methods the same selector. -/
def Distinct (members : List Member) : Prop :=
  ((fields members).map Field.name).Nodup ∧ ((methods members).map Method.selector).Nodup

/-- Among different members none clashes with those before it. -/
theorem Distinct.not_clashes {before after : List Member} {m : Member}
    (distinct : Distinct (before ++ m :: after)) : ¬ m.Clashes (fields before) (methods before) := by
  obtain ⟨names, selectors⟩ := distinct
  rw [fields_append, List.map_append, List.nodup_append] at names
  rw [methods_append, List.map_append, List.nodup_append] at selectors
  cases m with
  | field f =>
    rintro ⟨g, hg, same⟩
    exact names.2.2 _ (List.mem_map_of_mem hg) _ List.mem_cons_self same
  | method m =>
    rintro ⟨n, hn, same⟩
    exact selectors.2.2 _ (List.mem_map_of_mem hn) _ List.mem_cons_self same

end Member

/-! ### Member tables -/

namespace Members

variable {t t' : Members} {f g : Field} {m n : Method}

/-- Two tables that list the same members are the same. -/
theorem ext_lists (fields : t.fields = t'.fields) (methods : t.methods = t'.methods) : t = t' := by
  obtain ⟨fs, ms⟩ := t
  obtain ⟨fs', ms'⟩ := t'
  obtain rfl : fs = fs' := Roster.ext_toList fields
  obtain rfl : ms = ms' := Roster.ext_toList methods
  rfl

theorem addField_cases (t : Members) (f : Field) :
    ((∃ g ∈ t.fields, g.name = f.name) ∧ t.addField f = .error f ∧
        { t with fieldRoster := t.fieldRoster.add f } = t) ∨
      (∀ g ∈ t.fields, g.name ≠ f.name) ∧ ∃ t', t.addField f = .ok t' ∧
        t'.fields = t.fields ++ [f] ∧ t'.methods = t.methods := by
  obtain ⟨taken, refused, same⟩ | ⟨new, accepted, listed⟩ := t.fieldRoster.insert_cases f
  · exact .inl ⟨taken, by rw [addField, refused]; rfl, by rw [same]⟩
  · exact .inr ⟨new, { t with fieldRoster := t.fieldRoster.add f }, by rw [addField, accepted]; rfl,
      listed, rfl⟩

theorem addMethod_cases (t : Members) (m : Method) :
    ((∃ n ∈ t.methods, n.selector = m.selector) ∧ t.addMethod m = .error m ∧
        { t with methodRoster := t.methodRoster.add m } = t) ∨
      (∀ n ∈ t.methods, n.selector ≠ m.selector) ∧ ∃ t', t.addMethod m = .ok t' ∧
        t'.fields = t.fields ∧ t'.methods = t.methods ++ [m] := by
  obtain ⟨taken, refused, same⟩ | ⟨new, accepted, listed⟩ := t.methodRoster.insert_cases m
  · exact .inl ⟨taken, by rw [addMethod, refused]; rfl, by rw [same]⟩
  · exact .inr ⟨new, { t with methodRoster := t.methodRoster.add m }, by rw [addMethod, accepted]; rfl,
      rfl, listed⟩

/-- A field that is refused is handed back, and the table is as it was. -/
theorem of_addField_eq_error (refused : t.addField f = .error g) :
    g = f ∧ (∃ f' ∈ t.fields, f'.name = f.name) ∧ { t with fieldRoster := t.fieldRoster.add f } = t := by
  obtain ⟨taken, e, same⟩ | ⟨-, t', e, -⟩ := t.addField_cases f
  · cases e.symm.trans refused
    exact ⟨rfl, taken, same⟩
  · cases e.symm.trans refused

theorem of_addMethod_eq_error (refused : t.addMethod m = .error n) :
    n = m ∧ (∃ m' ∈ t.methods, m'.selector = m.selector) ∧
      { t with methodRoster := t.methodRoster.add m } = t := by
  obtain ⟨taken, e, same⟩ | ⟨-, t', e, -⟩ := t.addMethod_cases m
  · cases e.symm.trans refused
    exact ⟨rfl, taken, same⟩
  · cases e.symm.trans refused

/-- The table says that its members are these, in these orders: it lists them, finds each by its key and nothing
else, and splits the fields into the static ones and the others. -/
structure Tabulates (t : Members) (fields : List Field) (methods : List Method) : Prop where
  lists_fields : t.fields = fields
  lists_methods : t.methods = methods
  field?_eq_some_iff : ∀ name f, t.field? name = some f ↔ f ∈ fields ∧ f.name = name
  field?_eq_none_iff : ∀ name, t.field? name = none ↔ ∀ f ∈ fields, f.name ≠ name
  hasField : ∀ name, t.hasField name = (t.field? name).isSome
  method?_eq_some_iff : ∀ selector m, t.method? selector = some m ↔ m ∈ methods ∧ m.selector = selector
  method?_eq_none_iff : ∀ selector, t.method? selector = none ↔ ∀ m ∈ methods, m.selector ≠ selector
  hasMethod : ∀ selector, t.hasMethod selector = (t.method? selector).isSome
  partition : fields.partition Field.isStatic = (t.staticFields, t.instanceFields)

theorem tabulates (t : Members) : t.Tabulates t.fields t.methods where
  lists_fields := rfl
  lists_methods := rfl
  field?_eq_some_iff _ _ := Roster.find?_eq_some_iff_mem
  field?_eq_none_iff _ := Roster.find?_eq_none_iff_mem
  hasField := t.fieldRoster.contains_eq_isSome_find?
  method?_eq_some_iff _ _ := Roster.find?_eq_some_iff_mem
  method?_eq_none_iff _ := Roster.find?_eq_none_iff_mem
  hasMethod := t.methodRoster.contains_eq_isSome_find?
  partition := List.partition_eq_filter_filter ..

end Members

/-! ### Declarations -/

namespace Declaration

variable {d d' : Declaration} {m : Member} {e : DeclareError} {members before after : List Member}

/-- The declaration before any of its members. -/
def bare (d : Declaration) : Declaration := { d with members := .empty }

/-- What becomes of a declaration with one more member. -/
theorem add_cases (d : Declaration) (m : Member) :
    (m.Clashes d.members.fields d.members.methods ∧ d.add m = .error (m.refusal d.id)) ∨
      ¬ m.Clashes d.members.fields d.members.methods ∧ ∃ t, d.add m = .ok { d with members := t } ∧
        t.fields = d.members.fields ++ Member.fields [m] ∧
        t.methods = d.members.methods ++ Member.methods [m] := by
  cases m with
  | field f =>
    obtain ⟨taken, refused, -⟩ | ⟨new, t, accepted, fields, methods⟩ := d.members.addField_cases f
    · exact .inl ⟨taken, by rw [add, addField, refused]; rfl⟩
    · exact .inr ⟨fun ⟨g, hg, same⟩ => new g hg same, t, by rw [add, addField, accepted], fields,
        methods.trans (List.append_nil _).symm⟩
  | method m =>
    obtain ⟨taken, refused, -⟩ | ⟨new, t, accepted, fields, methods⟩ := d.members.addMethod_cases m
    · exact .inl ⟨taken, by rw [add, addMethod, refused]; rfl⟩
    · exact .inr ⟨fun ⟨n, hn, same⟩ => new n hn same, t, by rw [add, addMethod, accepted],
        fields.trans (List.append_nil _).symm, methods⟩

/-- If members are accepted, the declaration has them behind those that it had. -/
theorem lists_append_of_addAll (accepted : d.addAll members = .ok d') :
    ∃ t, d' = { d with members := t } ∧ t.fields = d.members.fields ++ Member.fields members ∧
      t.methods = d.members.methods ++ Member.methods members := by
  induction members generalizing d with
  | nil =>
    cases accepted
    exact ⟨_, rfl, (List.append_nil _).symm, (List.append_nil _).symm⟩
  | cons m rest ih =>
    rw [addAll, List.foldlM_cons] at accepted
    obtain ⟨d₁, first, later⟩ := bind_eq_ok_iff.mp accepted
    obtain ⟨-, refused⟩ | ⟨-, t₁, added, fields₁, methods₁⟩ := add_cases d m
    · cases refused.symm.trans first
    · cases added.symm.trans first
      obtain ⟨t, rfl, fields, methods⟩ := ih later
      refine ⟨t, rfl, ?_, ?_⟩
      · rw [fields, fields₁, List.append_assoc, ← Member.fields_append]
        rfl
      · rw [methods, methods₁, List.append_assoc, ← Member.methods_append]
        rfl

/-- Members that are accepted are the members that the declaration has. -/
theorem lists_of_addAll (accepted : d.bare.addAll members = .ok d') :
    ∃ t, d' = { d with members := t } ∧ t.fields = Member.fields members ∧
      t.methods = Member.methods members :=
  lists_append_of_addAll accepted

/-- Members that are accepted are different. -/
theorem distinct_of_addAll (accepted : d.bare.addAll members = .ok d') : Member.Distinct members := by
  obtain ⟨t, -, fields, methods⟩ := lists_of_addAll accepted
  exact ⟨fields ▸ t.fieldRoster.nodup_keys, methods ▸ t.methodRoster.nodup_keys⟩

/-- Members are refused over one that clashes with those before it, which were accepted. -/
theorem exists_clash_of_addAll (refused : d.bare.addAll members = .error e) :
    ∃ before m after d', members = before ++ m :: after ∧ d.bare.addAll before = .ok d' ∧
      m.Clashes (Member.fields before) (Member.methods before) ∧ e = m.refusal d.id := by
  obtain ⟨before, m, after, d', split, accepted, fails⟩ := foldlM_eq_error_iff.mp refused
  obtain ⟨t, rfl, fields, methods⟩ := lists_of_addAll accepted
  obtain ⟨clash, refused'⟩ | ⟨-, t', accepted', -⟩ := add_cases { d.bare with members := t } m
  · cases refused'.symm.trans fails
    rw [fields, methods] at clash
    exact ⟨before, m, after, _, split, accepted, clash, rfl⟩
  · cases accepted'.symm.trans fails

/-- Different members are all accepted. -/
theorem exists_addAll_iff : (∃ d', d.bare.addAll members = .ok d') ↔ Member.Distinct members := by
  constructor
  · rintro ⟨d', accepted⟩
    exact distinct_of_addAll accepted
  · intro distinct
    cases outcome : d.bare.addAll members with
    | ok d' => exact ⟨d', rfl⟩
    | error e =>
      obtain ⟨before, m, after, -, rfl, -, clash, -⟩ := exists_clash_of_addAll outcome
      exact absurd clash distinct.not_clashes

/-- The first member that clashes with earlier ones is the one that is refused. -/
theorem addAll_eq_error_iff : d.bare.addAll members = .error e ↔
    ∃ before m after, members = before ++ m :: after ∧ Member.Distinct before ∧
      m.Clashes (Member.fields before) (Member.methods before) ∧ e = m.refusal d.id := by
  constructor
  · intro refused
    obtain ⟨before, m, after, d', split, accepted, clash, e⟩ := exists_clash_of_addAll refused
    exact ⟨before, m, after, split, distinct_of_addAll accepted, clash, e⟩
  · rintro ⟨before, m, after, rfl, distinct, clash, rfl⟩
    obtain ⟨d', accepted⟩ := exists_addAll_iff.mpr distinct
    obtain ⟨t, rfl, fields, methods⟩ := lists_of_addAll accepted
    refine foldlM_eq_error_iff.mpr ⟨before, m, after, _, rfl, accepted, ?_⟩
    obtain ⟨-, refused⟩ | ⟨apart, -⟩ := add_cases { d.bare with members := t } m
    · exact refused
    · rw [fields, methods] at apart
      exact absurd clash apart

/-- **Members are accepted just if they are different**, fields by name and methods by selector.  Otherwise the
first one that clashes with an earlier one is handed back.  Accepted members are all that the table holds, and
the type that the declaration becomes owns each of them. -/
theorem addAll_verdict (d : Declaration) (members : List Member) :
    ((∃ d', d.bare.addAll members = .ok d') ↔
        ((Member.fields members).map Field.name).Nodup ∧
          ((Member.methods members).map Method.selector).Nodup) ∧
      (∀ e, d.bare.addAll members = .error e ↔
        ∃ before m after, members = before ++ m :: after ∧ Member.Distinct before ∧
          m.Clashes (Member.fields before) (Member.methods before) ∧ e = m.refusal d.id) ∧
      (∀ d', d.bare.addAll members = .ok d' →
        d' = { d with members := d'.members } ∧
          d'.members.Tabulates (Member.fields members) (Member.methods members) ∧
          ∀ c, (d'.settle c).members.Tabulates ((Member.fields members).map (·.withOwner c))
            ((Member.methods members).map (·.withOwner c))) ∧
      (∀ (t : Members) (f g : Field), t.addField f = .error g →
        g = f ∧ (∃ f' ∈ t.fields, f'.name = f.name) ∧ { t with fieldRoster := t.fieldRoster.add f } = t) ∧
      ∀ (t : Members) (m n : Method), t.addMethod m = .error n →
        n = m ∧ (∃ m' ∈ t.methods, m'.selector = m.selector) ∧
          { t with methodRoster := t.methodRoster.add m } = t := by
  refine ⟨exists_addAll_iff, fun e => addAll_eq_error_iff, fun d' accepted => ?_,
    fun t f g => Members.of_addField_eq_error, fun t m n => Members.of_addMethod_eq_error⟩
  obtain ⟨t, rfl, fields, methods⟩ := lists_of_addAll accepted
  have stamped (c : Handle) := (t.withOwner c).tabulates
  simp only [Members.fields_withOwner, Members.methods_withOwner, fields, methods] at stamped
  exact ⟨rfl, fields ▸ methods ▸ t.tabulates, stamped⟩

/-- A method may have the name of a field, but a second field may not, static or not. -/
example :
    (new ⟨⟨.empty⟩, ⟨1⟩⟩ (.binary none [])).bare.addAll [.field (.new ⟨2⟩ ⟨3⟩ .empty none),
      .method (.new ⟨⟨2⟩, ⟨3⟩⟩ .empty none), .field (.new ⟨2⟩ ⟨4⟩ .staticFlag none),
      .method (.new ⟨⟨2⟩, ⟨3⟩⟩ .finalFlag none)] = .error (.duplicateField ⟨⟨.empty⟩, ⟨1⟩⟩ ⟨2⟩) := by
  decide +kernel

end Declaration

end Lineage
