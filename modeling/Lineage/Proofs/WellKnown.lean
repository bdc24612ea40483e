import Lineage.Proofs.Interning
import Lineage.Proofs.Lookup
import Lineage.Session
import Mathlib.Data.List.Nodup

/-!
# What every table agrees on

The predefined strings have their symbols from the start and keep them.  So a computation that interns no other
strings is constant: whichever table it is run on, it gives the same value and leaves the table as it was, and
this carries over to what is computed from constant computations.

Main facts: `exists_constant_selector` and `exists_constant_loader` (what is constant), `Constant.texts_selector` and
`Constant.text_loader` (a constant reads the same in every table, so different strings have different ones) and
`Session.ask_of_constant` (a constant query is answered by the scope alone); at the end the standard selectors
and loaders, and the static initializer of a type.
-/

namespace Lineage

open SymbolTable

/-! ### Constant computations -/

namespace Interning

variable {α β : Type} {x : Interning α} {a : α} {b : β} {s r : String} {t : SymbolTable}

/-- The computation gives this value on every table that arises from a new one, and leaves the table as it
was. -/
def Constant (x : Interning α) (a : α) : Prop :=
  ∀ t : SymbolTable, t.Reachable → x.run t = .ok (a, t)

namespace Constant

theorem pure (a : α) : Constant (Pure.pure a) a := fun _ _ => rfl

theorem bind {f : α → Interning β} (hx : Constant x a) (hf : Constant (f a) b) : Constant (x >>= f) b := by
  intro t ht
  rw [StateT.run_bind, hx t ht]
  exact hf t ht

theorem map (hx : Constant x a) (f : α → β) : Constant (f <$> x) (f a) := by
  intro t ht
  rw [StateT.run_map, hx t ht]
  rfl

end Constant

/-! ### Symbols, selectors and loaders -/

theorem exists_constant_symbol (hs : s ∈ predefined) : ∃ n, Constant (internString s) n := by
  obtain ⟨n, first, -⟩ := Reachable.new.intern_of_predefined hs
  have known : SymbolTable.new.find? s = some n := intern_eq_self_iff.mp first
  exact ⟨n, fun t ht => intern_of_some (ht.later_new.find?_eq known)⟩

theorem exists_constant_selector (hs : s ∈ predefined) (hr : r ∈ predefined) :
    ∃ sel, Constant (Selector.named s r) sel := by
  obtain ⟨n, hn⟩ := exists_constant_symbol hs
  obtain ⟨m, hm⟩ := exists_constant_symbol hr
  exact ⟨⟨n, m⟩, hn.bind (hm.bind (.pure _))⟩

theorem exists_constant_loader (hs : s ∈ predefined) : ∃ l, Constant (Loader.named s) l := by
  obtain ⟨n, hn⟩ := exists_constant_symbol hs
  exact ⟨⟨n⟩, hn.map Loader.mk⟩

namespace Constant

/-- A constant selector reads as its two strings in every table. -/
theorem texts_selector {sel : Selector} (h : Constant (Selector.named s r) sel) (ht : t.Reachable) :
    t.text sel.name = s ∧ t.text sel.descriptor = r := by
  obtain ⟨t₁, first, second⟩ := of_selector_ok (h t ht)
  have known : t.find? s = some sel.name := find?_intern_of_some second (find?_of_intern first)
  exact ⟨text_of_find? ht.addressable known, text_of_find? ht.addressable (find?_of_intern second)⟩

theorem text_loader {l : Loader} (h : Constant (Loader.named s) l) (ht : t.Reachable) :
    t.text l.name = s := by
  obtain ⟨n, e, rfl⟩ := run_map_eq_ok_iff.mp (h t ht)
  exact text_of_find? ht.addressable (find?_of_intern e)

/-- A query for a method is constant if its selector is. -/
theorem method {sel : Selector} (h : Constant (Selector.named s r) sel) (c : Handle) :
    Constant (Query.method c s r).intern (.method c sel.name sel.descriptor) := by
  intro t ht
  obtain ⟨t₁, first, second⟩ := of_selector_ok (h t ht)
  exact run_bind_eq_ok_iff.mpr ⟨_, t₁, first, run_bind_eq_ok_iff.mpr ⟨_, t, second, rfl⟩⟩

end Constant

end Interning

open Interning

/-- A constant query is answered by the scope alone: the table of the session has no influence on the answer, and
is left as it was. -/
theorem Session.ask_of_constant {q : Query String} {q' : Query Symbol} {t : SymbolTable}
    (constant : Constant q.intern q') (ht : t.Reachable) (s : Scope) :
    (Session.mk t s).ask q = .ok ((s.ask q').1, ⟨t, (s.ask q').2⟩) := by
  unfold Session.ask
  rw [constant t ht]
  rfl

/-! ### The standard identities -/

/-- **The standard selectors and loaders are the same everywhere**, and no table grows when they are asked for.  So
the answer to the query for a static initializer does not depend on the table; it is that of the lookup of a
method with this selector. -/
theorem standard_identities :
    ∃ (initializer constructor : Selector) (primordial application source synthetic : Loader),
      Constant Selector.staticInitializer initializer ∧ Constant Selector.constructor constructor ∧
      Constant Loader.primordial primordial ∧ Constant Loader.application application ∧
      Constant Loader.source source ∧ Constant Loader.synthetic synthetic ∧
      initializer ≠ constructor ∧ [primordial, application, source, synthetic].Nodup ∧
      (∀ t : SymbolTable, t.Reachable →
        t.text initializer.name = "<clinit>" ∧ t.text initializer.descriptor = "()V") ∧
      ∀ (root : Option TypeId) (s : Scope), s.Reachable root → ∀ c : Handle,
        ∃ answer : Except ResolveError Answer,
          (∀ t : SymbolTable, t.Reachable →
            (Session.mk t s).ask (.staticInitializer c) = .ok (answer, ⟨t, s⟩)) ∧
          answer = (s.ask (.method c initializer.name initializer.descriptor)).1 ∧
          ∃ (types : List Handle) (ending : Option ResolveError),
            (∀ n, (Ascent.start c).take s.hierarchy (types.length + 1 + n) =
              types.map (some <| .ok ·) ++ ending.map .error :: List.replicate n none) ∧
            ((∃ u ∈ types, (s.hierarchy.ownMembers u).hasMethod initializer = true) →
              ∃ u m, Nearest s.hierarchy.methodsOf types initializer u m ∧ m.declaring = u ∧
                answer = .ok (.method (some m))) ∧
            ((∀ u ∈ types, (s.hierarchy.ownMembers u).hasMethod initializer = false) →
              answer = ending.elim (.ok (.method none)) .error) := by
  obtain ⟨initializer, constant⟩ : ∃ sel, Constant (Selector.named "<clinit>" "()V") sel :=
    exists_constant_selector (by simp [predefined]) (by simp [predefined])
  obtain ⟨constructor, constant'⟩ : ∃ sel, Constant (Selector.named "<init>" "()V") sel :=
    exists_constant_selector (by simp [predefined]) (by simp [predefined])
  obtain ⟨primordial, hp⟩ : ∃ l, Constant (Loader.named "Primordial") l :=
    exists_constant_loader (by simp [predefined])
  obtain ⟨application, ha⟩ : ∃ l, Constant (Loader.named "Application") l :=
    exists_constant_loader (by simp [predefined])
  obtain ⟨source, hs⟩ : ∃ l, Constant (Loader.named "Source") l :=
    exists_constant_loader (by simp [predefined])
  obtain ⟨synthetic, hy⟩ : ∃ l, Constant (Loader.named "Synthetic") l :=
    exists_constant_loader (by simp [predefined])
  refine ⟨initializer, constructor, primordial, application, source, synthetic, constant, constant', hp, ha, hs,
    hy, ?_, ?_, fun t ht => constant.texts_selector ht, fun root s reachable c => ?_⟩
  · rintro rfl
    have names : "<clinit>" = "<init>" :=
      (constant.texts_selector .new).1.symm.trans (constant'.texts_selector .new).1
    exact absurd names (by decide)
  · refine List.Nodup.of_map (SymbolTable.new.text ·.name) ?_
    simp only [List.map_cons, List.map_nil, hp.text_loader .new, ha.text_loader .new, hs.text_loader .new,
      hy.text_loader .new]
    decide
  · obtain ⟨types, ending, hc⟩ := Hierarchy.exists_climb s.hierarchy [] c
    obtain ⟨found, undeclared, -⟩ := hc.nearest_answers s.hierarchy.methodsOf
      (fun _ _ => Answer.method.inj) (reachable.ask_eq (.method c initializer.name initializer.descriptor))
    refine ⟨_, fun t ht => Session.ask_of_constant (constant.method c) ht s, rfl, types, ending, hc.take_eq,
      fun there => ?_, undeclared⟩
    obtain ⟨u, m, near, e⟩ := found there
    have ⟨_, _, _, declared, _⟩ := near
    exact ⟨u, m, near, (reachable.hierarchy.wellFormed.declaring_of_mem_methods declared).1, e⟩

/-- A type with a static initializer, and one below it without. -/
def Scope.initialized : Scope :=
  let named (n : UInt32) : TypeId := ⟨⟨.empty⟩, ⟨n⟩⟩
  let initializer : Method := .new ⟨.ofSlot 9 0, .ofSlot 5 0⟩ .empty none
  loaded none [{ Declaration.new (named 1) (.binary none []) with
      members := ⟨.empty, Roster.empty.add initializer⟩ },
    .new (named 2) (.binary (some (named 1)) [])]

/-- The lower type has the inherited initializer, in a session with a new table and in one with a table that has
grown. -/
theorem standard_identities_inherited :
    Scope.initialized.Reachable none ∧ ∃ (t : SymbolTable) (m : Method),
      t.Reachable ∧ t ≠ .new ∧ m.declaring = ⟨0⟩ ∧
        (Session.mk .new .initialized).ask (.staticInitializer ⟨1⟩) =
          .ok (.ok (.method (some m)), ⟨.new, .initialized⟩) ∧
        (Session.mk t .initialized).ask (.staticInitializer ⟨1⟩) =
          .ok (.ok (.method (some m)), ⟨t, .initialized⟩) := by
  have reachable : Scope.initialized.Reachable none := Scope.reachable_loaded none _
  let t := SymbolTable.new.append "leaf"
  have grown : SymbolTable.new.intern "leaf" = .ok (.ofSlot 14 2, t) := by decide +kernel
  have symbols : Selector.staticInitializer.run .new =
      .ok (⟨.ofSlot 9 0, .ofSlot 5 0⟩, SymbolTable.new) := by
    decide +kernel
  have found : (Scope.initialized.ask (.method ⟨1⟩ (.ofSlot 9 0) (.ofSlot 5 0))).1 =
      .ok (.method (some (.withOwner ⟨0⟩ (.new ⟨.ofSlot 9 0, .ofSlot 5 0⟩ .empty none)))) := by
    decide +kernel
  obtain ⟨initializer, _, _, _, _, _, constant, -, -, -, -, -, -, -, -, answers⟩ := standard_identities
  have agreed := Except.ok.inj ((constant .new .new).symm.trans symbols)
  obtain rfl : initializer = ⟨.ofSlot 9 0, .ofSlot 5 0⟩ := congrArg Prod.fst agreed
  obtain ⟨answer, same, rfl, -⟩ := answers none .initialized reachable ⟨1⟩
  rw [found] at same
  exact ⟨reachable, t, _, .intern .new grown, by decide +kernel, rfl, same _ .new, same t (.intern .new grown)⟩

end Lineage
