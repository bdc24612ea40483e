import Lineage.Proofs.Chain
import Lineage.Proofs.Nearest

/-!
# Overriding

Two ways to the methods of a type: the search for one selector, which climbs no further than it needs
to, and the list of effective methods, which is made from the whole chain.  On a chain that is complete
they agree on every selector; on one that is not there is no list, and the search finds what lies
before the failure.

Main facts: `findMethod_eq`, `of_effectiveMethods_ok` and `findMethod_of_effectiveMethods`; at the end
the same for the answers of a scope.
-/

namespace Lineage

namespace Hierarchy

variable {h : Hierarchy} {c t : Handle} {types : List Handle} {ending : Option ResolveError}
  {sel : Selector} {m : Method} {ms : List Method} {e : ResolveError}

/-- The methods that a type declares, with their index. -/
def methodsOf (h : Hierarchy) (t : Handle) : Roster Method.selector :=
  (h.ownMembers t).methodRoster

section Search

/-- The search for a selector, along the types that an ascent meets. -/
theorem findMethod_eq (hc : h.Climb [] c types ending) (sel : Selector) :
    h.findMethod c sel =
      (types.findSome? fun t => (h.methodsOf t).find? sel).elim (ending.elim (.ok none) .error)
        fun found => .ok (some found) :=
  hc.search_eq _

/-- If there is a list of effective methods, the chain is complete and the list is made from it. -/
theorem of_effectiveMethods_ok (hm : h.effectiveMethods c = .ok ms) :
    ∃ types, h.Climb [] c types none ∧ h.chainMethods c = .ok (h.methodsAlong types) ∧
      ms = firstPerSelector (h.methodsAlong types) := by
  obtain ⟨all, hall, rfl⟩ := map_eq_ok_iff.mp hm
  obtain ⟨types, hchain, rfl⟩ := map_eq_ok_iff.mp hall
  exact ⟨types, climb_of_chain_eq_ok hchain, hall, rfl⟩

/-- If there is none, the ascent failed in the same way. -/
theorem of_effectiveMethods_error (hm : h.effectiveMethods c = .error e) :
    ∃ types, h.Climb [] c types (some e) :=
  climb_of_chain_eq_error (map_eq_error_iff.mp (map_eq_error_iff.mp hm))

/-- **On a complete chain** the search finds what the list of effective methods holds. -/
theorem findMethod_of_effectiveMethods (hm : h.effectiveMethods c = .ok ms) (sel : Selector) :
    h.findMethod c sel = .ok (ms.find? fun m => m.selector = sel) := by
  obtain ⟨types, hc, -, rfl⟩ := of_effectiveMethods_ok hm
  have found : ((firstPerSelector (h.methodsAlong types)).find? fun m => m.selector = sel) =
      types.findSome? fun t => (h.methodsOf t).find? sel :=
    (find?_eraseDupsBy Method.selector _ sel).trans (find?_flatMap_eq_findSome? h.methodsOf types sel)
  rw [findMethod_eq hc, found]
  cases types.findSome? fun t => (h.methodsOf t).find? sel <;> rfl

end Search

end Hierarchy

namespace Scope

variable {root : Option TypeId} {s : Scope}

/-- **The list of effective methods and the search for one selector agree.**  If there is no list, a search finds
the nearest declaration that a walk meets before its failure, or fails like the list. -/
theorem ask_method_of_effectiveMethods (hs : s.Reachable root) (c : Handle) :
    (∀ ms, (s.ask (.effectiveMethods c)).1 = .ok (.methods ms) →
        (ms.map Method.selector).Nodup ∧
        (∃ all, (s.ask (.chainMethods c)).1 = .ok (.methods all) ∧ ms.Sublist all) ∧
        ∀ sel : Selector,
          (∀ m, (s.ask (.method c sel.name sel.descriptor)).1 = .ok (.method (some m)) ↔
            m ∈ ms ∧ m.selector = sel) ∧
          ((s.ask (.method c sel.name sel.descriptor)).1 = .ok (.method none) ↔
            ∀ m ∈ ms, m.selector ≠ sel)) ∧
      ∀ e, (s.ask (.effectiveMethods c)).1 = .error e →
        ∃ types : List Handle,
          Ascent.take s.hierarchy (types.length + 1) (.start c) =
            types.map (some <| .ok ·) ++ [some (.error e)] ∧
          ∀ sel : Selector,
            (∃ t m, (s.ask (.method c sel.name sel.descriptor)).1 = .ok (.method (some m)) ∧
              Nearest s.hierarchy.methodsOf types sel t m ∧ m.declaring = t) ∨
            (s.ask (.method c sel.name sel.descriptor)).1 = .error e ∧
              ∀ t ∈ types, ∀ m ∈ (s.hierarchy.methodsOf t).toList, m.selector ≠ sel := by
  have search (sel : Selector) (found : Option Method) :
      (s.ask (.method c sel.name sel.descriptor)).1 = .ok (.method found) ↔
        s.hierarchy.findMethod c sel = .ok found :=
    hs.ask_eq_ok_iff rfl fun _ => Answer.method.inj
  refine ⟨fun ms list => ?_, fun e failed => ?_⟩
  · have hm : s.hierarchy.effectiveMethods c = .ok ms :=
      (hs.ask_eq_ok_iff rfl fun _ => Answer.methods.inj).mp list
    obtain ⟨types, -, hall, rfl⟩ := Hierarchy.of_effectiveMethods_ok hm
    have nodup := nodup_map_eraseDupsBy Method.selector (s.hierarchy.methodsAlong types)
    have all := (hs.ask_eq_ok_iff (q := .chainMethods c) rfl fun _ => Answer.methods.inj).mpr hall
    refine ⟨nodup, ⟨_, all, eraseDupsBy_sublist Method.selector _⟩, fun sel => ⟨fun m => ?_, ?_⟩⟩
    · rw [search, Hierarchy.findMethod_of_effectiveMethods hm, Except.ok.injEq]
      exact find?_eq_some_iff_of_nodup Method.selector nodup
    · rw [search, Hierarchy.findMethod_of_effectiveMethods hm, Except.ok.injEq]
      simp
  · have hm : s.hierarchy.effectiveMethods c = .error e := (hs.ask_eq_error_iff rfl).mp failed
    obtain ⟨types, hc⟩ := Hierarchy.of_effectiveMethods_error hm
    refine ⟨types, hc.take_eq 0, fun sel => ?_⟩
    -- the failure at the end comes out only if no type before it declares the selector
    have answer := Hierarchy.findMethod_eq hc sel
    cases found : types.findSome? fun t => (s.hierarchy.methodsOf t).find? sel with
    | some m =>
      rw [found] at answer
      obtain ⟨t, near⟩ := findSome?_eq_some_iff_nearest.mp found
      have ⟨_, _, _, declared, _⟩ := near
      exact .inl ⟨t, m, (search sel (some m)).mpr answer, near,
        (hs.hierarchy.wellFormed.declaring_of_mem_methods declared).1⟩
    | none =>
      rw [found] at answer
      exact .inr ⟨(hs.ask_eq_error_iff rfl).mpr answer, findSome?_eq_none_iff_undeclared.mp found⟩

/-- A type that overrides one of its two methods, below a complete chain, and one whose superclass is
missing. -/
def overriding : Scope :=
  let named (n : UInt32) : TypeId := ⟨⟨.empty⟩, ⟨n⟩⟩
  let method (n : UInt32) : Method := .new ⟨⟨n⟩, .empty⟩ .empty none
  let one : Roster Method.selector := Roster.empty.add (method 1)
  loaded none [{ Declaration.new (named 1) (.binary none []) with members := ⟨.empty, one⟩ },
    { Declaration.new (named 2) (.binary (some (named 1)) []) with
      members := ⟨.empty, one.add (method 2)⟩ },
    { Declaration.new (named 3) (.binary (some (named 4)) []) with members := ⟨.empty, one⟩ }]

/-- On the complete chain each selector has the nearest method; on the other one a selector is found
below the failure or not at all. -/
theorem ask_method_overriding :
    overriding.Reachable none ∧
      (∃ ms, (overriding.ask (.effectiveMethods ⟨1⟩)).1 = .ok (.methods ms) ∧ ms.length = 2 ∧
        ∀ m, (overriding.ask (.method ⟨1⟩ ⟨1⟩ .empty)).1 = .ok (.method (some m)) ↔
          m ∈ ms ∧ m.selector = ⟨⟨1⟩, .empty⟩) ∧
      ∃ e, (overriding.ask (.effectiveMethods ⟨2⟩)).1 = .error e ∧
        (overriding.ask (.method ⟨2⟩ ⟨2⟩ .empty)).1 ≠ .ok (.method none) := by
  have reachable : overriding.Reachable none := reachable_loaded none _
  refine ⟨reachable, ?_, ?_⟩
  · have list : (overriding.ask (.effectiveMethods ⟨1⟩)).1 = .ok (.methods
        [.withOwner ⟨1⟩ (.new ⟨⟨1⟩, .empty⟩ .empty none),
          .withOwner ⟨1⟩ (.new ⟨⟨2⟩, .empty⟩ .empty none)]) := by
      decide +kernel
    obtain ⟨-, -, search⟩ := (ask_method_of_effectiveMethods reachable ⟨1⟩).1 _ list
    exact ⟨_, list, rfl, (search ⟨⟨1⟩, .empty⟩).1⟩
  · have failed : (overriding.ask (.effectiveMethods ⟨2⟩)).1 =
        .error (.missingSuperclass ⟨2⟩ ⟨⟨.empty⟩, ⟨4⟩⟩) := by
      decide +kernel
    obtain ⟨types, -, search⟩ := (ask_method_of_effectiveMethods reachable ⟨2⟩).2 _ failed
    refine ⟨_, failed, fun nothing => ?_⟩
    rcases search ⟨⟨2⟩, .empty⟩ with ⟨t, m, found, -⟩ | ⟨fails, -⟩
    · cases nothing.symm.trans found
    · cases nothing.symm.trans fails

end Scope

end Lineage
