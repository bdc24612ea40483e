import Lineage.Query
import Lineage.Proofs.Chain
import Lineage.Proofs.Saturation
import Mathlib.Logic.Relation

/-!
# Defects

A question fails only over a defect of the hierarchy: a name behind which there is no type, a circle of
superclasses, or a foreign handle; and the defect lies at a type that the question comes to.

Main facts: `failsIn_answer`, for all questions at once, and what follows from it in a well-formed
hierarchy, where a question about a type of the hierarchy comes to no foreign handle
(`WellFormed.answer_ne_unknownType`) and a question about a foreign handle comes to nothing else
(`WellFormed.eq_subject_of_unknownType`).
-/

namespace Lineage

/-- The identity for which there is no type. -/
def ResolveError.missing? : ResolveError → Option TypeId
  | .missingSuperclass _ id | .missingInterface _ id => some id
  | .cycle _ | .unknownType _ => none

namespace Hierarchy

section Reached

/-- A type that lies above `c` in the sequence of superclasses, or is `c`. -/
def Above (h : Hierarchy) (c t : Handle) : Prop := ∃ n, h.ascend c n = some t

/-- A direct interface of a type, if the interfaces of the type can be determined. -/
def Extends (h : Hierarchy) (t i : Handle) : Prop := ∃ is, h.interfaces t = .ok is ∧ i ∈ is

/-- A type above `c`, or one that such a type extends, directly or not. -/
def Extended (h : Hierarchy) (c t : Handle) : Prop :=
  ∃ u, h.Above c u ∧ Relation.ReflTransGen h.Extends u t

/-- The types that a question can come to: the subject and its superclasses, and for the closure of
interfaces also what these extend. -/
def Reaches (h : Hierarchy) : Query Symbol → Handle → Prop
  | .interfaceClosure c => h.Extended c
  | .implements c _ => h.Extended c
  | q => h.Above q.subject

end Reached

/-- A failure with its reason in the hierarchy.  It is reported at a type that is above `c`, or at least
among those that were `reached`. -/
inductive Defect (h : Hierarchy) (c : Handle) (reached : Handle → Prop) : ResolveError → Prop where
  | missingSuperclass {t : Handle} {node : TypeNode} {id : TypeId} (above : h.Above c t)
      (there : h.node? t = some node) (named : h.superclassName node = some id)
      (absent : h.find? id = none) : Defect h c reached (.missingSuperclass t id)
  | missingInterface {t : Handle} {node : TypeNode} {id : TypeId} (near : reached t)
      (there : h.node? t = some node) (named : id ∈ node.ancestry.interfaceNames)
      (absent : h.find? id = none) : Defect h c reached (.missingInterface t id)
  | cycle {t : Handle} (above : h.Above c t) (own : h.OwnAncestor t) : Defect h c reached (.cycle t)
  | foreign {t : Handle} (near : reached t) (absent : h.node? t = none) :
      Defect h c reached (.unknownType t)

variable {h : Hierarchy} {c t u i p : Handle} {types : List Handle} {ending : Option ResolveError}
  {reached wider : Handle → Prop} {e : ResolveError} {q : Query Symbol}

theorem Above.refl (h : Hierarchy) (c : Handle) : h.Above c c := ⟨0, rfl⟩

theorem Above.up (step : h.superclass c = .ok (some p)) (above : h.Above p t) : h.Above c t := by
  obtain ⟨n, hn⟩ := above
  exact ⟨n + 1, by rw [ascend_succ' step, hn]⟩

/-- What holds of a type, and of the superclass of each type of which it holds, holds of all that lies
above. -/
theorem Above.induction {P : Handle → Prop} (above : h.Above c t) (start : P c)
    (step : ∀ u v, P u → h.superclass u = .ok (some v) → P v) : P t := by
  obtain ⟨n, hn⟩ := above
  induction n generalizing t with
  | zero =>
    cases hn
    exact start
  | succ n ih =>
    obtain ⟨u, hu, up⟩ := of_ascend_succ hn
    exact step u t (ih hu) up

theorem Above.trans (low : h.Above c t) (high : h.Above t u) : h.Above c u := by
  obtain ⟨m, hm⟩ := low
  obtain ⟨n, hn⟩ := high
  exact ⟨m + n, by rw [ascend_add_of_eq hm, hn]⟩

/-- What lies above a type is what is reached from it by steps to the superclass. -/
theorem above_iff_reflTransGen :
    h.Above c t ↔ Relation.ReflTransGen (fun u v => h.superclass u = .ok (some v)) c t := by
  constructor
  · intro above
    exact above.induction .refl fun u v path up => path.tail up
  · intro path
    induction path with
    | refl => exact .refl h c
    | tail _ up ih => exact ih.trans (.up up (.refl h _))

theorem Defect.mono (he : h.Defect c reached e) (sub : ∀ t, reached t → wider t) :
    h.Defect c wider e := by
  cases he with
  | missingSuperclass above there named absent =>
    exact .missingSuperclass above there named absent
  | missingInterface near there named absent =>
    exact .missingInterface (sub _ near) there named absent
  | cycle above own => exact .cycle above own
  | foreign near absent => exact .foreign (sub _ near) absent

/-- The type that is reported missing is not there. -/
theorem Defect.find?_eq_none {id : TypeId} (he : h.Defect c reached e) (missing : e.missing? = some id) :
    h.find? id = none := by
  cases he with
  | missingSuperclass above there named absent =>
    cases missing
    exact absent
  | missingInterface near there named absent =>
    cases missing
    exact absent
  | cycle above own => cases missing
  | foreign near absent => cases missing

/-! ### Single types -/

theorem failsIn_resolve (h : Hierarchy) (c : Handle) :
    FailsIn (h.Defect c (h.Above c)) (h.resolve c) := by
  cases hn : h.node? c with
  | none =>
    rw [resolve_of_none hn]
    exact failsIn_error (.foreign (.refl h c) hn)
  | some node =>
    rw [resolve_of_some hn]
    exact failsIn_ok node

theorem failsIn_superclass (h : Hierarchy) (c : Handle) :
    FailsIn (h.Defect c (h.Above c)) (h.superclass c) := by
  intro e he
  obtain ⟨hn, rfl⟩ | ⟨node, id, hn, named, absent, rfl⟩ := of_superclass_error he
  · exact .foreign (.refl h c) hn
  · exact .missingSuperclass (.refl h c) hn named absent

theorem failsIn_interfaces (near : reached t) : FailsIn (h.Defect c reached) (h.interfaces t) := by
  intro e he
  obtain ⟨hn, rfl⟩ | ⟨node, id, hn, named, absent, rfl⟩ := of_interfaces_error he
  · exact .foreign near hn
  · exact .missingInterface near hn named absent

/-! ### Ascents -/

namespace Climb

theorem above_of_mem (hc : h.Climb [] c types ending) (ht : t ∈ types) : h.Above c t := by
  obtain ⟨n, hn, rfl⟩ := List.mem_iff_getElem.mp ht
  exact ⟨n, by rw [← hc.getElem?_eq hn, List.getElem?_eq_getElem hn]⟩

theorem strays : ∀ {met c types t}, h.Climb met c types (some (.unknownType t)) →
    h.Above c t ∧ h.node? t = none
  | _, c, _, _, .foreign _ e => by
    obtain ⟨hn, -⟩ | ⟨_, _, _, _, _, he⟩ := of_superclass_error e
    · exact ⟨.refl h c, hn⟩
    · cases he
  | _, _, _, _, .up _ e rest => by
    obtain ⟨above, hn⟩ := strays rest
    exact ⟨above.up e, hn⟩

/-- The failure that ends an ascent is a defect. -/
theorem defect (hc : h.Climb [] c types (some e)) : h.Defect c (h.Above c) e := by
  cases e with
  | missingSuperclass t id =>
    obtain ⟨n, hat, stuck⟩ := hc.breaksAt
    obtain ⟨_, he⟩ | ⟨node, id', hn, named, absent, he⟩ := of_superclass_error stuck <;> cases he
    exact .missingSuperclass ⟨n, hat⟩ hn named absent
  | missingInterface t id => exact absurd rfl (hc.ne_missingInterface t id)
  | cycle t =>
    obtain ⟨j, hat, own, -⟩ := hc.repeatsAt.first_own_ancestor
    exact .cycle ⟨j, hat⟩ own
  | unknownType t =>
    obtain ⟨above, hn⟩ := hc.strays
    exact .foreign above hn

end Climb

theorem failsIn_chain (h : Hierarchy) (c : Handle) :
    FailsIn (h.Defect c (h.Above c)) (h.chain c) := by
  obtain ⟨types, ending, hc⟩ := exists_climb h [] c
  rw [chain_eq hc]
  cases ending with
  | none => exact failsIn_ok types
  | some e => exact failsIn_error hc.defect

theorem failsIn_search {α : Type} (h : Hierarchy) (probe : Handle → Option α) (c : Handle) :
    FailsIn (h.Defect c (h.Above c)) ((Ascent.start c).search h probe) := by
  obtain ⟨types, ending, hc⟩ := exists_climb h [] c
  rw [Ascent.start, hc.search_eq]
  cases types.findSome? probe with
  | some a => exact failsIn_ok (some a)
  | none =>
    cases ending with
    | none => exact failsIn_ok none
    | some e => exact failsIn_error hc.defect

/-! ### Interfaces -/

theorem failsIn_chainInterfaces (h : Hierarchy) (c : Handle) :
    FailsIn (h.Defect c (h.Above c)) (h.chainInterfaces c) := by
  refine (failsIn_chain h c).bind fun types hc => ?_
  refine (failsIn_mapM fun t ht => ?_).bind fun declared _ => failsIn_ok declared.flatten.eraseDups
  exact failsIn_interfaces ((climb_of_chain_eq_ok hc).above_of_mem ht)

/-- The interfaces of a chain are interfaces of its types. -/
theorem exists_extends_of_chainInterfaces {is : List Handle} (hi : h.chainInterfaces c = .ok is)
    (mem : i ∈ is) : ∃ t, h.Above c t ∧ h.Extends t i := by
  obtain ⟨types, hc, along⟩ := bind_eq_ok_iff.mp hi
  obtain ⟨declared, hd, union⟩ := bind_eq_ok_iff.mp along
  cases union
  obtain ⟨own, hown, hio⟩ := List.mem_flatten.mp (List.mem_eraseDups.mp mem)
  obtain ⟨t, ht, e⟩ := exists_of_mem_mapM hd hown
  exact ⟨t, (climb_of_chain_eq_ok hc).above_of_mem ht, own, e, hio⟩

/-- The expansion of types that were reached comes to such types only, and fails at one of them. -/
theorem failsIn_saturate (closed : ∀ t i, reached t → h.Extends t i → reached i) (w : Worklist)
    (start : ∀ t ∈ w.waiting, reached t) : FailsIn (h.Defect c reached) (w.saturate h) := by
  induction w using Worklist.saturate.induct (h := h) with
  | case1 w hw =>
    rw [Worklist.saturate_of_nil hw]
    exact failsIn_ok w.expanded
  | case2 w t rest hw e hi =>
    rw [Worklist.saturate_of_error hw hi, ← hi]
    exact failsIn_interfaces (start t (hw ▸ List.mem_cons_self))
  | case3 w t rest hw is hi ih =>
    rw [Worklist.saturate_of_ok hw hi]
    apply ih
    intro i mem
    rcases Worklist.of_mem_waiting_advance hw mem with mem | mem
    · exact start i mem
    · exact closed t i (start t (hw ▸ List.mem_cons_self)) ⟨is, hi, mem⟩

theorem failsIn_interfaceClosure (h : Hierarchy) (c : Handle) :
    FailsIn (h.Defect c (h.Extended c)) (h.interfaceClosure c) := by
  have chain : FailsIn (h.Defect c (h.Extended c)) (h.chainInterfaces c) :=
    (failsIn_chainInterfaces h c).mono fun e he => he.mono fun t above => ⟨t, above, .refl⟩
  refine chain.bind fun seed hseed => failsIn_saturate ?_ _ ?_
  · rintro t i ⟨u, above, path⟩ step
    exact ⟨u, above, path.tail step⟩
  · intro i mem
    obtain ⟨t, above, step⟩ := exists_extends_of_chainInterfaces hseed (List.mem_eraseDups.mp mem)
    exact ⟨t, above, .single step⟩

/-! ### Questions -/

/-- **A question fails only over a defect**, which lies at a type that the question comes to. -/
theorem failsIn_answer (h : Hierarchy) (q : Query Symbol) :
    FailsIn (h.Defect q.subject (h.Reaches q)) (h.answer q) := by
  cases q with
  | superclass c => exact (failsIn_superclass h c).map _
  | interfaces c => exact (failsIn_interfaces (.refl h c)).map _
  | chain c => exact (failsIn_chain h c).map _
  | chainInterfaces c => exact (failsIn_chainInterfaces h c).map _
  | interfaceClosure c => exact (failsIn_interfaceClosure h c).map _
  | inherits c a => exact ((failsIn_search h _ c).map _).map _
  | implements c i => exact ((failsIn_interfaceClosure h c).map _).map _
  | field c name => exact (failsIn_search h _ c).map _
  | method c name descriptor => exact (failsIn_search h _ c).map _
  | ownInstanceFields c | ownStaticFields c | ownMethods c =>
    exact ((failsIn_resolve h c).map _).map _
  | chainInstanceFields c | chainStaticFields c | chainMethods c =>
    exact ((failsIn_chain h c).map _).map _
  | chainFields c =>
    refine (((failsIn_chain h c).map _).bind fun instanceFields _ => ?_).map _
    exact ((failsIn_chain h c).map _).bind fun staticFields _ =>
      failsIn_ok (instanceFields ++ staticFields)
  | effectiveMethods c => exact (((failsIn_chain h c).map _).map _).map _

/-- Nothing lies above a foreign handle. -/
theorem eq_of_above_foreign (hn : h.node? c = none) (above : h.Above c t) : t = c := by
  obtain ⟨n, ht⟩ := above
  cases n with
  | zero => exact (Option.some.inj ht).symm
  | succ n =>
    have stuck := ascend_succ_of_error (ascend_zero h c) (superclass_of_foreign hn)
    exact absurd stuck (ascend_ne_none_of_le (Nat.le_add_left 1 n) (by simp [ht]))

theorem eq_subject_of_reaches (hn : h.node? q.subject = none) (ht : h.Reaches q t) :
    t = q.subject := by
  have extended {c : Handle} (hn : h.node? c = none) (ht : h.Extended c t) : t = c := by
    obtain ⟨u, above, path⟩ := ht
    obtain rfl := eq_of_above_foreign hn above
    rcases path.cases_head with rfl | ⟨i, ⟨is, e, -⟩, -⟩
    · rfl
    · rw [interfaces_of_foreign hn] at e
      cases e
  cases q with
  | interfaceClosure c => exact extended hn ht
  | implements c i => exact extended hn ht
  | _ => exact eq_of_above_foreign hn ht

namespace WellFormed

variable (hw : h.WellFormed)
include hw

theorem lt_size_of_above (known : c.index < h.size) (above : h.Above c t) : t.index < h.size :=
  above.induction known fun _ _ _ up => hw.superclass_lt up

/-- All that a question about a type of the hierarchy comes to belongs to the hierarchy. -/
theorem lt_size_of_reaches (known : q.subject.index < h.size) (ht : h.Reaches q t) :
    t.index < h.size := by
  have extended {c : Handle} (known : c.index < h.size) (ht : h.Extended c t) :
      t.index < h.size := by
    obtain ⟨u, above, path⟩ := ht
    cases path with
    | refl => exact hw.lt_size_of_above known above
    | tail _ step =>
      obtain ⟨is, e, mem⟩ := step
      exact hw.interface_lt e mem
  cases q with
  | interfaceClosure c => exact extended known ht
  | implements c i => exact extended known ht
  | _ => exact hw.lt_size_of_above known ht

/-- **A question about a type of the hierarchy** does not fail over a foreign handle. -/
theorem answer_ne_unknownType (known : q.subject.index < h.size) (u : Handle) :
    h.answer q ≠ .error (.unknownType u) := by
  intro he
  cases failsIn_answer h q _ he with
  | foreign near absent =>
    have := hw.lt_size_of_reaches known near
    have := node?_eq_none_iff.mp absent
    omega

/-- A question fails over a foreign handle only if it is about that handle. -/
theorem eq_subject_of_unknownType (he : h.answer q = .error (.unknownType u)) :
    u = q.subject := by
  cases hn : h.node? q.subject with
  | some node => exact absurd he (hw.answer_ne_unknownType (lt_size_of_node? hn) u)
  | none =>
    cases failsIn_answer h q _ he with
    | foreign near absent => exact eq_subject_of_reaches hn near

end WellFormed

end Hierarchy

end Lineage
