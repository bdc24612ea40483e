import Lineage.Proofs.Foreign
import Lineage.Proofs.Lookup

/-!
# Shadowing

What a lookup finds from a type upwards is what the type declares itself, or else what is found from its
superclass upwards.  A walk from the type remembers one type more than a walk from the superclass, and
that makes no difference unless the walk comes back to it.  On a circle the two walks meet the same
types and fail at different ones: each at the type that it started from.

Main facts: `Climb.of_same_met` and `Climb.resume` (walks that remember different types), `climb_around`
(the two walks round a circle) and `shadowing`; at the end the answers of a scope.
-/

namespace Lineage

namespace Hierarchy

variable {h : Hierarchy} {c p t : Handle} {met met' types more : List Handle}
  {ending : Option ResolveError} {e : ResolveError} {n : Nat}

/-! ### What a walk remembers -/

namespace Climb

/-- A walk takes the same course if it remembers the same of what lies ahead. -/
theorem of_same_met (hc : h.Climb met c types ending)
    (same : ∀ t, h.Above c t → (t ∈ met' ↔ t ∈ met)) : h.Climb met' c types ending := by
  induction hc generalizing met' with
  | again old => exact .again ((same _ (.refl h _)).mpr old)
  | foreign new e => exact .foreign (fun hm => new ((same _ (.refl h _)).mp hm)) e
  | broken new e => exact .broken (fun hm => new ((same _ (.refl h _)).mp hm)) e
  | root new e => exact .root (fun hm => new ((same _ (.refl h _)).mp hm)) e
  | up new e rest ih =>
    refine .up (fun hm => new ((same _ (.refl h _)).mp hm)) e (ih fun t above => ?_)
    rw [List.mem_cons, List.mem_cons, same t (above.up e)]

/-- A walk that comes back to a type goes on there if it remembers less. -/
theorem resume : ∀ {met fewer c types t}, h.Climb met c types (some (.cycle t)) →
    (∀ u ∈ fewer, u ∈ met) → h.Climb (types.reverse ++ fewer) t more ending →
    h.Climb fewer c (types ++ more) ending
  | _, _, _, _, _, .again _, _, further => further
  | _, fewer, c, _, _, .up new e rest, sub, further => by
    refine .up (fun hm => new (sub c hm)) e (resume rest (fun u hu => ?_) ?_)
    · rcases List.mem_cons.mp hu with rfl | hu
      · exact List.mem_cons_self
      · exact List.mem_cons_of_mem _ (sub u hu)
    · simpa using further

/-- A walk begins with its first type, or is over at once since it knows that type. -/
theorem mem_of_cycle (hc : h.Climb met p types (some (.cycle c))) : p = c ∨ p ∈ types := by
  cases hc with
  | again old => exact .inl rfl
  | up new e rest => exact .inr List.mem_cons_self

end Climb

/-! ### Circles -/

/-- The sequence of superclasses of a type that is its own ancestor never ends. -/
theorem OwnAncestor.ascend_ne_none (own : h.OwnAncestor c) (n : Nat) : h.ascend c n ≠ none := by
  obtain ⟨k, hk, again⟩ := own
  have far : n ≤ k * n := Nat.le_mul_of_pos_left n hk
  exact ascend_ne_none_of_le far (by simp [ascend_mul_of_own again])

/-- A type is its own ancestor if it lies above its superclass. -/
theorem ownAncestor_of_above (up : h.superclass c = .ok (some p)) (above : h.Above p c) :
    h.OwnAncestor c := by
  obtain ⟨n, hn⟩ := above
  exact ⟨n + 1, Nat.succ_pos n, by rw [ascend_succ' up, hn]⟩

/-- A walk from a type that is its own ancestor fails at that type. -/
theorem Climb.ending_of_ownAncestor (own : h.OwnAncestor c) (hc : h.Climb [] c types ending) :
    ending = some (.cycle c) := by
  cases ending with
  | none =>
    obtain ⟨n, t, -, hat⟩ := hc.endsAt
    exact absurd hat.last.2 (own.ascend_ne_none (n + 1))
  | some e =>
    cases e with
    | missingSuperclass t id =>
      obtain ⟨n, hat⟩ := hc.breaksAt
      exact absurd hat.last.2 (own.ascend_ne_none (n + 1))
    | missingInterface t id => exact absurd rfl (hc.ne_missingInterface t id)
    | cycle t => rw [hc.repeatsAt.eq_of_own_ancestor own]
    | unknownType t =>
      obtain ⟨⟨n, hat⟩, absent⟩ := hc.strays
      exact absurd (ascend_succ_of_error hat (superclass_of_foreign absent)) (own.ascend_ne_none (n + 1))

theorem chain_of_ownAncestor (own : h.OwnAncestor c) : h.chain c = .error (.cycle c) := by
  obtain ⟨types, ending, hc⟩ := exists_climb h [] c
  rw [chain_eq hc, hc.ending_of_ownAncestor own]
  rfl

/-- A walk from a type that is not its own ancestor is the type and then the walk from its superclass. -/
theorem climb_of_superclass (up : h.superclass c = .ok (some p)) (straight : ¬ h.OwnAncestor c)
    (hp : h.Climb [] p types ending) : h.Climb [] c (c :: types) ending := by
  refine .up List.not_mem_nil up (hp.of_same_met fun t above => ?_)
  have : t ≠ c := by
    rintro rfl
    exact straight (ownAncestor_of_above up above)
  simp [this]

/-- **Two walks round a circle**, from a type and from its superclass: they meet the same types, the one
its first type where the other meets its last, and each fails where it started. -/
theorem climb_around (up : h.superclass c = .ok (some p)) (own : h.OwnAncestor c) :
    ∃ rest, h.Climb [] c (c :: rest) (some (.cycle c)) ∧
      h.Climb [] p (rest ++ [c]) (some (.cycle p)) := by
  obtain ⟨types, ending, hc⟩ := exists_climb h [] c
  obtain rfl := hc.ending_of_ownAncestor own
  cases hc with
  | again old => exact absurd old List.not_mem_nil
  | @up _ _ p' rest _ new up' walk =>
    cases up.symm.trans up'
    refine ⟨rest, .up new up walk, walk.resume (by simp) ?_⟩
    have last : c ∉ rest.reverse ++ [] := by
      intro hm
      exact walk.not_mem_met c (by simpa using hm) List.mem_cons_self
    refine .up last up (.again ?_)
    have := walk.mem_of_cycle
    simpa using this

/-! ### Lookups from a type and from its superclass -/

section LookUp

variable {κ α β : Type} [Ord κ] [Std.TransOrd κ] {key : α → κ} {declared : Handle → Roster key}
  {k : κ} {a : α} {node : TypeNode}

/-- What a type declares itself is found, whatever lies above. -/
theorem lookUp_own (there : h.node? c = some node) (own : (declared c).find? k = some a) :
    h.lookUp declared c k = .ok (some a) := by
  obtain ⟨types, ending, hc⟩ := exists_climb h [] c
  obtain ⟨more, rfl⟩ := hc.starts List.not_mem_nil there
  rw [hc.lookUp_eq, List.findSome?_cons, own]
  rfl

section Undeclared

variable (new : (declared c).find? k = none)
include new

theorem lookUp_of_superclass_error (stuck : h.superclass c = .error e) :
    h.lookUp declared c k = .error e := by
  obtain ⟨absent, rfl⟩ | ⟨node, id, there, -, -, rfl⟩ := of_superclass_error stuck
  · exact search_of_foreign absent _
  · have hc : h.Climb [] c [c] (some (.missingSuperclass c id)) := .broken List.not_mem_nil stuck
    rw [hc.lookUp_eq, List.findSome?_cons, new]
    rfl

theorem lookUp_of_root (root : h.superclass c = .ok none) : h.lookUp declared c k = .ok none := by
  have hc : h.Climb [] c [c] none := .root List.not_mem_nil root
  rw [hc.lookUp_eq, List.findSome?_cons, new]
  rfl

theorem lookUp_of_superclass (up : h.superclass c = .ok (some p)) (straight : ¬ h.OwnAncestor c) :
    h.lookUp declared c k = h.lookUp declared p k := by
  obtain ⟨types, ending, hp⟩ := exists_climb h [] p
  rw [(climb_of_superclass up straight hp).lookUp_eq, hp.lookUp_eq, List.findSome?_cons, new]

/-- Round a circle the two lookups find the same, or nothing, and then each names its own type. -/
theorem lookUp_around (up : h.superclass c = .ok (some p)) (own : h.OwnAncestor c) :
    (∃ a, h.lookUp declared c k = .ok (some a) ∧ h.lookUp declared p k = .ok (some a)) ∨
      h.lookUp declared c k = .error (.cycle c) ∧ h.lookUp declared p k = .error (.cycle p) := by
  obtain ⟨rest, hc, hp⟩ := climb_around up own
  rw [hc.lookUp_eq, hp.lookUp_eq, List.findSome?_cons, new, List.findSome?_append,
    List.findSome?_cons, new]
  cases rest.findSome? fun t => (declared t).find? k with
  | some a => exact .inl ⟨a, rfl, rfl⟩
  | none => exact .inr ⟨rfl, rfl⟩

end Undeclared

/-- **The law of shadowing**, for questions that are answered by lookups. -/
theorem shadowing (declared : Handle → Roster key) {answer : Handle → Except ResolveError β}
    {wrap : Option α → β} (asks : ∀ t, answer t = (h.lookUp declared t k).map wrap)
    (there : h.node? c = some node) :
    (∀ a ∈ (declared c).toList, key a = k → answer c = .ok (wrap (some a))) ∧
      ((∀ a ∈ (declared c).toList, key a ≠ k) →
        (∀ e, h.superclass c = .error e → answer c = .error e) ∧
        (h.superclass c = .ok none → answer c = .ok (wrap none)) ∧
        ∀ p, h.superclass c = .ok (some p) →
          (¬ h.OwnAncestor c → answer c = answer p) ∧
          (h.OwnAncestor c →
            (∃ a, answer c = .ok (wrap (some a)) ∧ answer p = .ok (wrap (some a))) ∨
              answer c = .error (.cycle c) ∧ answer p = .error (.cycle p))) := by
  simp only [asks]
  refine ⟨fun a ha hk => ?_, fun none => ?_⟩
  · rw [lookUp_own there (Roster.find?_eq_some_iff_mem.mpr ⟨ha, hk⟩)]
    rfl
  · have new := Roster.find?_eq_none_iff_mem.mpr none
    refine ⟨fun e stuck => ?_, fun root => ?_, fun p up => ⟨fun straight => ?_, fun own => ?_⟩⟩
    · rw [lookUp_of_superclass_error new stuck]
      rfl
    · rw [lookUp_of_root new root]
      rfl
    · rw [lookUp_of_superclass new up straight]
    · obtain ⟨a, found, found'⟩ | ⟨failed, failed'⟩ := lookUp_around new up own
      · exact .inl ⟨a, by rw [found]; rfl, by rw [found']; rfl⟩
      · exact .inr ⟨by rw [failed]; rfl, by rw [failed']; rfl⟩

end LookUp

end Hierarchy

namespace Scope

variable {root : Option TypeId} {s : Scope} {c : Handle} {node : TypeNode}

/-- **Shadowing, type by type.**  A member of the type itself comes first; otherwise the lookup goes as it does for
the superclass, failures included.  Only on a circle do the two failures differ: each names its own type. -/
theorem Reachable.ask_shadowing (hs : s.Reachable root) (there : s.hierarchy.node? c = some node) :
    (∀ name,
      (∀ f ∈ node.members.fields, f.name = name →
        (s.ask (.field c name)).1 = .ok (.field (some f))) ∧
      ((∀ f ∈ node.members.fields, f.name ≠ name) →
        (∀ e, (s.ask (.superclass c)).1 = .error e → (s.ask (.field c name)).1 = .error e) ∧
        ((s.ask (.superclass c)).1 = .ok (.handle none) →
          (s.ask (.field c name)).1 = .ok (.field none)) ∧
        ∀ p, (s.ask (.superclass c)).1 = .ok (.handle (some p)) →
          (¬ s.hierarchy.OwnAncestor c → (s.ask (.field c name)).1 = (s.ask (.field p name)).1) ∧
          (s.hierarchy.OwnAncestor c →
            (∃ f, (s.ask (.field c name)).1 = .ok (.field (some f)) ∧
              (s.ask (.field p name)).1 = .ok (.field (some f))) ∨
            (s.ask (.field c name)).1 = .error (.cycle c) ∧
              (s.ask (.field p name)).1 = .error (.cycle p)))) ∧
      ∀ name descriptor,
        (∀ m ∈ node.members.methods, m.selector = ⟨name, descriptor⟩ →
          (s.ask (.method c name descriptor)).1 = .ok (.method (some m))) ∧
        ((∀ m ∈ node.members.methods, m.selector ≠ ⟨name, descriptor⟩) →
          (∀ e, (s.ask (.superclass c)).1 = .error e →
            (s.ask (.method c name descriptor)).1 = .error e) ∧
          ((s.ask (.superclass c)).1 = .ok (.handle none) →
            (s.ask (.method c name descriptor)).1 = .ok (.method none)) ∧
          ∀ p, (s.ask (.superclass c)).1 = .ok (.handle (some p)) →
            (¬ s.hierarchy.OwnAncestor c →
              (s.ask (.method c name descriptor)).1 = (s.ask (.method p name descriptor)).1) ∧
            (s.hierarchy.OwnAncestor c →
              (∃ m, (s.ask (.method c name descriptor)).1 = .ok (.method (some m)) ∧
                (s.ask (.method p name descriptor)).1 = .ok (.method (some m))) ∨
              (s.ask (.method c name descriptor)).1 = .error (.cycle c) ∧
                (s.ask (.method p name descriptor)).1 = .error (.cycle p))) := by
  have superclass (parent : Option Handle) :
      (s.ask (.superclass c)).1 = .ok (.handle parent) ↔ s.hierarchy.superclass c = .ok parent :=
    hs.ask_eq_ok_iff rfl fun _ => Answer.handle.inj
  have stuck (e : ResolveError) :
      (s.ask (.superclass c)).1 = .error e ↔ s.hierarchy.superclass c = .error e :=
    hs.ask_eq_error_iff rfl
  simp only [superclass, stuck, ← Hierarchy.ownMembers_of_some there]
  exact ⟨fun name => Hierarchy.shadowing s.hierarchy.fieldsOf
      (fun t => hs.ask_eq (.field t name)) there,
    fun name descriptor => Hierarchy.shadowing s.hierarchy.methodsOf
      (fun t => hs.ask_eq (.method t name descriptor)) there⟩

/-- Two types that inherit from each other, of which the second declares a field, and one below them. -/
def circling : Scope :=
  let named (n : UInt32) : TypeId := ⟨⟨.empty⟩, ⟨n⟩⟩
  loaded none [.new (named 1) (.binary (some (named 2)) []),
    { Declaration.new (named 2) (.binary (some (named 1)) []) with
      members := ⟨Roster.empty.add (.new ⟨1⟩ .empty .empty none), .empty⟩ },
    .new (named 3) (.binary (some (named 1)) [])]

/-- A field that no type declares is looked up in vain round the circle, and each of its types is named
where the lookup starts from it; the lookup from below is answered as the one from the circle.  The
field that is declared is found from both types. -/
theorem ask_shadowing_circling :
    circling.Reachable none ∧ circling.hierarchy.OwnAncestor ⟨0⟩ ∧
      ((circling.ask (.field ⟨0⟩ ⟨2⟩)).1 = .error (.cycle ⟨0⟩) ∧
        (circling.ask (.field ⟨1⟩ ⟨2⟩)).1 = .error (.cycle ⟨1⟩)) ∧
      (∃ f, (circling.ask (.field ⟨0⟩ ⟨1⟩)).1 = .ok (.field (some f)) ∧
        (circling.ask (.field ⟨1⟩ ⟨1⟩)).1 = .ok (.field (some f))) ∧
      ¬ circling.hierarchy.OwnAncestor ⟨2⟩ ∧
      (circling.ask (.field ⟨2⟩ ⟨2⟩)).1 = (circling.ask (.field ⟨0⟩ ⟨2⟩)).1 := by
  have reachable : circling.Reachable none := reachable_loaded none _
  have own : circling.hierarchy.OwnAncestor ⟨0⟩ := ⟨2, by decide, by decide +kernel⟩
  have straight : ¬ circling.hierarchy.OwnAncestor ⟨2⟩ := by
    intro again
    have : circling.hierarchy.chain ⟨2⟩ = .error (.cycle ⟨0⟩) := by decide +kernel
    cases this.symm.trans (Hierarchy.chain_of_ownAncestor again)
  have first : circling.hierarchy.node? ⟨0⟩ =
      some (Declaration.settle (.new ⟨⟨.empty⟩, ⟨1⟩⟩ (.binary (some ⟨⟨.empty⟩, ⟨2⟩⟩) [])) ⟨0⟩) := by
    decide +kernel
  have third : circling.hierarchy.node? ⟨2⟩ =
      some (Declaration.settle (.new ⟨⟨.empty⟩, ⟨3⟩⟩ (.binary (some ⟨⟨.empty⟩, ⟨1⟩⟩) [])) ⟨2⟩) := by
    decide +kernel
  have up : (circling.ask (.superclass ⟨0⟩)).1 = .ok (.handle (some ⟨1⟩)) := by decide +kernel
  have up' : (circling.ask (.superclass ⟨2⟩)).1 = .ok (.handle (some ⟨0⟩)) := by decide +kernel
  obtain ⟨fields, -⟩ := reachable.ask_shadowing first
  obtain ⟨fields', -⟩ := reachable.ask_shadowing third
  obtain ⟨-, -, around⟩ := (fields ⟨2⟩).2 (by decide +kernel)
  obtain ⟨-, -, around'⟩ := (fields ⟨1⟩).2 (by decide +kernel)
  obtain ⟨-, -, above⟩ := (fields' ⟨2⟩).2 (by decide +kernel)
  refine ⟨reachable, own, ?_, ?_, straight, (above ⟨0⟩ up').1 straight⟩
  · have failed : (circling.ask (.field ⟨0⟩ ⟨2⟩)).1 = .error (.cycle ⟨0⟩) := by decide +kernel
    rcases (around ⟨1⟩ up).2 own with ⟨f, found, -⟩ | both
    · cases failed.symm.trans found
    · exact both
  · have found : ((circling.ask (.field ⟨0⟩ ⟨1⟩)).1.map fun _ => ()) = .ok () := by decide +kernel
    rcases (around' ⟨1⟩ up).2 own with both | ⟨failed, -⟩
    · exact both
    · rw [failed] at found
      cases found

end Scope

end Lineage
