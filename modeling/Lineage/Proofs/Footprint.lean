import Lineage.Proofs.Correspondence
import Lineage.Scope

/-!
# What a question leaves in the memo

Which answers a memo remembers after a question, and what it has counted, depends on the chains and the
interfaces of the types and on nothing else.  `Recall.Parallel V x x'` says that two computations change every
memo in the same way and give results that `V` relates; there is one rule for each way in which such
computations are put together.

Main fact: `Scope.memo_ask_eq`, the same question to two hierarchies that agree in chains and interfaces
leaves one memo the same.
-/

namespace Lineage

/-- The hierarchies agree in what a memo is asked for. -/
structure Hierarchy.SameReplies (h h' : Hierarchy) : Prop where
  chain : ∀ c, h.chain c = h'.chain c
  interfacesAlong : ∀ chain, h.interfacesAlong chain = h'.interfacesAlong chain
  closureFrom : ∀ seed, h.closureFrom seed = h'.closureFrom seed

namespace Recall

/-- From any memo the two computations come to one memo, with results that `V` relates. -/
def Parallel {α α' : Type} (V : α → α' → Prop) (x : Recall α) (x' : Recall α') : Prop :=
  ∀ m : Memo, V (x.run m).1 (x'.run m).1 ∧ (x.run m).2 = (x'.run m).2

section Rules

variable {α α' β β' : Type} {V : α → α' → Prop} {W : β → β' → Prop} {x : Recall α} {x' : Recall α'}

theorem parallel_pure {a : α} {a' : α'} (ha : V a a') : Parallel V (pure a) (pure a') :=
  fun _ => ⟨ha, rfl⟩

theorem parallel_self (x : Recall α) : Parallel Eq x x := fun _ => ⟨rfl, rfl⟩

theorem Parallel.bind {f : α → Recall β} {f' : α' → Recall β'} (hx : Parallel V x x')
    (hf : ∀ a a', V a a' → Parallel W (f a) (f' a')) : Parallel W (x >>= f) (x' >>= f') := by
  intro m
  obtain ⟨value, memo⟩ := hx m
  rw [StateT.run_bind, StateT.run_bind]
  show W ((f (x.run m).1).run (x.run m).2).1 ((f' (x'.run m).1).run (x'.run m).2).1 ∧
    ((f (x.run m).1).run (x.run m).2).2 = ((f' (x'.run m).1).run (x'.run m).2).2
  rw [memo]
  exact hf _ _ value _

theorem Parallel.map {f : α → β} {f' : α' → β'} (hx : Parallel V x x')
    (hf : ∀ a a', V a a' → W (f a) (f' a')) : Parallel W (f <$> x) (f' <$> x') := by
  intro m
  obtain ⟨value, memo⟩ := hx m
  exact ⟨hf _ _ value, memo⟩

end Rules

section Replies

variable {h h' : Hierarchy} (same : h.SameReplies h') {M : Type → Type} [Monad M]
  (put : MemoKey → M Reply → M Reply) (c : Handle)
include same

theorem chainBy_eq : chainBy put h c = chainBy put h' c := by
  rw [chainBy, chainBy, same.chain]

theorem chainInterfacesBy_eq : chainInterfacesBy put h c = chainInterfacesBy put h' c := by
  rw [chainInterfacesBy, chainInterfacesBy, chainBy_eq same, funext same.interfacesAlong]

theorem interfaceClosureBy_eq : interfaceClosureBy put h c = interfaceClosureBy put h' c := by
  rw [interfaceClosureBy, interfaceClosureBy, chainInterfacesBy_eq same, funext same.closureFrom]

end Replies

section Queries

variable {h h' : Hierarchy} (same : h.SameReplies h')
include same

/-- Whatever is collected along a chain, the memo is asked for the chain only. -/
theorem parallel_along {α α' : Type} (collect : List Handle → α) (collect' : List Handle → α')
    (c : Handle) : Parallel (Agrees Eq fun _ _ => True)
      (alongBy remember h c collect) (alongBy remember h' c collect') := by
  rw [alongBy, alongBy, chainBy_eq same]
  refine (parallel_self _).bind fun types types' e => parallel_pure ?_
  obtain rfl := e
  cases types with
  | ok types => exact .ok trivial
  | error e => exact .error rfl

/-- **A question leaves the same memo**, whatever the members are that it is answered with. -/
theorem parallel_answer (q : Query Symbol) :
    Parallel (fun _ _ => True) (answer h q) (answer h' q) := by
  have plain {α : Type} {x x' : Recall α} (e : x = x') (f f' : α → Except ResolveError Answer) :
      Parallel (fun _ _ => True) (f <$> x) (f' <$> x') :=
    e ▸ (parallel_self x).map fun _ _ _ => trivial
  have listed {α : Type} (collect collect' : List Handle → α) (c : Handle)
      (f f' : Except ResolveError α → Except ResolveError Answer) :
      Parallel (fun _ _ => True) (f <$> alongBy remember h c collect)
        (f' <$> alongBy remember h' c collect') :=
    (parallel_along same collect collect' c).map fun _ _ _ => trivial
  cases q with
  | chain c => exact plain (chainBy_eq same remember c) _ _
  | chainInterfaces c => exact plain (chainInterfacesBy_eq same remember c) _ _
  | interfaceClosure c | implements c i => exact plain (interfaceClosureBy_eq same remember c) _ _
  | chainInstanceFields c | chainStaticFields c | chainMethods c => exact listed _ _ c _ _
  | effectiveMethods c =>
    refine Parallel.map (V := fun _ _ => True) ?_ fun _ _ _ => trivial
    exact (parallel_along same _ _ c).map fun _ _ _ => trivial
  | chainFields c =>
    refine Parallel.map (V := fun _ _ => True) ?_ fun _ _ _ => trivial
    -- the static fields are asked for on both sides, or on neither
    refine (parallel_along same h.instanceFieldsAlong h'.instanceFieldsAlong c).bind fun x x' hx => ?_
    cases hx with
    | error failure => exact parallel_pure trivial
    | ok value => exact (parallel_along same _ _ c).map fun _ _ _ => trivial
  | _ => exact parallel_pure trivial

end Queries

end Recall

/-- A question to scopes with the same memo leaves the same memo, if the hierarchies agree in chains and
interfaces. -/
theorem Scope.memo_ask_eq {s s' : Scope} (same : s.hierarchy.SameReplies s'.hierarchy)
    (memo : s.memo = s'.memo) (q : Query Symbol) : (s.ask q).2.memo = (s'.ask q).2.memo := by
  show ((Recall.answer s.hierarchy q).run s.memo).2 = ((Recall.answer s'.hierarchy q).run s'.memo).2
  rw [memo]
  exact (Recall.parallel_answer same q s'.memo).2

end Lineage
