import Lineage.Scope

/-!
# Faithful memos

A memo is faithful to a hierarchy when it remembers nothing that the types would not say themselves.
`Recall.Gives h x a` says that the computation `x`, started from a faithful memo, gives `a` and leaves
a faithful memo behind; there is one rule for each way in which such computations are put together.

Main fact: `Recall.answer_gives`, a query put through a faithful memo has the answer of
`Hierarchy.answer`.
-/

namespace Lineage

/-- The answer to a transitive question, found from the types alone. -/
def Hierarchy.reply (h : Hierarchy) (k : MemoKey) : Reply :=
  match k.question with
  | .chain => h.chain k.type
  | .chainInterfaces => h.chainInterfaces k.type
  | .interfaceClosure => h.interfaceClosure k.type

namespace Memo

/-- Each answer that the memo remembers is the one that the types of `h` give. -/
def Faithful (h : Hierarchy) (m : Memo) : Prop :=
  ∀ k r, m.entries[k]? = some r → r = h.reply k

variable {h : Hierarchy} {m : Memo}

theorem faithful_new (h : Hierarchy) (enabled : Bool) : (new enabled).Faithful h := by
  intro k r hr
  simp [new] at hr

/-- A memo without answers is faithful to every hierarchy, whatever it remembered before. -/
theorem faithful_clear (h : Hierarchy) (m : Memo) : m.clear.Faithful h := by
  intro k r hr
  simp [clear] at hr

theorem Faithful.hit (hm : m.Faithful h) : m.hit.Faithful h := hm

theorem Faithful.miss (hm : m.Faithful h) : m.miss.Faithful h := hm

theorem Faithful.store (hm : m.Faithful h) (k : MemoKey) : (m.store k (h.reply k)).Faithful h := by
  intro l r hr
  rw [Memo.store, Std.ExtTreeMap.getElem?_insert] at hr
  split at hr
  · rename_i hk
    rw [← Std.LawfulEqOrd.eq_of_compare hk]
    exact (Option.some.inj hr).symm
  · exact hm l r hr

end Memo

namespace Recall

/-- From a memo that is faithful to `h`, the computation gives `a` and leaves such a memo. -/
def Gives (h : Hierarchy) {α : Type} (x : Recall α) (a : α) : Prop :=
  ∀ m : Memo, m.Faithful h → ∃ m' : Memo, x.run m = (a, m') ∧ m'.Faithful h

section Rules

variable {h : Hierarchy} {α β : Type}

/-- A computation that leaves the memo alone. -/
theorem gives_pure (h : Hierarchy) (a : α) : Gives h (pure a) a :=
  fun m hm => ⟨m, rfl, hm⟩

theorem Gives.bind {x : Recall α} {f : α → Recall β} {a : α} {b : β} (hx : Gives h x a)
    (hf : Gives h (f a) b) : Gives h (x >>= f) b := by
  intro m hm
  obtain ⟨m₁, h₁, hm₁⟩ := hx m hm
  obtain ⟨m₂, h₂, hm₂⟩ := hf m₁ hm₁
  refine ⟨m₂, ?_, hm₂⟩
  rw [StateT.run_bind, h₁]
  exact h₂

theorem Gives.map {x : Recall α} {a : α} (hx : Gives h x a) (f : α → β) :
    Gives h (f <$> x) (f a) := by
  intro m hm
  obtain ⟨m', h', hm'⟩ := hx m hm
  refine ⟨m', ?_, hm'⟩
  rw [StateT.run_map, h']
  rfl

/-- An answer that the memo remembers needs no computation, and one that it does not remember is
stored: either way it is the answer of the types. -/
theorem Gives.remember {k : MemoKey} {find : Recall Reply} (hf : Gives h find (h.reply k)) :
    Gives h (remember k find) (h.reply k) := by
  intro m hm
  cases on : m.enabled with
  | false =>
    rw [remember_of_disabled on]
    exact hf m hm
  | true =>
    cases known : m.entries[k]? with
    | some r =>
      rw [remember_of_hit on known, hm k r known]
      exact ⟨m.hit, rfl, hm.hit⟩
    | none =>
      obtain ⟨m', h', hm'⟩ := hf m.miss hm.miss
      rw [remember_of_miss on known h']
      exact ⟨m'.store k (h.reply k), rfl, hm'.store k⟩

end Rules

section Queries

variable (h : Hierarchy) (c : Handle)

theorem chain_gives : Gives h (chain h c) (h.chain c) :=
  Gives.remember (k := ⟨c, .chain⟩) fun m hm => ⟨m, rfl, hm⟩

/-- The interfaces ask for the chain, through the same memo. -/
theorem chainInterfaces_gives : Gives h (chainInterfaces h c) (h.chainInterfaces c) :=
  Gives.remember (k := ⟨c, .chainInterfaces⟩) ((chain_gives h c).bind (gives_pure h _))

/-- The closure asks for the interfaces, through the same memo. -/
theorem interfaceClosure_gives : Gives h (interfaceClosure h c) (h.interfaceClosure c) :=
  Gives.remember (k := ⟨c, .interfaceClosure⟩) ((chainInterfaces_gives h c).bind (gives_pure h _))

theorem chainInstanceFields_gives : Gives h (chainInstanceFields h c) (h.chainInstanceFields c) :=
  (chain_gives h c).bind (gives_pure h _)

theorem chainStaticFields_gives : Gives h (chainStaticFields h c) (h.chainStaticFields c) :=
  (chain_gives h c).bind (gives_pure h _)

/-- Without instance fields the static ones are not asked for; the failure is the same. -/
theorem chainFields_gives : Gives h (chainFields h c) (h.chainFields c) := by
  refine (chainInstanceFields_gives h c).bind ?_
  rw [Hierarchy.chainFields]
  cases h.chainInstanceFields c with
  | error e => exact gives_pure h _
  | ok instanceFields =>
    refine (chainStaticFields_gives h c).bind ?_
    cases h.chainStaticFields c <;> exact gives_pure h _

theorem chainMethods_gives : Gives h (chainMethods h c) (h.chainMethods c) :=
  (chain_gives h c).bind (gives_pure h _)

theorem effectiveMethods_gives : Gives h (effectiveMethods h c) (h.effectiveMethods c) :=
  (chainMethods_gives h c).bind (gives_pure h _)

/-- A query put through a faithful memo has the answer that the types give. -/
theorem answer_gives (q : Query Symbol) : Gives h (answer h q) (h.answer q) := by
  cases q with
  | chain c => exact (chain_gives h c).map _
  | chainInterfaces c => exact (chainInterfaces_gives h c).map _
  | interfaceClosure c => exact (interfaceClosure_gives h c).map _
  | implements c i =>
    have := (interfaceClosure_gives h c).map (·.map fun closure => Answer.truth (closure.contains i))
    rw [Hierarchy.answer, Hierarchy.implements]
    cases hr : h.interfaceClosure c <;> rw [hr] at this <;> exact this
  | chainInstanceFields c => exact (chainInstanceFields_gives h c).map _
  | chainStaticFields c => exact (chainStaticFields_gives h c).map _
  | chainFields c => exact (chainFields_gives h c).map _
  | chainMethods c => exact (chainMethods_gives h c).map _
  | effectiveMethods c => exact (effectiveMethods_gives h c).map _
  | superclass c => exact gives_pure h _
  | interfaces c => exact gives_pure h _
  | inherits c a => exact gives_pure h _
  | field c name => exact gives_pure h _
  | method c name descriptor => exact gives_pure h _
  | ownInstanceFields c => exact gives_pure h _
  | ownStaticFields c => exact gives_pure h _
  | ownMethods c => exact gives_pure h _

end Queries

end Recall

end Lineage
