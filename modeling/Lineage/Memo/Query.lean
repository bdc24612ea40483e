import Lineage.Memo.Basic
import Lineage.Query

/-!
# Queries through a memo

The queries that look at all ancestors of a type, with the transitive questions put to a memo first.
A closure asks for the interfaces, and these ask for the chain, so a memo that knows nothing is left
with an answer to each.  The unions of members are formed anew from the chain; queries that climb only
as far as they need to do not use the memo.

Each query is written once, for any monad and with the way in which a transitive question is put as a
parameter (`Recall.answerBy`).  The library puts them by `remember` (`Recall.answer`).
-/

namespace Lineage.Recall

/-! ### By the way in which questions are put -/

section Put

variable {M : Type → Type} [Monad M] (put : MemoKey → M Reply → M Reply) (h : Hierarchy) (c : Handle)

def chainBy : M Reply := put ⟨c, .chain⟩ (pure (h.chain c))

def chainInterfacesBy : M Reply :=
  put ⟨c, .chainInterfaces⟩ do
    let chain ← chainBy put h c
    return chain >>= h.interfacesAlong

def interfaceClosureBy : M Reply :=
  put ⟨c, .interfaceClosure⟩ do
    let interfaces ← chainInterfacesBy put h c
    return interfaces >>= h.closureFrom

/-- What is collected along a chain. -/
def alongBy {α : Type} (collect : List Handle → α) : M (Except ResolveError α) := do
  let chain ← chainBy put h c
  return chain.map collect

/-- The instance fields of a chain, then its static fields.  The static ones are not asked for if there
are no instance fields to be had. -/
def chainFieldsBy : M (Except ResolveError (List Field)) := do
  match ← alongBy put h c h.instanceFieldsAlong with
  | .error e => return .error e
  | .ok instanceFields =>
    let staticFields ← alongBy put h c h.staticFieldsAlong
    return staticFields.map (instanceFields ++ ·)

/-- The first method of each selector, nearest first. -/
def effectiveMethodsBy : M (Except ResolveError (List Method)) := do
  let methods ← alongBy put h c h.methodsAlong
  return methods.map Hierarchy.firstPerSelector

/-- The answer to a query, with its transitive questions put by `put`. -/
def answerBy : Query Symbol → M (Except ResolveError Answer)
  | .chain c => (·.map .handles) <$> chainBy put h c
  | .chainInterfaces c => (·.map .handles) <$> chainInterfacesBy put h c
  | .interfaceClosure c => (·.map .handles) <$> interfaceClosureBy put h c
  | .implements c i =>
    (·.map fun closure => .truth (closure.contains i)) <$> interfaceClosureBy put h c
  | .chainInstanceFields c => (·.map .fields) <$> alongBy put h c h.instanceFieldsAlong
  | .chainStaticFields c => (·.map .fields) <$> alongBy put h c h.staticFieldsAlong
  | .chainFields c => (·.map .fields) <$> chainFieldsBy put h c
  | .chainMethods c => (·.map .methods) <$> alongBy put h c h.methodsAlong
  | .effectiveMethods c => (·.map .methods) <$> effectiveMethodsBy put h c
  | query => return h.answer query

end Put

/-! ### Put to the memo -/

section Remembered

variable (h : Hierarchy) (c : Handle)

/-- A type, followed by its superclasses up to the root. -/
def chain : Recall Reply := chainBy remember h c

def chainInterfaces : Recall Reply := chainInterfacesBy remember h c

def interfaceClosure : Recall Reply := interfaceClosureBy remember h c

def chainInstanceFields : Recall (Except ResolveError (List Field)) :=
  alongBy remember h c h.instanceFieldsAlong

def chainStaticFields : Recall (Except ResolveError (List Field)) :=
  alongBy remember h c h.staticFieldsAlong

def chainFields : Recall (Except ResolveError (List Field)) := chainFieldsBy remember h c

def chainMethods : Recall (Except ResolveError (List Method)) := alongBy remember h c h.methodsAlong

def effectiveMethods : Recall (Except ResolveError (List Method)) := effectiveMethodsBy remember h c

/-- The answer to a query, with the help of a memo. -/
def answer : Query Symbol → Recall (Except ResolveError Answer) := answerBy remember h

end Remembered

end Lineage.Recall
