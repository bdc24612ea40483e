import Lineage.Proofs.Alongside
import Lineage.Proofs.SideBySide

/-!
# Sessions do not show their symbols

The same actions in two sessions, each with a symbol table that has a history of its own: the two
hierarchies that come about hold the same types under the same handles, spelt with different symbols.  Since
symbols are compared with each other only, each action shows the same in both.

Main facts: `Likewise.relates` (the hierarchies are alike), `Likewise.act` (what one action preserves) and
`Likewise.transcript` (what a run preserves); at the end sessions on any two tables.
-/

namespace Lineage

/-! ### Scopes -/

namespace TablePair

variable {p q : TablePair} {s s' : Scope}

/-- What is in symbols stays the same when the declaring type is recorded. -/
theorem Reachable.steady (hp : p.Reachable) : p.correspondence.Steady :=
  { hp.lawful_correspondence with
    handle_iff := Iff.rfl
    field_withOwner := fun _ hf => { hf with declaring := rfl }
    method_withOwner := fun _ hm => { hm with declaring := rfl } }

theorem alongside_later (hs : p.correspondence.Alongside s s') (grown : p.Later q) :
    q.correspondence.Alongside s s' where
  left := hs.left
  right := hs.right
  root := rel_imp (fun _ _ (hi : p.Ids _ _) => hi.later grown) hs.root
  types := hs.types.imp fun _ _ hk => nodes_later grown hk

/-- A question about the same handles and names is answered alike, with or without a memo. -/
theorem Reachable.ask (hp : p.Reachable) (hs : p.correspondence.Alongside s s') {x x' : Query Symbol}
    (hx : p.correspondence.Queries x x') :
    Agrees p.correspondence.Errors p.correspondence.Answers (s.ask x).1 (s'.ask x').1 := by
  obtain ⟨root, left⟩ := hs.left
  obtain ⟨root', right⟩ := hs.right
  rw [left.ask_eq, right.ask_eq]
  exact (hs.relates hp.steady hp.lawful_correspondence).answer hx

end TablePair

/-! ### Sessions -/

namespace Session

/-- The symbol tables of two sessions. -/
def tables (s s' : Session) : TablePair := ⟨s.symbols, s'.symbols⟩

/-- Sessions with the same types in the same order, up to symbols. -/
structure Likewise (s s' : Session) : Prop where
  tables : (s.tables s').Reachable
  scopes : (s.tables s').correspondence.Alongside s.scope s'.scope

variable {s s' u u' : Session} {w : WrittenDeclaration} {o o' : Outcome}
  {views views' : List ActionView} {actions : List Action}

namespace Likewise

/-! ### What is shown -/

section Shown

variable (hs : s.Likewise s')
include hs

theorem relates : (s.tables s').correspondence.Relates s.scope.hierarchy s'.scope.hierarchy :=
  hs.scopes.relates hs.tables.steady hs.tables.lawful_correspondence

/-- A type has one name in both sessions, and a foreign handle has none in either. -/
theorem nameOf_eq (c : Handle) :
    ResolveError.explain.nameOf s.scope.hierarchy s.symbols c =
      ResolveError.explain.nameOf s'.scope.hierarchy s'.symbols c := by
  rw [ResolveError.explain.nameOf, ResolveError.explain.nameOf]
  obtain ⟨e, e'⟩ | ⟨k, k', e, e', hk⟩ := rel_cases (hs.scopes.node c)
  · rw [e, e']
  · rw [e, e']
    exact hs.tables.display_eq hk.id

theorem explain_eq {e e' : ResolveError} (he : (s.tables s').correspondence.Errors e e') :
    e.explain s.scope.hierarchy s.symbols = e'.explain s'.scope.hierarchy s'.symbols := by
  cases he with
  | @missingSuperclass c _ _ _ type missing =>
    obtain rfl := type
    exact congrArg₂ ("cannot resolve superclass " ++ · ++ " of " ++ ·)
      (hs.tables.display_eq missing) (hs.nameOf_eq c)
  | @missingInterface c _ _ _ type missing =>
    obtain rfl := type
    exact congrArg₂ ("cannot resolve interface " ++ · ++ " of " ++ ·)
      (hs.tables.display_eq missing) (hs.nameOf_eq c)
  | @cycle c _ type =>
    obtain rfl := type
    exact congrArg (· ++ " is its own ancestor") (hs.nameOf_eq c)
  | unknownType type =>
    obtain rfl := type
    rfl

theorem failureView_eq {e e' : ResolveError} (he : (s.tables s').correspondence.Errors e e') :
    s.failureView e = s'.failureView e' :=
  congrArg₂ FailureView.mk (hs.tables.resolveError_view_eq he) (hs.explain_eq he)

/-- Walks from one handle look the same. -/
theorem walk_eq (c : Handle) (steps : Nat) : s.walk c steps = s'.walk c steps := by
  refine map_eq_of_forall₂ (fun i i' hi => map_eq_of_rel (fun x x' hx => ?_) hi)
    (hs.relates.take rfl steps)
  exact Agrees.mapError_eq hx fun _ _ => hs.failureView_eq

theorem root?_eq : s.scope.hierarchy.root? = s'.scope.hierarchy.root? := by
  rw [Hierarchy.root?, Hierarchy.root?]
  obtain ⟨e, e'⟩ | ⟨i, i', e, e', hi⟩ := rel_cases hs.scopes.root
  · rw [e, e']
    rfl
  · rw [e, e']
    exact hs.scopes.find?_eq hs.tables.steady hi

end Shown

/-! ### One request -/

section Step

variable (hs : s.Likewise s')
include hs

/-- What was interned since does not change the types. -/
theorem grow {t t' : SymbolTable} (grown : (s.tables s').Later ⟨t, t'⟩) :
    Likewise ⟨t, s.scope⟩ ⟨t', s'.scope⟩ :=
  ⟨hs.tables.later grown, TablePair.alongside_later hs.scopes grown⟩

/-- Two strings lead to the same handle. -/
theorem lookup {v : WrittenType} {r r' : Option Handle} (e : s.lookup v = .ok (r, u))
    (e' : s'.lookup v = .ok (r', u')) : r = r' ∧ u.Likewise u' := by
  obtain ⟨⟨i, t⟩, read, found⟩ := bind_eq_ok_iff.mp e
  obtain ⟨⟨i', t'⟩, read', found'⟩ := bind_eq_ok_iff.mp e'
  cases found
  cases found'
  obtain ⟨grown, hi⟩ := Interning.alike_type (s.tables s') v i t i' t' read read'
  have next := hs.grow grown
  exact ⟨next.scopes.find?_eq next.tables.steady hi, next⟩

theorem declare {r r' : Except DeclareError Handle} (e : s.declare w = .ok (r, u))
    (e' : s'.declare w = .ok (r', u')) :
    Agrees (u.tables u').correspondence.DeclareErrors Eq r r' ∧ u.Likewise u' := by
  obtain ⟨⟨x, t⟩, read, done⟩ := bind_eq_ok_iff.mp e
  obtain ⟨⟨x', t'⟩, read', done'⟩ := bind_eq_ok_iff.mp e'
  obtain ⟨grown, hx⟩ := Interning.alike_declaration hs.tables w x t x' t' read read'
  have next := hs.grow grown
  cases hx with
  | error refused =>
    cases done
    cases done'
    exact ⟨.error refused, next⟩
  | ok declared =>
    cases done
    cases done'
    obtain ⟨outcome, scopes⟩ := next.scopes.add next.tables.steady declared
    exact ⟨outcome, next.tables, scopes⟩

theorem ask {q : Query String} {r r' : Except ResolveError Answer} (e : s.ask q = .ok (r, u))
    (e' : s'.ask q = .ok (r', u')) :
    Agrees (u.tables u').correspondence.Errors (u.tables u').correspondence.Answers r r' ∧
      u.Likewise u' := by
  obtain ⟨⟨x, t⟩, read, done⟩ := bind_eq_ok_iff.mp e
  obtain ⟨⟨x', t'⟩, read', done'⟩ := bind_eq_ok_iff.mp e'
  obtain ⟨grown, hx⟩ := Interning.alike_query (s.tables s') q x t x' t' read read'
  have next := hs.grow grown
  cases done
  cases done'
  exact ⟨next.tables.ask next.scopes hx, next.tables, next.scopes.ask _ _⟩

/-- A request has the same outcome in both sessions, and leaves the same types. -/
theorem perform {request : Request} (e : s.perform request = .ok (o, u))
    (e' : s'.perform request = .ok (o', u')) : u.outcomeView o = u'.outcomeView o' ∧ u.Likewise u' := by
  cases request with
  | declare w =>
    obtain ⟨⟨r, v⟩, declared, done⟩ := bind_eq_ok_iff.mp e
    obtain ⟨⟨r', v'⟩, declared', done'⟩ := bind_eq_ok_iff.mp e'
    cases done
    cases done'
    obtain ⟨same, next⟩ := hs.declare declared declared'
    exact ⟨congrArg ActionView.added (same.mapError_eq fun _ _ => next.tables.declareError_view_eq),
      next⟩
  | ask q =>
    obtain ⟨⟨r, v⟩, asked, done⟩ := bind_eq_ok_iff.mp e
    obtain ⟨⟨r', v'⟩, asked', done'⟩ := bind_eq_ok_iff.mp e'
    cases done
    cases done'
    obtain ⟨same, next⟩ := hs.ask asked asked'
    refine ⟨congrArg ActionView.answered ?_, next⟩
    exact same.view_eq (fun _ _ => next.failureView_eq) fun _ _ => next.tables.answer_view_eq

/-- **One action** shows the same in both sessions, and leaves the same types. -/
theorem act {action : Action} {view view' : ActionView} (e : s.act action = .ok (view, u))
    (e' : s'.act action = .ok (view', u')) : view = view' ∧ u.Likewise u' := by
  cases action with
  | request request =>
    obtain ⟨⟨o, v⟩, performed, done⟩ := bind_eq_ok_iff.mp e
    obtain ⟨⟨o', v'⟩, performed', done'⟩ := bind_eq_ok_iff.mp e'
    cases done
    cases done'
    exact hs.perform performed performed'
  | lookup type =>
    obtain ⟨⟨c, v⟩, found, done⟩ := bind_eq_ok_iff.mp e
    obtain ⟨⟨c', v'⟩, found', done'⟩ := bind_eq_ok_iff.mp e'
    cases done
    cases done'
    obtain ⟨same, next⟩ := hs.lookup found found'
    exact ⟨congrArg ActionView.found same, next⟩
  | root =>
    cases e
    cases e'
    exact ⟨congrArg ActionView.found hs.root?_eq, hs⟩
  | walk c steps =>
    cases e
    cases e'
    exact ⟨congrArg ActionView.walked (hs.walk_eq c steps), hs⟩

end Step

/-! ### Runs -/

/-- **A run of actions** shows the same in both sessions. -/
theorem transcript (hs : s.Likewise s') (e : s.transcript actions = .ok (views, u))
    (e' : s'.transcript actions = .ok (views', u')) : views = views' ∧ u.Likewise u' := by
  induction actions generalizing s s' views views' with
  | nil =>
    cases e
    cases e'
    exact ⟨rfl, hs⟩
  | cons action rest ih =>
    obtain ⟨⟨view, v⟩, acted, done⟩ := bind_eq_ok_iff.mp e
    obtain ⟨⟨view', v'⟩, acted', done'⟩ := bind_eq_ok_iff.mp e'
    obtain ⟨⟨later, last⟩, run, shown⟩ := bind_eq_ok_iff.mp done
    obtain ⟨⟨later', last'⟩, run', shown'⟩ := bind_eq_ok_iff.mp done'
    cases shown
    cases shown'
    obtain ⟨first, next⟩ := hs.act acted acted'
    obtain ⟨others, last⟩ := ih next run run'
    exact ⟨congrArg₂ List.cons first others, last⟩

/-- New scopes have the same types: none. -/
theorem start {t t' : SymbolTable} {root : Option WrittenType} {memoize memoize' : Bool}
    (ht : t.Reachable) (ht' : t'.Reachable) (e : Session.start t root memoize = .ok s)
    (e' : Session.start t' root memoize' = .ok s') : s.Likewise s' := by
  obtain ⟨⟨x, v⟩, read, done⟩ := bind_eq_ok_iff.mp e
  obtain ⟨⟨x', v'⟩, read', done'⟩ := bind_eq_ok_iff.mp e'
  cases done
  cases done'
  obtain ⟨i, _, interned, made⟩ := Interning.run_bind_eq_ok_iff.mp read
  obtain ⟨i', _, interned', made'⟩ := Interning.run_bind_eq_ok_iff.mp read'
  cases made
  cases made'
  let p : TablePair := ⟨t, t'⟩
  have reachable : p.Reachable := ⟨ht, ht'⟩
  obtain ⟨grown, hi⟩ := Interning.alike_option_mapM (p := p) Interning.alike_type root
    i _ i' _ interned interned'
  exact ⟨reachable.later grown, ⟨i, .new memoize⟩, ⟨i', .new memoize'⟩, hi, .nil⟩

end Likewise

/-- **The history of a symbol table does not show.**  The same actions, on tables that were reached by interning any
strings, show the same handles, truth values and texts, with or without a memo. -/
theorem transcript_eq {t t' : SymbolTable} {root : Option WrittenType} {memoize memoize' : Bool}
    (ht : t.Reachable) (ht' : t'.Reachable) (begun : start t root memoize = .ok s)
    (begun' : start t' root memoize' = .ok s') (run : s.transcript actions = .ok (views, u))
    (run' : s'.transcript actions = .ok (views', u')) : views = views' :=
  ((Likewise.start ht ht' begun begun').transcript run run').1

/-- A type with a static field and a missing interface, a type below it with a static initializer, and some
questions about them. -/
def rehearsal : List Action :=
  [.request (.declare ⟨⟨"Application", "Base"⟩, .source none [⟨"Application", "Sized"⟩], .empty, none,
      [.field "count" "I" .staticFlag none]⟩),
    .request (.declare ⟨⟨"Application", "Leaf"⟩, .source (some ⟨"Application", "Base"⟩) [], .empty,
      some (.ofUrl "file:///Leaf.src"), [.method "<clinit>" "()V" .staticFlag none]⟩),
    .lookup ⟨"Application", "Base"⟩,
    .request (.ask (.chainFields ⟨1⟩)),
    .request (.ask (.effectiveMethods ⟨1⟩)),
    .request (.ask (.chainInterfaces ⟨1⟩)),
    .walk ⟨1⟩ 3]

/-- A table that has met the url, and another string of the shard of `Leaf`. -/
def acquainted : SymbolTable := (SymbolTable.new.append "file:///Leaf.src").append "leaf"

/-- In the two tables the symbols of `Base` and of the url have changed places. -/
theorem transcript_eq_acquainted :
    SymbolTable.new.Reachable ∧ acquainted.Reachable ∧ ∃ s s' u u' views,
      start .new none true = .ok s ∧ start acquainted none true = .ok s' ∧
        s.transcript rehearsal = .ok (views, u) ∧ s'.transcript rehearsal = .ok (views, u') ∧
        u.symbols.find? "Base" = u'.symbols.find? "file:///Leaf.src" ∧
        u.symbols.find? "Base" ≠ u'.symbols.find? "Base" := by
  have reachable : acquainted.Reachable :=
    have first : SymbolTable.new.intern "file:///Leaf.src" =
        .ok (.ofSlot 1 0, SymbolTable.new.append "file:///Leaf.src") := by
      decide +kernel
    have second : (SymbolTable.new.append "file:///Leaf.src").intern "leaf" =
        .ok (.ofSlot 14 2, acquainted) := by
      decide +kernel
    .intern (.intern .new first) second
  have plain : ((start .new none true).bind fun s => (s.transcript rehearsal).map fun r =>
      (r.2.symbols.find? "Base", r.2.symbols.find? "file:///Leaf.src")) =
        .ok (some (.ofSlot 1 0), some (.ofSlot 1 1)) := by
    decide +kernel
  have swapped : ((start acquainted none true).bind fun s => (s.transcript rehearsal).map fun r =>
      (r.2.symbols.find? "Base", r.2.symbols.find? "file:///Leaf.src")) =
        .ok (some (.ofSlot 1 1), some (.ofSlot 1 0)) := by
    decide +kernel
  obtain ⟨s, begun, rest⟩ := bind_eq_ok_iff.mp plain
  obtain ⟨s', begun', rest'⟩ := bind_eq_ok_iff.mp swapped
  obtain ⟨⟨views, u⟩, run, symbols⟩ := map_eq_ok_iff.mp rest
  obtain ⟨⟨views', u'⟩, run', symbols'⟩ := map_eq_ok_iff.mp rest'
  obtain ⟨base, url⟩ := Prod.mk.inj symbols
  obtain ⟨base', url'⟩ := Prod.mk.inj symbols'
  obtain rfl := transcript_eq .new reachable begun begun' run run'
  refine ⟨.new, reachable, s, s', u, u', views, begun, begun', run, run', base.trans url'.symm, ?_⟩
  rw [base, base']
  decide

end Session

end Lineage
