import Lineage.Symbol.Table

/-!
# Identity of types

A type is identified by the loader that defined it and its qualified name, both symbols.  The same
name under two loaders names two types.
-/

namespace Lineage

/-- A loading namespace, known by its name. -/
structure Loader where
  name : Symbol
deriving DecidableEq

namespace Loader

def named (name : String) : Interning Loader := mk <$> internString name

/-- The loader of the platform's own types. -/
def primordial : Interning Loader := named "Primordial"

/-- The loader of the types of an application. -/
def application : Interning Loader := named "Application"

/-- The loader of types read from a source text. -/
def source : Interning Loader := named "Source"

/-- The loader of types made up by an analysis. -/
def synthetic : Interning Loader := named "Synthetic"

def inspect (l : Loader) : String := "LoaderRef(" ++ l.name.inspect ++ ")"

instance : Ord Loader := ⟨compareOn name⟩

instance : Std.TransOrd Loader :=
  inferInstanceAs (Std.TransCmp (compareOn name))

instance : Std.LawfulEqOrd Loader :=
  Order.lawfulEqOn fun ⟨_⟩ ⟨_⟩ => congrArg mk

end Loader

/-- The identity of a type: its loader and its qualified name. -/
structure TypeId where
  loader : Loader
  name : Symbol
deriving DecidableEq

namespace TypeId

def named (loader : Loader) (name : String) : Interning TypeId := mk loader <$> internString name

/-- The written form of an identity, `<Loader,Name>`. -/
def display (t : SymbolTable) (id : TypeId) : String :=
  "<" ++ t.text id.loader.name ++ "," ++ t.text id.name ++ ">"

def inspect (id : TypeId) : String :=
  Text.record "TypeRef" [("loader", id.loader.inspect), ("name", id.name.inspect)]

instance : Ord TypeId := ⟨compareLex (compareOn loader) (compareOn name)⟩

instance : Std.TransOrd TypeId :=
  inferInstanceAs (Std.TransCmp (compareLex (compareOn loader) (compareOn name)))

instance : Std.LawfulEqOrd TypeId :=
  Order.lawfulEqLex fun ⟨_, _⟩ ⟨_, _⟩ h k => congr (congrArg mk h) k

end TypeId

end Lineage
