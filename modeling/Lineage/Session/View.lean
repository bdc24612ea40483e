import Lineage.Query

/-!
# Answers as they are shown

Positions, members and answers with strings in place of symbols, read from a symbol table.
-/

namespace Lineage

/-- A position with its url and the file part of the url. -/
structure PositionView where
  url : String
  file : String
  span : Span
  line : UInt32
  column : UInt32
deriving DecidableEq

def Position.view (t : SymbolTable) (p : Position) : PositionView :=
  ⟨p.urlText t, p.fileText t, p.span, p.line, p.column⟩

/-- A field with its name and descriptor. -/
structure FieldView where
  name : String
  descriptor : String
  modifiers : Modifiers
  declaring : Handle
  position : Option PositionView
deriving DecidableEq

def Field.view (t : SymbolTable) (f : Field) : FieldView :=
  ⟨t.text f.name, t.text f.descriptor, f.modifiers, f.declaring, f.position.map (·.view t)⟩

/-- A method with its name, its descriptor and the two joined, and whether it is the static
initializer. -/
structure MethodView where
  name : String
  descriptor : String
  selector : String
  modifiers : Modifiers
  isInitializer : Bool
  declaring : Handle
  position : Option PositionView
deriving DecidableEq

/-- Whether a table takes a method for the static initializer. -/
def Method.isInitializerIn (t : SymbolTable) (m : Method) : Bool :=
  match Selector.staticInitializer t with
  | .ok (initializer, _) => m.isInitializer initializer
  | .error _ => false

def Method.view (t : SymbolTable) (m : Method) : MethodView where
  name := t.text m.name
  descriptor := t.text m.selector.descriptor
  selector := m.selector.render t
  modifiers := m.modifiers
  isInitializer := m.isInitializerIn t
  declaring := m.declaring
  position := m.position.map (·.view t)

/-- An answer with its members in strings. -/
inductive AnswerView where
  | handle (type : Option Handle)
  | handles (types : List Handle)
  | truth (value : Bool)
  | field (field : Option FieldView)
  | fields (fields : List FieldView)
  | method (method : Option MethodView)
  | methods (methods : List MethodView)
deriving DecidableEq

def Answer.view (t : SymbolTable) : Answer → AnswerView
  | handle c => .handle c
  | handles cs => .handles cs
  | truth b => .truth b
  | field f => .field (f.map (·.view t))
  | fields fs => .fields (fs.map (·.view t))
  | method m => .method (m.map (·.view t))
  | methods ms => .methods (ms.map (·.view t))

end Lineage
