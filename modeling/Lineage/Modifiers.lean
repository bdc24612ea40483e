/-!
# Modifiers

The modifiers of a type, field or method are a 16-bit word.  Eight of its bits have a name; the
others carry no meaning here but are kept, so the word that went in is the word that comes out.
-/

namespace Lineage

/-- A set of modifier bits. -/
structure Modifiers where
  bits : UInt16
deriving DecidableEq

namespace Modifiers

def empty : Modifiers := ⟨0⟩

section Flags

def publicFlag : Modifiers := ⟨0x0001⟩

def privateFlag : Modifiers := ⟨0x0002⟩

def protectedFlag : Modifiers := ⟨0x0004⟩

/-- Set for what belongs to a type and not to its instances. -/
def staticFlag : Modifiers := ⟨0x0008⟩

def finalFlag : Modifiers := ⟨0x0010⟩

def interfaceFlag : Modifiers := ⟨0x0200⟩

def abstractFlag : Modifiers := ⟨0x0400⟩

def syntheticFlag : Modifiers := ⟨0x1000⟩

/-- The named bits with their names, from the lowest to the highest. -/
def flags : List (String × Modifiers) :=
  [("PUBLIC", publicFlag), ("PRIVATE", privateFlag), ("PROTECTED", protectedFlag),
    ("STATIC", staticFlag), ("FINAL", finalFlag), ("INTERFACE", interfaceFlag),
    ("ABSTRACT", abstractFlag), ("SYNTHETIC", syntheticFlag)]

end Flags

section Sets

variable (m n : Modifiers)

def isEmpty : Bool := m.bits == 0

def contains : Bool := m.bits &&& n.bits == n.bits

def intersects : Bool := m.bits &&& n.bits != 0

def union : Modifiers := ⟨m.bits ||| n.bits⟩

def inter : Modifiers := ⟨m.bits &&& n.bits⟩

def diff : Modifiers := ⟨m.bits &&& ~~~n.bits⟩

def symmDiff : Modifiers := ⟨m.bits ^^^ n.bits⟩

/-- All the bits that are not set, named or not. -/
def compl : Modifiers := ⟨~~~m.bits⟩

end Sets

section Predicates

variable (m : Modifiers)

def isPublic : Bool := m.contains publicFlag

def isPrivate : Bool := m.contains privateFlag

def isStatic : Bool := m.contains staticFlag

def isFinal : Bool := m.contains finalFlag

def isInterface : Bool := m.contains interfaceFlag

def isAbstract : Bool := m.contains abstractFlag

def isSynthetic : Bool := m.contains syntheticFlag

end Predicates

/-- A word in hexadecimal, with small letters. -/
def hex (bits : UInt16) : String := "0x" ++ String.ofList (Nat.toDigits 16 bits.toNat)

def unnamed (m : Modifiers) : Modifiers := flags.foldl (fun rest f => rest.diff f.2) m

/-- The diagnostic text of modifiers lists the named bits, then all the others as one number.  The
empty set is written as the number zero. -/
def inspect (m : Modifiers) : String :=
  let names := (flags.filter fun f => m.contains f.2).map (·.1)
  let others := if m.unnamed.isEmpty then [] else [hex m.unnamed.bits]
  let parts := if m.isEmpty then [hex 0] else names ++ others
  "Modifiers(" ++ " | ".intercalate parts ++ ")"

end Modifiers

end Lineage
