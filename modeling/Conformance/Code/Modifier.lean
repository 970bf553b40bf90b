import Conformance.Text

/-!
# Declaration modifiers

Classes and members carry a set of modifiers.  A set is kept in the fixed order of the
modifiers and holds none of them twice, so two sets with the same members are equal.
-/

namespace Conformance

/-- A declaration modifier. -/
inductive Modifier where
  | pub
  | prot
  | priv
  | static
  | final
  | abstract
  | synchronized
  | native
  | transient
  | volatile
  deriving DecidableEq

namespace Modifier

/-- All modifiers, in the order in which sets list them. -/
def all : List Modifier :=
  [pub, prot, priv, static, final, abstract, synchronized, native, transient, volatile]

/-- The spelling used in descriptions and messages. -/
def label : Modifier → Text
  | pub => "PUBLIC"
  | prot => "PROTECTED"
  | priv => "PRIVATE"
  | static => "STATIC"
  | final => "FINAL"
  | abstract => "ABSTRACT"
  | synchronized => "SYNCHRONIZED"
  | native => "NATIVE"
  | transient => "TRANSIENT"
  | volatile => "VOLATILE"

/-- The modifier with a given spelling. -/
def ofLabel? (t : Text) : Option Modifier :=
  all.find? (fun m => m.label = t)

end Modifier

/-- A set of modifiers. -/
structure ModifierSet where
  toList : List Modifier
  deriving DecidableEq

namespace ModifierSet

/-- The set of the listed modifiers. -/
def ofList (ms : List Modifier) : ModifierSet :=
  ⟨Modifier.all.filter (fun m => ms.contains m)⟩

def empty : ModifierSet := ⟨[]⟩

def contains (s : ModifierSet) (m : Modifier) : Bool :=
  s.toList.contains m

end ModifierSet

end Conformance
