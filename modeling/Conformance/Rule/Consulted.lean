import Conformance.Text

/-!
# Consultations

Predicates and conditions that a user supplies may carry a label.  Whenever such a
labelled part is asked about something, a consultation is recorded.  A consulted value is
a value together with the consultations that led to it, in their order.
-/

namespace Conformance

/-- A labelled predicate or condition was asked about a subject. -/
structure Consultation where
  label : Text
  subject : Text
  deriving DecidableEq

namespace Consultation

/-- The label and the subject with a colon between them. -/
def render (c : Consultation) : Text :=
  c.label ++ ":" ++ c.subject

end Consultation

/-- A value with the consultations that led to it. -/
@[ext]
structure Consulted (α : Type) where
  value : α
  calls : List Consultation := []
  deriving DecidableEq

namespace Consulted

instance : Monad Consulted where
  pure a := { value := a }
  bind x f :=
    let y := f x.value
    { value := y.value, calls := x.calls ++ y.calls }

/-- A plain value is the value. -/
@[simp]
theorem value_pure {α : Type} (a : α) : (pure a : Consulted α).value = a := rfl

/-- A plain value consults nobody. -/
@[simp]
theorem calls_pure {α : Type} (a : α) : (pure a : Consulted α).calls = [] := rfl

/-- The value of two steps is that of the second one. -/
@[simp]
theorem value_bind {α β : Type} (x : Consulted α) (f : α → Consulted β) :
    (x >>= f).value = (f x.value).value := rfl

/-- The consultations of two steps are those of the first one and then those of the second
one. -/
@[simp]
theorem calls_bind {α β : Type} (x : Consulted α) (f : α → Consulted β) :
    (x >>= f).calls = x.calls ++ (f x.value).calls := rfl

instance : LawfulMonad Consulted :=
  LawfulMonad.mk' Consulted
    (fun _ => Consulted.ext rfl (List.append_nil _))
    (fun _ _ => Consulted.ext rfl rfl)
    (fun _ _ _ => Consulted.ext rfl (List.append_assoc _ _ _))

/-- Record that a part was asked about a subject, if the part has a label. -/
def consult (label : Option Text) (subject : Text) : Consulted Unit :=
  { value := (), calls := (label.map (fun l => ⟨l, subject⟩)).toList }

/-- Does the test hold of some item?  The items are tested in order, up to the first one
that passes. -/
def anyInOrder {α : Type} (test : α → Consulted Bool) : List α → Consulted Bool
  | [] => pure false
  | a :: rest => do
      if ← test a then return true else anyInOrder test rest

/-- The items that pass the test.  Every item is tested, in order. -/
def passing {α : Type} (test : α → Consulted Bool) : List α → Consulted (List α)
  | [] => pure []
  | a :: rest => do
      let passed ← test a
      let others ← passing test rest
      return if passed then a :: others else others

/-- The items that fail the test.  Every item is tested, in order. -/
def failing {α : Type} (test : α → Consulted Bool) : List α → Consulted (List α) :=
  passing (fun a => do return !(← test a))

end Consulted

end Conformance
