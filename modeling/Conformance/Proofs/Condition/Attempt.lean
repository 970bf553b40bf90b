import Conformance.Proofs.Condition.Restricted
import Conformance.Proofs.Predicate.Tree

/-!
# Attempts

A rule could be evaluated without a look at what it is made of: an operand would be used
wherever it is needed, whether or not it is there, and a caller would be taken for the
sort of code unit that a predicate is about, whether or not it is of that sort.  An
attempt is such an evaluation.  It may go astray, and then nothing can be said of what
happens.

The restriction on callers is kept here as it is stored, with one place for a predicate
about classes and one for a predicate about code units.  It looks at the sort of a caller
first, and that is enough for it never to go astray.
-/

namespace Conformance

/-- A value with the consultations that led to it, or nothing when the evaluation went
astray. -/
def Attempt (α : Type) : Type :=
  Option (Consulted α)

namespace Attempt

variable {α β : Type}

/-- An evaluation that goes well. -/
def done (x : Consulted α) : Attempt α :=
  some x

/-- An evaluation that has gone astray. -/
def astray : Attempt α :=
  none

instance : Monad Attempt where
  pure a := done (pure a)
  bind x f :=
    match x with
    | some c =>
        match f c.value with
        | some d => some { value := d.value, calls := c.calls ++ d.calls }
        | none => none
    | none => none

/-- What is expected to be there. -/
def expect : Option α → Attempt α
  | some a => pure a
  | none => astray

theorem done_ne_astray (x : Consulted α) : done x ≠ astray :=
  Option.some_ne_none x

theorem done_pure (a : α) : done (pure a) = pure a := rfl

theorem done_bind (x : Consulted α) (f : α → Consulted β) :
    done (x >>= f) = done x >>= fun a => done (f a) := rfl

theorem pure_bind (a : α) (f : α → Attempt β) : (pure a >>= f) = f a := by
  change (match f a with
    | some d => some { value := d.value, calls := [] ++ d.calls }
    | none => none) = f a
  cases f a <;> rfl

/-- Does the test hold of some item?  The items are tested in order, up to the first one
that passes. -/
def anyInOrder (test : α → Attempt Bool) : List α → Attempt Bool
  | [] => pure false
  | a :: rest => do
      if ← test a then return true else anyInOrder test rest

/-- The items that fail the test.  Every item is tested, in order. -/
def failing (test : α → Attempt Bool) : List α → Attempt (List α)
  | [] => pure []
  | a :: rest => do
      let passed ← test a
      let others ← failing test rest
      return if !passed then a :: others else others

theorem anyInOrder_done (test : α → Consulted Bool) (items : List α) :
    anyInOrder (fun a => done (test a)) items =
      done (Consulted.anyInOrder test items) := by
  induction items with
  | nil => rfl
  | cons a rest ih =>
      rw [anyInOrder, ih, Consulted.anyInOrder_cons, done_bind]
      congr 1
      funext passed
      cases passed <;> rfl

theorem failing_done (test : α → Consulted Bool) (items : List α) :
    failing (fun a => done (test a)) items = done (Consulted.failing test items) := by
  induction items with
  | nil => rfl
  | cons a rest ih =>
      rw [failing, ih]
      change _ = done ((test a >>= fun passed => pure !passed) >>= fun passed =>
        Consulted.failing test rest
          >>= fun others => pure (if passed then a :: others else others))
      rw [bind_assoc, done_bind]
      congr 1

end Attempt

/-- A predicate that is there can be asked. -/
def Predicate.attempt {α : Type} (p : Predicate α) (a : α) : Attempt Bool :=
  .done (p.test a)

/-- A condition that is there can be checked. -/
def Condition.attempt {α : Type} (c : Condition α) (a : α) (m : Model) :
    Attempt (List Event) :=
  .done (c.check a m)

/-! ## Restrictions as they are stored -/

/-- A restriction on callers: the sort of callers it admits, and two places for what it
asks, of the class of a caller or of the caller itself.  A place may be empty. -/
structure CallerSlots where
  kind : CallerKind
  onClass : Option (Class → Attempt Bool) := none
  onUnit : Option (CodeUnit → Attempt Bool) := none

namespace CallerSlots

/-- Is a call from this code unit accepted?  The sort decides first, then one of the
places is used. -/
def accepts (s : CallerSlots) (u : CodeUnit) : Attempt Bool :=
  if s.kind.admits u then
    match s.kind with
    | .classes => do (← Attempt.expect s.onClass) u.owner
    | _ => do (← Attempt.expect s.onUnit) u
  else
    pure false

/-- The events about the calls that are not accepted. -/
def check (s : CallerSlots) (u : CodeUnit) (m : Model) : Attempt (List Event) := do
  let refused ← Attempt.failing (fun e : Edge => s.accepts e.origin) (m.callsTo u)
  return refused.map (fun e => e.violation (toElement e.origin))

end CallerSlots

namespace CallerKind

/-- Restrict callers by a test of the sort.  A code unit is taken for a method or a
constructor as it is; the evaluation goes astray when it is of the other sort. -/
def slots : (caller : CallerKind) → (caller.kind.Item → Attempt Bool) → CallerSlots
  | classes, test => { kind := .classes, onClass := some test }
  | methods, test =>
      { kind := .methods, onUnit := some fun u => do test (← Attempt.expect u.asMethod?) }
  | constructors, test =>
      { kind := .constructors,
        onUnit := some fun u => do test (← Attempt.expect u.asConstructor?) }
  | codeUnits, test => { kind := .codeUnits, onUnit := some test }

/-- Only the place that the sort of callers reads is filled. -/
theorem isSome_slots (caller : CallerKind) (test : caller.kind.Item → Attempt Bool) :
    (caller.slots test).kind = caller ∧
      (caller.slots test).onClass.isSome = decide (caller = .classes) ∧
      (caller.slots test).onUnit.isSome = decide (caller ≠ .classes) := by
  cases caller <;> exact ⟨rfl, rfl, rfl⟩

/-- Taking a code unit for what the place for code units is about goes astray for the
other sort, and for nothing else. -/
theorem onUnit_astray_iff (caller : CallerKind) (p : Predicate caller.kind.Item)
    {test : CodeUnit → Attempt Bool} (htest : (caller.slots p.attempt).onUnit = some test)
    (u : CodeUnit) : test u = .astray ↔ caller.admits u = false := by
  cases caller with
  | classes => cases htest
  | methods =>
      obtain rfl := Option.some.inj htest
      rcases u with ⟨owner, f | f⟩
      · exact iff_of_false (Attempt.done_ne_astray _) nofun
      · exact iff_of_true rfl rfl
  | constructors =>
      obtain rfl := Option.some.inj htest
      rcases u with ⟨owner, f | f⟩
      · exact iff_of_true rfl rfl
      · exact iff_of_false (Attempt.done_ne_astray _) nofun
  | codeUnits =>
      obtain rfl := Option.some.inj htest
      exact iff_of_false (Attempt.done_ne_astray _) nofun

/-- The sort is looked at first, so no code unit is taken for one of the other sort. -/
theorem accepts_slots (caller : CallerKind) (p : Predicate caller.kind.Item)
    (u : CodeUnit) :
    (caller.slots p.attempt).accepts u = .done ((caller.test p).test u) := by
  cases caller with
  | classes => exact Attempt.pure_bind _ _
  | methods =>
      rcases u with ⟨owner, f | f⟩
      · exact (Attempt.pure_bind _ _).trans (Attempt.pure_bind _ _)
      · rfl
  | constructors =>
      rcases u with ⟨owner, f | f⟩
      · rfl
      · exact (Attempt.pure_bind _ _).trans (Attempt.pure_bind _ _)
  | codeUnits => exact Attempt.pure_bind _ _

/-- A stored restriction checks as the restriction does. -/
theorem check_slots (caller : CallerKind) (p : Predicate caller.kind.Item) (u : CodeUnit)
    (m : Model) : (caller.slots p.attempt).check u m =
      (caller.restriction p).attempt u m := by
  have haccepts : (fun e : Edge => (caller.slots p.attempt).accepts e.origin) =
      fun e => .done ((caller.test p).test e.origin) := by
    funext e
    exact caller.accepts_slots p e.origin
  rw [CallerSlots.check, haccepts, Attempt.failing_done, caller.restriction_eq]
  rfl

end CallerKind

end Conformance
