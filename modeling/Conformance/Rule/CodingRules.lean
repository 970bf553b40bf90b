import Conformance.Rule.Assertion
import Conformance.Rule.Chain

/-!
# General coding rules

Two rules that apply to any code.  A test class, known by the suffix of its name, should
live in the package of the class it tests; and no code unit should declare the most
general throwables.
-/

namespace Conformance

namespace Condition

/-- The analyzed classes with the given simple name. -/
def classesCalled (simpleName : Text) (m : Model) : List Class :=
  m.analyzed.filter (fun c => c.simpleName = simpleName)

/-- Does a class of the test's name live in the package of the implementation? -/
def hasTestBeside (test implementation : Class) (m : Model) : Bool :=
  implementation.packageName = test.packageName
    || (classesCalled test.simpleName m).any
        (fun c => c.packageName = implementation.packageName)

/-- What is found about a test class whose name is that of its implementation with a
suffix.  Nothing is found when the name is not longer than the suffix, or when there is no
implementation. -/
def besideImplementationEvents (suffix : Text) (test : Class) (m : Model) : List Event :=
  let name := test.simpleName
  if name.length ≤ suffix.length then
    []
  else
    let implementations := classesCalled (name.take (name.length - suffix.length)) m
    match implementations with
    | [] => []
    | first :: _ =>
        match implementations.find? (fun i => hasTestBeside test i m) with
        | some i =>
            [Event.about test false
              ("resides in same package as implementation class <" ++ i.name.text ++ ">")]
        | none =>
            [Event.about test true
              ("does not reside in same package as implementation class <"
                ++ first.name.text ++ ">")]

/-- A test class, or another one of its name, lives in the package of some implementation.
The end of the name is cut off by its length; whether it is the suffix is left to the
selection. -/
def besideImplementation (suffix : Text) : Condition Class :=
  { description := "reside in the same package as implementation"
    check := fun c m => pure (besideImplementationEvents suffix c m) }

end Condition

namespace Rule

/-- The suffix of test classes unless another one is given. -/
def testSuffix : Text := "Test"

/-- Test classes live in the package of their implementation. -/
def testsBesideImplementations (suffix : Text) : Rule :=
  let tests : Selection .classes := Selection.that {} (.simpleNameEnds suffix)
  let chain := tests.should (.besideImplementation suffix)
  chain.rule.allowingEmpty true

def withoutThrowable (t : TypeName) : Condition CodeUnit :=
  .notThrowing (.typeCalled t)

/-- The description of the rule about generic throwables. -/
def noGenericThrowablesText : Text :=
  "no code units should declare generic exceptions"

/-- No code unit declares one of the throwables that say nothing about what went wrong. -/
def noGenericThrowables : Rule :=
  let units : Selection .codeUnits := {}
  let chain := units.should (withoutThrowable ⟨"java.lang.Throwable"⟩)
  let chain := chain.andShould (withoutThrowable ⟨"java.lang.Exception"⟩)
  let chain := chain.andShould (withoutThrowable ⟨"java.lang.RuntimeException"⟩)
  (chain.rule.renamed noGenericThrowablesText).allowingEmpty true

end Rule

end Conformance
