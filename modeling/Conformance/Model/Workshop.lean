import Conformance.Model.Request

/-!
# Workshops

Several builders work side by side in a workshop, each on a draft of its own.  When a
builder finishes its draft, the model is kept and the builder starts over with an empty
draft.  No two drafts of a workshop have the same stamp, so an element tells which draft
it belongs to.
-/

namespace Conformance

/-- The drafts in progress, by the name of their builder, the models finished so far, and
the stamp of the next draft. -/
structure Workshop where
  drafts : List (Text × Draft) := []
  models : List Model := []
  nextStamp : Nat := 0

namespace Workshop

/-- The draft a builder works on, if it has begun one. -/
def draft? (w : Workshop) (builder : Text) : Option Draft :=
  w.drafts.lookup builder

def setDraft (w : Workshop) (builder : Text) (d : Draft) : Workshop :=
  { w with drafts := (builder, d) :: w.drafts.filter (fun entry => entry.1 ≠ builder) }

/-- Give a builder an empty draft with a stamp of its own. -/
def begin (w : Workshop) (builder : Text) : Workshop :=
  { w.setDraft builder (.start w.nextStamp) with nextStamp := w.nextStamp + 1 }

/-- The draft a builder works on, begun if need be. -/
def draftOf (w : Workshop) (builder : Text) : Draft × Workshop :=
  match w.draft? builder with
  | some d => (d, w)
  | none => (.start w.nextStamp, w.begin builder)

/-- Let a builder carry out a request.  A refused request leaves the workshop as it
was. -/
def perform (w : Workshop) (builder : Text) (r : Request) :
    Except Misuse (Option Element) × Workshop :=
  let (d, w') := w.draftOf builder
  match d.perform r with
  | .ok (element, d') => (.ok element, w'.setDraft builder d')
  | .error e => (.error e, w)

/-- Let a builder finish its draft and start over. -/
def finish (w : Workshop) (builder : Text) : Model × Workshop :=
  let (d, w') := w.draftOf builder
  let model := d.finish
  (model, { w'.begin builder with models := w'.models ++ [model] })

/-- The present state of an element, in a draft or in a finished model. -/
def current? (w : Workshop) (id : Ident) : Option Element :=
  (w.drafts.findSome? (fun entry => entry.2.element? id)).or
    (w.models.findSome? (fun m => Element.find? m.classes id))

end Workshop

end Conformance
