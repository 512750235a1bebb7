import AppearanceSync.ContentId

/-!
# Appearances that are not there

A caller may ask for an appearance of which it knows that it is there.  If it is not, that is an
error of the caller, and the wording says on which side it was made.
-/

namespace AppearanceSync

/-- Why an appearance that was expected is not there. -/
inductive MissingAppearance
  /-- Nobody holds it any more. -/
  | deleted (id : ContentId)
  /-- It has not arrived. -/
  | notReceived (id : ContentId)
deriving DecidableEq

namespace MissingAppearance

def message : MissingAppearance → String
  | deleted id => s!"attempted to access deleted appearance {id.text} in must_lookup"
  | notReceived id => s!"appearance {id.text} has not been received"

end MissingAppearance

end AppearanceSync
