import AppearanceSync.Animation.Blend
import AppearanceSync.Animation.Curve
import AppearanceSync.Animation.Timing

/-!
# Icons and their animations

An icon shows an appearance, or an animation on the way to one.  Animations wait in a queue: one
that chains starts when the last in the queue ends, and any other takes the place of the whole
queue and starts from what is visible.  An animation that has ended leaves its target behind as
the icon's appearance; this happens when the icon is next sampled.

The functions are independent of how an appearance is kept: a `Picture` has the id and the visual
fields of one, and a source from which all else can be found.
-/

namespace AppearanceSync

/-- An appearance as an icon shows it. -/
structure Picture (α : Type) where
  id : ContentId
  properties : Properties
  source : α

/-- An animation in an icon's queue. -/
structure Play (α : Type) where
  /-- The look it starts from. -/
  origin : Properties
  target : Picture α
  params : PlayParams
  /-- When it begins to move, after its delay. -/
  start : Span

namespace Play

variable {α : Type}

/-- When it ends, or nothing if never. -/
def end? (p : Play α) : Option Span := p.params.total?.bind p.start.add?

def finished (p : Play α) (now : Span) : Bool :=
  match p.end? with
  | some last => decide (last.nanos ≤ now.nanos)
  | none => false

/-- Linear progress within the present play, once the animation has begun to move. -/
def progress (p : Play α) (now : Span) : Real32 :=
  let duration := p.params.duration.nanos
  if duration = 0 ∨ p.finished now then .one
  else .ofNat ((now.nanos - p.start.nanos) % duration) / .ofNat duration

def propertiesAt (p : Play α) (now : Span) : Properties :=
  if now.nanos < p.start.nanos then p.origin
  else
    p.origin.blend p.target.properties
      (p.params.easing.ease p.params.flags (p.progress now))

end Play

/-- What an icon shows, and the animations that wait, the present one first. -/
structure Icon (α : Type) where
  shown : Option (Picture α)
  queue : List (Play α)

namespace Icon

variable {α : Type}

def empty : Icon α := ⟨none, []⟩

instance : Inhabited (Icon α) := ⟨empty⟩

def isAnimating (icon : Icon α) : Bool := !icon.queue.isEmpty

/-- Shows an appearance once the animations are over. -/
def set (icon : Icon α) (picture : Picture α) : Icon α := { icon with shown := some picture }

/-- Takes ended animations from the front of a queue; the last one's target is shown. -/
def settleQueue (now : Span) (shown : Option (Picture α)) : List (Play α) → Icon α
  | [] => ⟨shown, []⟩
  | p :: queue =>
    if p.finished now then settleQueue now (some p.target) queue else ⟨shown, p :: queue⟩

/-- The icon after the animations that have ended at the front of its queue. -/
def settle (icon : Icon α) (now : Span) : Icon α := settleQueue now icon.shown icon.queue

/-- What a settled icon shows at a time. -/
def visible (icon : Icon α) (now : Span) : Option Properties :=
  match icon.queue with
  | p :: _ => some (p.propertiesAt now)
  | [] => icon.shown.map (·.properties)

/-- Settles the icon and says what it shows at a time. -/
def sample (icon : Icon α) (now : Span) : Icon α × Option Properties :=
  let icon := icon.settle now
  (icon, icon.visible now)

/-- Starts an animation that takes the place of all others. -/
def replace (icon : Icon α) (target : Picture α) (params : PlayParams) (now : Span) : Icon α :=
  let (icon, look) := icon.sample now
  { icon with queue := [⟨look.getD .plain, target, params, now.addUpTo params.delay⟩] }

/-- When an animation behind this one may begin. -/
def nextBegin (last : Play α) (now : Span) : Span :=
  let ended := last.end?.getD now
  if now.nanos ≤ ended.nanos then ended else now

/-- Starts an animation towards an appearance. -/
def animate (icon : Icon α) (target : Picture α) (params : PlayParams) (now : Span) : Icon α :=
  match params.chain, icon.queue.getLast? with
  | true, some last =>
    let start := (nextBegin last now).addUpTo params.delay
    { icon with queue := icon.queue ++ [⟨last.target.properties, target, params, start⟩] }
  | _, _ => icon.replace target params now

end Icon
end AppearanceSync
