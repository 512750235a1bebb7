import AppearanceSync.Message

/-!
# Easing curves

A curve maps linear progress from zero to one to the progress that is shown.  Applied to the start
of an animation it is used as it is, applied to the end it is used backwards, and applied to both
ends it is squeezed into each half.  All arithmetic is single precision, in the order written.
-/

namespace AppearanceSync.Easing

/-- Half a turn in radians. -/
def halfTurn : Float32 := Float32.ofBits 0x40490fdb

/-- Progress outside zero and one is moved to the nearer of them; not-a-number stays. -/
def clampUnit (t : Float32) : Float32 := if t < 0 then 0 else if t > 1 then 1 else t

/-- A bounce that settles at one. -/
def bounceOut (t : Float32) : Float32 :=
  let steep : Float32 := 7.5625
  let span : Float32 := 2.75
  if t < 1 / span then steep * t * t
  else if t < 2 / span then
    let t := t - 1.5 / span
    steep * t * t + 0.75
  else if t < 2.5 / span then
    let t := t - 2.25 / span
    steep * t * t + 0.9375
  else
    let t := t - 2.625 / span
    steep * t * t + 0.984375

/-- The curve at the start of an animation. -/
def curve (easing : Easing) (t : Float32) : Float32 :=
  match easing with
  | linear => t
  | jump => t
  | sine => 1 - (t * halfTurn / 2).cos
  | circular =>
    let square := 1 - t * t
    1 - (if square > 0 then square else 0).sqrt
  | cubic => t * t * t
  | quad => t * t
  | back =>
    let overshoot : Float32 := 1.70158
    (overshoot + 1) * t * t * t - overshoot * t * t
  | elastic =>
    if t ≤ 0 then 0
    else if t ≥ 1 then 1
    else
      let height := -Float32.pow 2 (10 * t - 10)
      let period := 2 * halfTurn / 3
      height * ((t * 10 - 10.75) * period).sin
  | bounce => 1 - bounceOut (1 - t)

/-- A jump: at the end, at the start, or halfway. -/
def jumpAt (flags : PlayFlags) (t : Float32) : Float32 :=
  match flags.easeIn, flags.easeOut with
  | true, false => if t ≥ 1 then 1 else 0
  | false, true => if t > 0 then 1 else 0
  | _, _ => if t ≥ 0.5 then 1 else 0

/-- The curve at the ends of the animation that the flags name; at both if they name neither. -/
def ends (easing : Easing) (flags : PlayFlags) (t : Float32) : Float32 :=
  match flags.easeIn, flags.easeOut with
  | true, false => easing.curve t
  | false, true => 1 - easing.curve (1 - t)
  | _, _ =>
    if t < 0.5 then easing.curve (2 * t) / 2
    else 1 - easing.curve (2 - 2 * t) / 2

/-- The progress that is shown for linear progress `t`. -/
def ease (easing : Easing) (flags : PlayFlags) (t : Real32) : Real32 :=
  let t := clampUnit t.toFloat
  .ofFloat (if easing = jump then jumpAt flags t else easing.ends flags t)

end AppearanceSync.Easing
