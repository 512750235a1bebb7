import AppearanceSync.Properties

/-!
# Between two looks

While an animation runs, opacity, colour and shift lie between those of the old and the new look;
everything else is already that of the new one.
-/

namespace AppearanceSync

/-- A whole number at `factor` of the way from `a` to `b`. -/
def mixInt32 (a b : Int32) (factor : Real32) : Int32 :=
  (Real32.mix (.ofInt a.toInt) (.ofInt b.toInt) factor).toInt32

def Properties.blend (a b : Properties) (factor : Real32) : Properties :=
  { b with
    alpha := Rgba.mixChannel a.alpha b.alpha factor
    color := a.color.mix b.color factor
    pixelOffset :=
      ⟨mixInt32 a.pixelOffset.x b.pixelOffset.x factor,
       mixInt32 a.pixelOffset.y b.pixelOffset.y factor⟩ }

end AppearanceSync
