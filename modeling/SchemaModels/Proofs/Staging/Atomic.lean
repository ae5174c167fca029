import SchemaModels.Proofs.Staging.Exact

namespace SchemaModels

open Text (Bytes)

namespace Disk

variable {d d₁ d₂ d₃ made : Disk} {p : Path} {ps : List Path} {loc : Location}

/-- A place is as it was, or nothing was there and it is now a directory that one of the paths leads
to. -/
def KeptOrMade (d₁ d₂ : Disk) (ps : List Path) (loc : Location) : Prop :=
  d₂.get? loc = d₁.get? loc ∨
    d₁.get? loc = none ∧ d₂.get? loc = some .dir ∧ ∃ p ∈ ps, d₂.resolveDir p = .ok loc

theorem KeptOrMade.trans (h : d₁.KeptOrMade d₂ ps loc) (h' : d₂.KeptOrMade d₃ ps loc)
    (hkeeps : d₂.KeepsDirs d₃) : d₁.KeptOrMade d₃ ps loc := by
  rcases h with hkept | ⟨hnone, hdir, p, hp, hr⟩
  · rwa [KeptOrMade, hkept] at h'
  · have hstays := isDirAt_iff.1 (hkeeps.isDirAt (isDirAt_iff.2 hdir))
    exact Or.inr ⟨hnone, hstays, p, hp, hkeeps.resolveDir hr⟩

end Disk

namespace Staging

open Disk

variable {d d' mid : Disk} {target : Path} {bytes : Bytes}

end Staging

end SchemaModels
