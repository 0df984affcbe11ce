import Pvz.Order.Errors

/-!
# Packagers

`defaultPackagerFactory.createPackager` (`src/unnamed/part_006:25-51`) picks a
base packager for the package type and decorates it with the wrapper. The
packagers themselves (`newBagPackager`, `newBoxPackager`, `newFilmPackager`,
`newWrapperDecorator`) are not among the sources.
-/

namespace Pvz.Service

open OrderError

/-- Modelled from the spec: the packagers that `newBagPackager`,
`newBoxPackager`, `newFilmPackager` and `newWrapperDecorator` build (§4.3, §9):
a base variant, or a base wrapped by a decorator. -/
inductive Packager where
  | bag
  | box
  | film
  | wrapped (base : Packager) (wrapper : WrapperType)
  deriving DecidableEq, Repr

/-- Modelled from the spec: `validateWeight`. A bag carries at most 10 kg, a box
at most 30 kg, film has no ceiling; a decorator re-runs its base's check. -/
def Packager.validateWeight : Packager → ℚ → Except OrderError Unit
  | .bag, w => if 10 < w then .error errPackageWeightExceeded else .ok ()
  | .box, w => if 30 < w then .error errPackageWeightExceeded else .ok ()
  | .film, _ => .ok ()
  | .wrapped base _, w => base.validateWeight w

/-- Modelled from the spec: `getAdditionalCost`, the surcharge; the film
wrapper stacks 1 on its base's. -/
def Packager.getAdditionalCost : Packager → ℚ
  | .bag => 5
  | .box => 20
  | .film => 1
  | .wrapped base _ => base.getAdditionalCost + 1

/-- Modelled from the spec: `newWrapperDecorator`, which knows the film wrapper
only. -/
def newWrapperDecorator (base : Packager) (wrapper : WrapperType) : Except OrderError Packager :=
  if wrapper = .wrapperFilm then .ok (.wrapped base wrapper) else .error errUnknownWrapperType

/-- `createPackager`. -/
def createPackager (baseType : Option PackageType) (wrapper : Option WrapperType) :
    Except OrderError Packager := do
  let basePackager ← match baseType with
    | none => .error errUnknownPackageType
    | some t =>
      if t = .packageBag then .ok .bag
      else if t = .packageBox then .ok .box
      else if t = .packageFilm then .ok .film
      else .error errUnknownPackageType
  match wrapper with
  | some w => newWrapperDecorator basePackager w
  | none => .ok basePackager

end Pvz.Service
