import RootTrace.Fault
import RootTrace.ProductForm

/-!
# Constants of the equations

The constants come as three shifts and two lists that are to be paired entry by
entry. They are accepted if the lists have equally many entries and every
constant is finite, and then describe one family of equations in product form.
-/

namespace RootTrace

universe u

/-- Constants to be paired. -/
structure Constants (K : Type u) where
  /-- Constants of the left products. -/
  left : List K
  /-- Constants of the right products. -/
  right : List K
  deriving DecidableEq

/-- All constants of a family of equations. -/
structure Config (K : Type u) where
  /-- Shifts of the root differences. -/
  shifts : Shifts K
  /-- Constants to be paired. -/
  constants : Constants K
  deriving DecidableEq

namespace Config

/-- Number of pairs. -/
def pairCount {K : Type u} (config : Config K) : Nat :=
  config.constants.left.length

/-- The equations that the constants describe. -/
def productForm {K : Type u} (config : Config K) : ProductForm K where
  shifts := config.shifts
  pairs := List.zipWith Sides.mk config.constants.left config.constants.right

/-- Whether every constant is finite. -/
def isFinite {α : Type u} [Magnitude α] (config : Config (Complex α)) : Bool :=
  Complex.allFinite config.shifts.toList &&
    Complex.allFinite config.constants.left &&
    Complex.allFinite config.constants.right

/-- Accept or turn down constants. Lists of different lengths are reported
before constants that are not finite. -/
def check {α : Type u} [Magnitude α] (config : Config (Complex α)) :
    Except (Fault α) PUnit.{u + 1} :=
  if config.constants.left.length ≠ config.constants.right.length then
    .error (.lengthMismatch config.constants.left.length config.constants.right.length)
  else if config.isFinite then
    .ok ⟨⟩
  else
    .error (.invalid .constantsNotFinite)

/-- The equations of accepted constants. -/
def equations {α : Type u} [Magnitude α] (config : Config (Complex α)) :
    Except (Fault α) (ProductForm (Complex α)) :=
  config.check.map fun _ => config.productForm

end Config
end RootTrace
