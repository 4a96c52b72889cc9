import RootTrace.RootSystem
import Mathlib

/-!
# Stored matrices and vectors as functions of their indices

Matrices and vectors are stored by entries. For statements of linear algebra
they are read as functions of their indices.
-/

namespace RootTrace

universe u

variable {α : Type u} {n rows cols : Nat}

/-- A stored matrix as a function of two indices. -/
def RowMatrix.toMatrix (a : RowMatrix α rows cols) : Matrix (Fin rows) (Fin cols) α :=
  Matrix.of a.entry

@[simp] theorem RowMatrix.toMatrix_apply
    (a : RowMatrix α rows cols)
    (i : Fin rows)
    (j : Fin cols) :
    a.toMatrix i j = a.entry i j := rfl

@[simp] theorem RowMatrix.entry_ofFn
    (f : Fin rows → Vector α cols)
    (i : Fin rows)
    (j : Fin cols) :
    RowMatrix.entry (Vector.ofFn f) i j = (f i).get j := by
  rw [RowMatrix.entry, Vector.get_ofFn]

/-- A function of two indices as a stored matrix. -/
def RowMatrix.ofMatrix (a : Matrix (Fin rows) (Fin cols) α) : RowMatrix α rows cols :=
  Vector.ofFn fun i => Vector.ofFn (a i)

@[simp] theorem RowMatrix.toMatrix_ofMatrix (a : Matrix (Fin rows) (Fin cols) α) :
    (RowMatrix.ofMatrix a).toMatrix = a := by
  ext i j
  simp [RowMatrix.ofMatrix]

theorem eq_of_get_eq {v w : Vector α n} (same : v.get = w.get) : v = w := by
  apply Vector.ext
  intro i inside
  exact congrFun same ⟨i, inside⟩

theorem RowMatrix.eq_of_entry_eq
    {a b : RowMatrix α rows cols}
    (same : ∀ i j, a.entry i j = b.entry i j) :
    a = b := by
  apply eq_of_get_eq
  funext i
  apply eq_of_get_eq
  funext j
  exact same i j

theorem get_ofFn_eq (f : Fin n → α) : (Vector.ofFn f).get = f := by
  funext i
  exact Vector.get_ofFn f i

/-- Exchanging two components of a vector reads it through the exchange of their indices. -/
theorem get_swap (v : Vector α n) (first second i : Fin n) :
    (v.swap first second first.isLt second.isLt).get i =
      v.get (Equiv.swap first second i) := by
  rw [Vector.get_eq_getElem, Vector.getElem_swap]
  by_cases isFirst : i = first
  · rw [if_pos (congrArg Fin.val isFirst), isFirst, Equiv.swap_apply_left,
      Vector.get_eq_getElem]
  · rw [if_neg (Fin.val_ne_of_ne isFirst)]
    by_cases isSecond : i = second
    · rw [if_pos (congrArg Fin.val isSecond), isSecond, Equiv.swap_apply_right,
        Vector.get_eq_getElem]
    · rw [if_neg (Fin.val_ne_of_ne isSecond),
        Equiv.swap_apply_of_ne_of_ne isFirst isSecond, Vector.get_eq_getElem]

/-! ## Systems in product form -/

namespace ProductForm

theorem get_residual
    [One α] [Add α] [Sub α] [Mul α]
    (form : ProductForm α)
    (x : Vector α n)
    (q : α)
    (i : Fin n) :
    (form.residual x q).get i = form.residualAt x q i := by
  rw [residual, Vector.get_ofFn]

theorem entry_jacobian
    [Zero α] [One α] [Add α] [Sub α] [Mul α] [Neg α]
    (form : ProductForm α)
    (x : Vector α n)
    (q : α)
    (i j : Fin n) :
    RowMatrix.entry (form.jacobian x q) i j = form.derivative x q i j := by
  rw [jacobian, RowMatrix.entry_ofFn, Vector.get_ofFn]

end ProductForm

namespace RootSystem

variable [Zero α] [One α] [Add α] [Sub α] [Mul α] [Neg α]
  (form : ProductForm (Complex α)) (x : Vector (Complex α) n) (q : Complex α)

theorem toMatrix_jacobian_ofProductForm :
    ((ofProductForm form).jacobian x q).toMatrix = Matrix.of (form.derivative x q) :=
  Matrix.ext (form.entry_jacobian x q)

theorem get_residual_ofProductForm :
    ((ofProductForm form).residual x q).get = form.residualAt x q :=
  get_ofFn_eq _

end RootSystem

end RootTrace
