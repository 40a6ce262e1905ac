import Mathlib.Data.List.Sort
import Mathlib.Order.Defs.LinearOrder

/-!
# Rows by rank

Rows with different keys, the greatest key first. The place of a row is the number of
rows with greater keys, so that number decides which page the row is on.
-/

namespace Relational

variable {α κ : Type} [LinearOrder κ] {key : α → κ}

def greatestFirst (key : α → κ) (rows : List α) : List α :=
  rows.insertionSort fun x y => key y ≤ key x

def page (size number : ℕ) (rows : List α) : List α := (rows.drop ((number - 1) * size)).take size

end Relational
