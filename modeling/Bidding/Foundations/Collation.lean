import Mathlib.Data.Prod.Lex
import Mathlib.Data.String.Basic

/-!
# Collations

The order a database compares texts by: a linear order, as every deterministic collation is.
Row values are compared component by component.
-/

namespace Foundations

structure Collation where
  order : LinearOrder String

def Collated (_ : Collation) : Type := String

instance (collation : Collation) : LinearOrder (Collated collation) := collation.order

def Collation.codePoints : Collation := ⟨inferInstance⟩

end Foundations
