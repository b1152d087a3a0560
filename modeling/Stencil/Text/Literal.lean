import Stencil.Constant
import Stencil.Decimal.Shortest
import Stencil.Text.Quoted

/-!
# The text of a constant

A constant has a text, which stands wherever it is put into other text, and a printed form, in which
a text is quoted.
-/

namespace Stencil.Constant

/-- The name of a constant's type. -/
def typeName : Constant → String
  | null => "NoneType"
  | bool _ => "bool"
  | int _ => "int"
  | float .. => "float"
  | str _ => "str"

/-- The text of a constant. -/
def text : Constant → String
  | null => "None"
  | bool b => if b then "True" else "False"
  | int n => toString n
  | float x _ => Shortest.text x
  | str s => s

/-- The printed form of a constant. -/
def shown : Constant → String
  | str s => Text.quoted s
  | c => c.text

end Stencil.Constant
