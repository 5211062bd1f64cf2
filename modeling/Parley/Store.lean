import Parley.Fault
import Parley.NameMap

/-!
# Script variables

Variables are named values; in scripts a `$` stands before the name.  Setting a
variable may change its type.
-/

namespace Parley

/-- The variables of a script, named without the `$`. -/
abbrev Store := NameMap Value

namespace Store

/-- The value of a variable, which has to be defined. -/
def read (store : Store) (name : String) : Except Fault Value :=
  match store.get? name with
  | some value => .ok value
  | none => .error (.undefinedVariable name)

/-- The type of a variable, if it is defined. -/
def typeOf? (store : Store) (name : String) : Option DataType :=
  (store.get? name).map Value.type

/-- Reading succeeds exactly on the value that the variable has. -/
theorem read_eq_ok_iff {store : Store} {name : String} {value : Value} :
    read store name = .ok value ↔ store.get? name = some value := by
  unfold read
  split <;> simp_all

end Store

end Parley
