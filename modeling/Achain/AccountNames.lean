import Achain.Types

/-!
# Account names

`is_valid_account_name` looks at a name up to its first dot and takes what is after it for a name again.
-/

namespace Achain

def minNameSize : Nat := 1

def maxNameSize : Nat := 63

namespace ChainInterface

/-- `isalnum(c) && !isupper(c)`. -/
def isAlnumNotUpper (c : Char) : Bool := c.isAlphanum && !c.isUpper

/-- `is_valid_account_name`, in the C locale. -/
def isValidAccountName : Str → Bool
  | [] => false
  | first :: rest =>
    let name := first :: rest
    if name.length < minNameSize then false
    else if maxNameSize < name.length then false
    else if !first.isAlpha then false
    else if !isAlnumNotUpper (rest.getLastD first) then false
    else
      let subname := name.takeWhile (· != '.')
      let supername := name.drop (subname.length + 1)
      if !isAlnumNotUpper (subname.getLastD first) then false
      else if !subname.all fun c => isAlnumNotUpper c || c == '-' then false
      else if supername.isEmpty then true
      else isValidAccountName supername
termination_by name => name.length
decreasing_by
  simp only [List.length_drop, List.length_cons]
  omega

end ChainInterface

end Achain
