set_option autoImplicit false

/-!
# File name extensions

The last component of a path decides the format of the file: what stands behind the last dot of it,
unless that dot is its first character.
-/

namespace Parley.Text

/-- The last component of a path that names a file. -/
def fileName? (path : String) : Option (List Char) :=
  let components := (path.toList.splitOn '/').filter fun part => !part.isEmpty && part != ['.']
  components.getLast?.filter (· != ['.', '.'])

/-- The extension of a path, without its dot. -/
def extension? (path : String) : Option (List Char) :=
  (fileName? path).bind fun name =>
    let extension := (name.reverse.takeWhile (· ≠ '.')).reverse
    let stem := name.take (name.length - extension.length - 1)
    if stem.isEmpty then none else some extension

/-- Whether a path has an extension, in this spelling. -/
def hasExtension (extension path : String) : Bool :=
  extension? path == some extension.toList

/-- Whether a path has an extension, given in small letters, in any spelling of its letters. -/
def hasExtensionAnyCase (extension path : String) : Bool :=
  (extension? path).map (·.map Char.toLower) == some extension.toList

end Parley.Text
