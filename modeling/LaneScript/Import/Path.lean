/-!
# Paths

A path is a text, and its components are what its slashes divide it into.  Empty components and
single dots do not count, but for a dot at the very start of a relative path.  Two paths are the
same when their components are, and the text of a path is what messages show.
-/

namespace LaneScript

/-- A part of a path. -/
inductive Component where
  /-- The slash at the start of an absolute path. -/
  | root
  /-- The dot at the start of a relative path. -/
  | current
  | parent
  | name (text : String)
  deriving DecidableEq, Repr, Inhabited

/-- The part of a path as it is written. -/
def Component.text : Component → String
  | .root => "/"
  | .current => "."
  | .parent => ".."
  | .name text => text

/-- A path as it is written. -/
structure Path where
  text : String
  deriving DecidableEq, Repr, Inhabited

namespace Path

/-- The texts between the slashes of a path, when `part` holds the characters of the current one,
last first. -/
def splitAfter (part : List Char) : List Char → List (List Char)
  | [] => [part.reverse]
  | c :: rest =>
    if c == '/' then part.reverse :: splitAfter [] rest else splitAfter (c :: part) rest

/-- The component that a text between slashes is; an empty text and a dot are none. -/
def component? (part : List Char) : Option Component :=
  if part.isEmpty || part == ['.'] then none
  else if part == ['.', '.'] then some .parent
  else some (.name (String.ofList part))

/-- The path starts at the root. -/
def isAbsolute (path : Path) : Bool := path.text.toList.head? == some '/'

/-- The components of a path. -/
def components (path : Path) : List Component :=
  let parts := splitAfter [] path.text.toList
  let first : List Component :=
    if path.isAbsolute then [.root] else if parts.head? == some ['.'] then [.current] else []
  first ++ parts.filterMap component?

/-- The path with the second one behind the first, unless the second is absolute. -/
def join (base : Path) (path : Path) : Path :=
  if path.isAbsolute then path
  else if base.text.isEmpty || base.text.toList.getLast? == some '/' then
    ⟨base.text ++ path.text⟩
  else ⟨base.text ++ "/" ++ path.text⟩

/-- The path of some components. -/
def ofComponents (components : List Component) : Path :=
  components.foldl (fun path component => path.join ⟨component.text⟩) ⟨""⟩

/-- The same components. -/
def same (path other : Path) : Bool := path.components == other.components

/-- The path lies in the directory or is the directory itself. -/
def isInside (path directory : Path) : Bool := directory.components.isPrefixOf path.components

/-- The path without its last component, as it is written; neither the root nor the empty path has
one. -/
def parent? (path : Path) : Option Path :=
  let first := path.components.take 1
  let lead := path.text.toList.take (if first == [.root] || first == [.current] then 1 else 0)
  let parts := (splitAfter [] (path.text.toList.drop lead.length)).reverse
  match parts.dropWhile fun part => (component? part).isNone with
  | _ :: before =>
    let kept := (before.dropWhile fun part => (component? part).isNone).reverse
    some ⟨String.ofList (lead ++ ['/'].intercalate kept)⟩
  | [] => if lead == ['.'] then some ⟨""⟩ else none

/-- The last component, if it is a name. -/
def fileName? (path : Path) : Option String :=
  match path.components.getLast? with
  | some (.name text) => some text
  | _ => none

/-- The last component of a path, or else all of it. -/
def shortName (path : Path) : String := path.fileName?.getD path.text

/-- What a component does to the components before it: a dot nothing, two dots take the last one
away. -/
def settle (before : List Component) : Component → List Component
  | .current => before
  | .parent => before.dropLast
  | component => before ++ [component]

/-- The path without dots.  Two dots take away what is before them, even the root. -/
def normalize (path : Path) : Path := ofComponents (path.components.foldl settle [])

end Path
end LaneScript
