/-
# Field paths

Nested fields are addressed by dot paths such as `items.name`.  A connection may address one
element of an array, `items[2].name`; the path of the field itself is what remains without the
indices in brackets.  For a field to be visible its ancestors must be expanded: these are the
parts of its path in front of each dot.
-/

namespace MappingCanvas
namespace Path

/-- The characters outside brackets, inside `depth` of them.  A closing bracket that closes
nothing is an ordinary character, an opening one never is. -/
def outside : Nat → List Char → List Char
  | _, [] => []
  | depth, c :: cs =>
    if c = '[' then outside (depth + 1) cs
    else match depth with
      | 0 => c :: outside 0 cs
      | d + 1 => if c = ']' then outside d cs else outside (d + 1) cs

/-- A path without its array indices. -/
def stripIndices (path : String) : String := String.ofList (outside 0 path.toList)

/-- What stands in front of each dot. -/
def beforeDots : List Char → List (List Char)
  | [] => []
  | c :: cs =>
    let rest := (beforeDots cs).map (c :: ·)
    if c = '.' then [] :: rest else rest

/-- The fields that must be expanded for the field of a handle to be visible. -/
def ancestors (handle : String) : List String :=
  ((beforeDots handle.toList).map fun cs => String.ofList (outside 0 cs)).filter (!·.isEmpty)

example : stripIndices "items[2].name" = "items.name" := by decide +kernel
example : stripIndices "a]b[c[d]e" = "a]b" := by decide +kernel
example : ancestors "items[2].address.city" = ["items", "items.address"] := by decide +kernel

end Path
end MappingCanvas
