/-!
# Segments of a text

Cutting a text at a separator and joining the pieces again. The pieces may be empty, so joining
gives the text back.
-/

namespace EcmaLower

/-- The pieces between the characters for which `isSep` holds; at least one. -/
def segmentsOf (isSep : Char → Bool) : List Char → List (List Char)
  | [] => [[]]
  | c :: cs =>
    if isSep c then [] :: segmentsOf isSep cs
    else match segmentsOf isSep cs with
      | first :: rest => (c :: first) :: rest
      | [] => [[c]]

/-- The pieces of a text between the separators; at least one. -/
def segments (isSep : Char → Bool) (s : String) : List String :=
  (segmentsOf isSep s.toList).map String.ofList

/-- Texts with a separator between them. -/
def joinWith (sep : String) : List String → String
  | [] => ""
  | [s] => s
  | s :: rest => s ++ sep ++ joinWith sep rest

/-- Drops the elements at the end for which `p` holds. -/
def dropEndWhile {α : Type} (p : α → Bool) (l : List α) : List α :=
  (l.reverse.dropWhile p).reverse

end EcmaLower
