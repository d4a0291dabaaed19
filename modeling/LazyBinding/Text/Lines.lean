/-!
# Lines

A text is cut into lines at its line feeds. A carriage return in front of a line feed belongs to the
end of the line; what follows the last line feed is a line only if it is not empty.
-/
namespace LazyBinding.Text

def dropReturn (line : List Char) : List Char :=
  if line.getLast? == some '\r' then line.dropLast else line

def lines (cs : List Char) : List (List Char) :=
  match (cs.splitOn '\n').reverse with
  | [] => []
  | last :: ended =>
    let ended := ended.reverse.map dropReturn
    if last.isEmpty then ended else ended ++ [last]

def indent (text : String) : String :=
  "\n".intercalate ((lines text.toList).map fun line => "    " ++ String.ofList line)

end LazyBinding.Text
