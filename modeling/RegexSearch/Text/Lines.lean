/-! Lines of a text. -/
namespace RegexSearch.Text

/-- The lines of a text: each ends at a line feed, a carriage return just before that is dropped, and a last line needs no
line feed. -/
def lines : List Char → List (List Char)
  | [] => []
  | '\n' :: rest => [] :: lines rest
  | '\r' :: '\n' :: rest => [] :: lines rest
  | c :: rest =>
    match lines rest with
    | [] => [[c]]
    | line :: more => (c :: line) :: more

example : lines ['a', '\r', '\n', '\n', 'b', '\r'] = [['a'], [], ['b', '\r']] := by decide

def linesOfBytes? (bytes : ByteArray) : Option (List (List Char)) :=
  (String.fromUTF8? bytes).map fun text => lines text.toList

end RegexSearch.Text
