namespace NotebookHub.Text

def pieces (mark : Char) : List Char → List (List Char)
  | [] => [[]]
  | c :: cs =>
    if c = mark then [] :: pieces mark cs
    else
      match pieces mark cs with
      | [] => [[c]]
      | p :: ps => (c :: p) :: ps

end NotebookHub.Text
