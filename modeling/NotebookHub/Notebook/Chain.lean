import NotebookHub.Notebook.Cell

namespace NotebookHub

/-- Each document with the one before it, `previous` standing before the first. -/
def linksAfter (previous : Option String) : List String → List (String × Option String)
  | [] => []
  | d :: ds => (d, previous) :: linksAfter (some d) ds

def chainLinks (documents : List String) : List (String × Option String) :=
  linksAfter none documents

def predecessorOf (documents : List String) (document : String) : Option String :=
  match documents.idxOf? document with
  | some (i + 1) => documents[i]?
  | _ => none

def hasDuplicates (documents : List String) : Bool := ¬ documents.Nodup

def Notebook.documents (n : Notebook) : List String := n.cells.map Cell.document

end NotebookHub
