import NotebookHub.Path
import NotebookHub.Uri.Parts
import NotebookHub.Uri.Percent

namespace NotebookHub

structure Key where
  text : String
  deriving DecidableEq, Repr

namespace Uri

def fileScheme : String := "file"
def cellScheme : String := "vscode-notebook-cell"

def scheme (uri : String) : Except Error String :=
  (parts uri.toList).map fun p => String.ofList p.scheme

def isCell (uri : String) : Except Error Bool := (scheme uri).map (· == cellScheme)

/-- Files and cells have the decoded path; any other URI is a path as it stands. -/
def path (uri : String) : Except Error Path :=
  (parts uri.toList).map fun p =>
    if String.ofList p.scheme = fileScheme || String.ofList p.scheme = cellScheme then
      Path.ofChars (percentDecode p.path)
    else Path.ofChars uri.toList

def ofPath (p : Path) : Except Error String :=
  if p.isAbsolute then .ok ("file://" ++ String.ofList (percentEncode p.chars))
  else .error .relativePath

/-- A file is filed under its normal URI, anything else under its URI as it stands. -/
def key (uri : String) : Except Error Key := do
  let p ← parts uri.toList
  if String.ofList p.scheme = fileScheme then
    return ⟨← ofPath (Path.ofChars (percentDecode p.path))⟩
  return ⟨uri⟩

end Uri

structure Address where
  uri : String
  key : Key
  path : Path
  deriving DecidableEq, Repr

def Address.of (uri : String) : Except Uri.Error Address := do
  return ⟨uri, ← Uri.key uri, ← Uri.path uri⟩

end NotebookHub
