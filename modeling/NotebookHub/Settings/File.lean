import NotebookHub.Disk
import NotebookHub.Settings.Basic
import NotebookHub.Text.Line
import NotebookHub.Text.Utf8
import NotebookHub.Toml.Reader

namespace NotebookHub

def Given.ofToml : Toml → Given
  | .text s => .text s
  | .whole n => .whole n
  | .flag b => .flag b
  | _ => .other

namespace Settings

def Section.ofToml (t : Option Toml) : Section :=
  .ofList (((t.bind Toml.members?).getD []).map fun m => (m.1, Given.ofToml m.2))

def Sections.ofToml (members : List (String × Toml)) : Sections :=
  let part (name : String) : Section := .ofToml (Toml.member? members name)
  ⟨part "notebook", part "workspace", part "logging"⟩

def fileName : String := "cellchain.toml"

/-- The file to read: the one that was named, or the one of the usual name in the root folder. -/
def filePath (root : Path) (named : Option Path) : Path :=
  named.getD (root.below ⟨.relative, [fileName]⟩)

inductive Refused
  | name
  | notUtf8
  | excess (e : ReadError)
  deriving DecidableEq, Repr

def Sections.ofText (room : Nat) (text : List Char) : Except Refused Sections :=
  match Toml.read (Text.foldReturns text) room with
  | .ok members => .ok (.ofToml members)
  | .error .malformed => .ok {}
  | .error e => .error (.excess e)

/-- The sections of a file. One that cannot be read has none. -/
def Sections.ofFile (room : Nat) : Except FileFault (List Nat) → Except Refused Sections
  | .error .badName => .error .name
  | .error _ => .ok {}
  | .ok octets =>
    match Utf8.decode? octets with
    | some text => Sections.ofText room text
    | none => .error .notUtf8

def load (file : Except FileFault (List Nat)) (given : Sections) (room : Nat := usualRoom) :
    Except Refused Settings :=
  (Sections.ofFile room file).map fun sections => .ofSections (given.onto sections)

end Settings
end NotebookHub
