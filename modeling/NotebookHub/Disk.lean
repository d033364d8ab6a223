import NotebookHub.Path
import NotebookHub.Table
import NotebookHub.Text.Utf8

namespace NotebookHub

inductive FileFault
  | missing
  | isFolder
  /-- Something on the way is no folder. -/
  | notFolder
  | nameTooLong
  /-- A name that no file can have, since it holds a null character. -/
  | badName
  deriving DecidableEq, Repr

def FileFault.message : FileFault → String
  | .missing => "no such file"
  | .isFolder => "a folder stands where a file is wanted"
  | .notFolder => "a file stands where a folder is wanted"
  | .nameTooLong => "file name too long"
  | .badName => "embedded null byte"

inductive DiskEntry
  | file (octets : List Nat)
  | folder
  deriving DecidableEq, Repr

/-- Entries by the names on the way to them. A way that leads up begins with double dots, and one
from the outermost folder with a slash. -/
structure Disk where
  entries : Table (List String) DiskEntry := .empty

namespace Disk

def outermost : List String := ["/"]

def isAbove (names : List String) : Bool := names.all (· == "..") || names == outermost

def entry? (d : Disk) (names : List String) : Option DiskEntry :=
  if isAbove names then some .folder else d.entries.get? names

def parent (names : List String) : List String :=
  if names = outermost then outermost
  else if isAbove names then names ++ [".."]
  else names.dropLast

def place (d : Disk) (entry : DiskEntry) (here : List String) : List String → Disk
  | [] => d
  | [n] => ⟨d.entries.insert (here ++ [n]) entry⟩
  | n :: ns =>
    let d : Disk :=
      if (d.entry? (here ++ [n])).isSome then d else ⟨d.entries.insert (here ++ [n]) .folder⟩
    d.place entry (here ++ [n]) ns

def octetCount (s : List Char) : Nat := (Utf8.encode s).length

def maxNameOctets : Nat := 255
def maxPathOctets : Nat := 4095

/-- Where a walk ends that starts at `here`; every step leaves from a folder. -/
def walk (d : Disk) (here : List String) : List String → Except FileFault (List String)
  | [] => .ok here
  | n :: ns =>
    match d.entry? here with
    | some .folder =>
      if n = ".." then walk d (parent here) ns
      else if maxNameOctets < octetCount n.toList then .error .nameTooLong
      else walk d (here ++ [n]) ns
    | some (.file _) => .error .notFolder
    | none => .error .missing

def find (d : Disk) (p : Path) : Except FileFault (List String) :=
  if p.hasNull then .error .badName
  else if maxPathOctets < octetCount p.chars then .error .nameTooLong
  else d.walk (if p.isAbsolute then outermost else []) p.names

def read (d : Disk) (p : Path) : Except FileFault (List Nat) :=
  (d.find p).bind fun names =>
    match d.entry? names with
    | some (.file octets) => .ok octets
    | some .folder => .error .isFolder
    | none => .error .missing

def write (d : Disk) (p : Path) (octets : List Nat) : Except FileFault Disk :=
  (d.find p).bind fun names =>
    match d.entry? names with
    | some .folder => .error .isFolder
    | _ => .ok ⟨d.entries.insert names (.file octets)⟩

end Disk
end NotebookHub
