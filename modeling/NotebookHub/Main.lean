import NotebookHub.CommandLine.Run

namespace NotebookHub

def octetsOf (b : ByteArray) : List Nat := b.toList.map UInt8.toNat

def bytesOf (octets : List Nat) : ByteArray := ⟨(octets.map UInt8.ofNat).toArray⟩

def faultOf : IO.Error → FileFault
  | .inappropriateType .. => .isFolder
  | .invalidArgument .. => .nameTooLong
  | _ => .missing

/-- The rest of a stream, after what was read before. -/
partial def readRest (s : IO.FS.Stream) (before : ByteArray) : IO ByteArray := do
  let piece ← s.read 65536
  if piece.isEmpty then return before else readRest s (before ++ piece)

def realHost : Host IO where
  read p := do
    match ← (IO.FS.readBinFile p.text).toBaseIO with
    | .ok b => return .ok (octetsOf b)
    | .error e => return .error (faultOf e)
  write p octets := do
    match ← (IO.FS.writeBinFile p.text (bytesOf octets)).toBaseIO with
    | .ok () => return .ok ()
    | .error e => return .error (faultOf e)
  input := do return octetsOf (← readRest (← IO.getStdin) .empty)

def Ending.complaints : Ending → List String
  | .done => []
  | .withErrors errors => errors.map PassedOver.message
  | .refused .arguments => ["usage: (serve | replay EVENTS | show-config) [OPTIONS]"]
  | .refused (.logLevel e) => [e.message]
  | .refused (.events file e) => [e.message file]
  | .broken (.file f) => [f.message]
  | .broken .malformedText => ["malformed text"]
  | .broken (.excess e) => [e.message]
  | .broken (.fault f) => [f.message]

end NotebookHub

open NotebookHub in
def main (args : List String) : IO UInt32 := do
  let outcome ← Command.runArguments realHost args
  (← IO.getStdout).putStr outcome.printed
  for line in outcome.ending.complaints do
    (← IO.getStderr).putStrLn line
  return UInt32.ofNat outcome.ending.exitCode
