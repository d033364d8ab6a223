import NotebookHub.Text.Quoted
import NotebookHub.Uri.Host

namespace NotebookHub.Uri

inductive Error
  /-- The authority has brackets that do not enclose a host. -/
  | unmatchedBrackets
  /-- A host that is marked as an address of a version to come, and is none. -/
  | badFutureHost
  /-- Only addresses of later versions stand in brackets. -/
  | oldHost
  | badHost (host : String)
  /-- The authority has a character that normalises to a mark. -/
  | hiddenMark (authority : String)
  /-- A file URI whose path has no root names no file. -/
  | relativePath
  deriving DecidableEq, Repr

def Error.message : Error → String
  | .unmatchedBrackets => "Invalid IPv6 URL"
  | .badFutureHost => "IPvFuture address is invalid"
  | .oldHost => "An IPv4 address cannot be in brackets"
  | .badHost host => Text.quoted host ++ " does not appear to be an IPv4 or IPv6 address"
  | .hiddenMark authority =>
    "netloc '" ++ authority ++ "' contains invalid characters under NFKC normalization"
  | .relativePath => "relative path can't be expressed as a file URI"

structure Parts where
  scheme : List Char
  authority : List Char
  path : List Char
  deriving DecidableEq, Repr

/-- Drops control characters and blanks in front, and tabs and line ends anywhere. -/
def tidy (s : List Char) : List Char :=
  (s.dropWhile fun c => c.toNat ≤ 0x20).filter fun c => c ≠ '\t' && c ≠ '\r' && c ≠ '\n'

def isSchemeChar (c : Char) : Bool := c.isAlphanum || c == '+' || c == '.' || c == '-'

def isSchemeName : List Char → Bool
  | [] => false
  | c :: cs => c.isAlpha && (c :: cs).all isSchemeChar

/-- The scheme in lower case and what follows its colon, or no scheme and all of `s`. -/
def cutScheme (s : List Char) : List Char × List Char :=
  match s.dropWhile (· ≠ ':') with
  | [] => ([], s)
  | _ :: rest =>
    if isSchemeName (s.takeWhile (· ≠ ':')) then ((s.takeWhile (· ≠ ':')).map Char.toLower, rest)
    else ([], s)

def endsAuthority (c : Char) : Bool := c == '/' || c == '?' || c == '#'

def cutAuthority : List Char → List Char × List Char
  | '/' :: '/' :: s => (s.takeWhile (!endsAuthority ·), s.dropWhile (!endsAuthority ·))
  | s => ([], s)

def hostAndPort (authority : List Char) : List Char :=
  (authority.reverse.takeWhile (· ≠ '@')).reverse

def hasBrackets (authority : List Char) : Bool := authority.contains '[' || authority.contains ']'

/-- Nothing may stand before the opening bracket, and only a port after the closing one. -/
def bracketsMatch (authority : List Char) : Bool :=
  authority.contains '[' && authority.contains ']' &&
    (!(hostAndPort authority).contains '[' ||
      ((hostAndPort authority).head? == some '[' &&
        match ((hostAndPort authority).dropWhile (· ≠ ']')).drop 1 with
        | [] => true
        | c :: _ => c == ':'))

def hostOf (authority : List Char) : List Char :=
  match hostAndPort authority with
  | '[' :: rest => rest.takeWhile (· ≠ ']')
  | rest => rest.takeWhile (· ≠ ':')

def checkHost (host : List Char) : Except Error Unit :=
  if host.head? = some 'v' then if Host.isFuture host then .ok () else .error .badFutureHost
  else if Host.isFourth host then .error .oldHost
  else if Host.isSixth host then .ok ()
  else .error (.badHost (String.ofList host))

/-- The characters whose compatibility form holds a slash, a question mark, a number sign, an at
sign or a colon. -/
def hidesMark (c : Char) : Bool :=
  [0x2047, 0x2048, 0x2049, 0x2100, 0x2101, 0x2105, 0x2106, 0x2A74, 0xFE13, 0xFE16, 0xFE55, 0xFE56,
    0xFE5F, 0xFE6B, 0xFF03, 0xFF0F, 0xFF1A, 0xFF1F, 0xFF20].contains c.toNat

def checkAuthority (authority : List Char) : Except Error Unit := do
  if hasBrackets authority then
    if !bracketsMatch authority then throw .unmatchedBrackets
    checkHost (hostOf authority)
  if authority.any hidesMark then throw (.hiddenMark (String.ofList authority))

def parts (s : List Char) : Except Error Parts := do
  let (scheme, rest) := cutScheme (tidy s)
  let (authority, rest) := cutAuthority rest
  checkAuthority authority
  return ⟨scheme, authority, rest.takeWhile fun c => c ≠ '#' && c ≠ '?'⟩

end NotebookHub.Uri
