namespace NotebookHub

inductive ReadError
  | malformed
  | tooManyDigits (count : Nat)
  | tooDeep
  deriving DecidableEq, Repr

def maxDigits : Nat := 4300

/-- The room of a host that leaves a thousand nested calls, of which a few are taken already. A host
may leave any other number. -/
def usualRoom : Nat := 980

def ReadError.message : ReadError → String
  | .malformed => "malformed text"
  | .tooManyDigits count =>
    s!"Exceeds the limit ({maxDigits} digits) for integer string conversion: value has {count} " ++
      "digits; use sys.set_int_max_str_digits() to increase the limit"
  | .tooDeep => "values lie too deep within values"

def checkDigits (count : Nat) : Except ReadError Unit :=
  if count ≤ maxDigits then .ok () else .error (.tooManyDigits count)

end NotebookHub
