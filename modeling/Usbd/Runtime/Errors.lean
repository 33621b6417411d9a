import Mathlib.Data.Nat.Notation

/-!
# Go error values

The code under study reports failures as Go `error` values, built either from a fixed text or by
`fmt.Errorf("text: %w", cause)` around a cause.  Callers look at such a value in two ways only:
they compare it with `nil`, and they ask `errors.Is` whether a given sentinel occurs in its chain
of causes.  `GoError` keeps exactly that much — the texts and the chain.  The run-time values that
the source formats *into* a text (positions, object names, byte counts) are not reproduced.
-/

namespace Usbd

/-- A Go error: a plain text, or a text wrapped around a cause. -/
inductive GoError
  /-- `errors.New`, or `fmt.Errorf` without `%w`. -/
  | new (text : String)
  /-- `fmt.Errorf` with `%w` at the end. -/
  | wrap (text : String) (cause : GoError)
  deriving DecidableEq, Repr

namespace GoError

/-- `errors.Is`: the target is the error itself or one of its causes. -/
def is : GoError → GoError → Bool
  | new t, target => new t = target
  | wrap t c, target => wrap t c = target || c.is target

lemma is_self (e : GoError) : e.is e = true := by
  cases e <;> simp [is]

lemma is_wrap {e target : GoError} (t : String) (h : e.is target = true) :
    (wrap t e).is target = true := by
  simp [is, h]

end GoError

/-- How a call can end without returning: a run-time panic, or waiting for ever. -/
inductive Stop
  | panic
  | blocked
  deriving DecidableEq, Repr

def ioEOF : GoError := .new "EOF"

def ioErrUnexpectedEOF : GoError := .new "unexpected EOF"

def osErrNotExist : GoError := .new "file does not exist"

def osErrClosed : GoError := .new "file already closed"

/-- What `os.File` reports for a negative position. -/
def errNegativeOffset : GoError := .new "negative offset"

/-- What the kernel reports for a write past the largest file position. -/
def errFileTooLarge : GoError := .new "file too large"

/-- A failure of the underlying storage. -/
def errInputOutput : GoError := .new "input/output error"

end Usbd
