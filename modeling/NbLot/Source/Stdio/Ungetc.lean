import NbLot.Source.Stdio.Model

/-!
# Characters that are pushed back, and the position of a stream

Source: nuttx/libc/stdio/lib_ungetc.c:55-91, lib_ftell.c:68-130, lib_fseek.c:72-102,
lib_libfread.c:80-97, lib_rdflush.c:64-120, with CONFIG_NUNGET_CHARS of 2.
-/
namespace NbLot.Source.Stdio

/-- A stream with its file and the characters of `fs_ungotten`, the last one first. -/
structure Pushed where
  stream : Stream
  ungotten : List UInt8
  fd : Fd
  deriving DecidableEq, Repr

namespace Pushed

variable (accepts : Nat → Nat) (s : Pushed)

/-- `ungetc`. -/
def ungetc (c : UInt8) : Pushed :=
  if s.ungotten.length < 2 then { s with ungotten := c :: s.ungotten } else s

/-- `lib_fread`: the characters that were pushed back come first. -/
def libFread (count : Nat) : Option (Pushed × List UInt8) :=
  let again := s.ungotten.take count
  (Stdio.libFread accepts s.stream s.fd (count - again.length)).map fun r =>
    (⟨r.1, s.ungotten.drop count, r.2.1⟩, again ++ r.2.2)

/-- `lib_rdflush`, and whether it succeeds. -/
def libRdflush : Pushed × Bool :=
  if s.stream.bufread ≠ 0 then
    let rdoffset : Int := s.stream.bufread - s.stream.bufpos + s.ungotten.length
    let (fd, ok) := s.fd.lseek (-rdoffset) .cur
    (⟨{ s.stream with bufpos := 0, bufread := 0 }, [], fd⟩, ok)
  else (s, true)

/-- `lib_fwrite`, with its result. -/
def libFwrite (src : List UInt8) : Option (Pushed × Int) :=
  match s.libRdflush with
  | (s, false) => some (s, -1)
  | (s, true) => (Stdio.libFwrite accepts s.stream s.fd src).map fun r =>
    (⟨r.1, s.ungotten, r.2.1⟩, r.2.2)

/-- `lib_fflush`, as `fflush` calls it. -/
def fflush : Option Pushed :=
  (libFflush accepts s.stream s.fd true).map fun r => ⟨r.1, s.ungotten, r.2⟩

/-- `fseek`, and whether it succeeds. -/
def fseek (offset : Int) (whence : Whence) : Option (Pushed × Bool) :=
  match s.libRdflush with
  | (s, false) => some (s, false)
  | (s, true) => (Stdio.fseek accepts s.stream s.fd offset whence).map fun r =>
    (⟨r.1, [], r.2.1⟩, r.2.2)

/-- `lib_getrdoffset`. -/
def libGetrdoffset : Int :=
  if s.stream.bufread ≠ 0 then s.stream.bufread - s.stream.bufpos + s.ungotten.length else 0

/-- `ftell`. -/
def ftell : Int := s.fd.pos - s.libGetrdoffset

inductive Call where
  | fread (count : Nat)
  | fwrite (src : List UInt8)
  | ungetc (c : UInt8)
  | fflush
  | fseek (offset : Int) (whence : Whence)

/-- The stream after a call. -/
def step : Call → Option Pushed
  | .fread count => (s.libFread accepts count).map Prod.fst
  | .fwrite src => (s.libFwrite accepts src).map Prod.fst
  | .ungetc c => some (s.ungetc c)
  | .fflush => s.fflush accepts
  | .fseek offset whence => (s.fseek accepts offset whence).map Prod.fst

end Pushed

end NbLot.Source.Stdio
