import NbLot.Lib.ByteFile

/-!
# Buffered streams

Source: nuttx/libc/stdio/lib_libfread.c:59-300, lib_libfwrite.c:59-167,
lib_libfflush.c:74-186, lib_rdflush.c:64-120, lib_wrflush.c, lib_fseek.c, lib_fflush.c, with
CONFIG_NUNGET_CHARS of 0 or no character pushed back.

A stream that is open for reading and writing, over a regular file. The pointers into the
buffer are offsets from `fs_bufstart`. How many bytes each `write` accepts is the parameter
`accepts`; it is not 0. Loops have fuel, and give `none` when it is used up.
-/
namespace NbLot.Source.Stdio
open Lib.ByteFile

/-- The open file; `writes` counts the calls of `write`. -/
structure Fd where
  data : List UInt8
  pos : Nat
  writes : Nat
  deriving DecidableEq, Repr

/-- `FILE`: `bufsize` is `fs_bufend - fs_bufstart`. -/
structure Stream where
  bufsize : Nat
  buf : List UInt8
  bufpos : Nat
  bufread : Nat
  deriving DecidableEq, Repr

inductive Whence where
  | set
  | cur
  | fromEnd
  deriving DecidableEq, Repr

namespace Fd

def read (f : Fd) (count : Nat) : Fd × List UInt8 :=
  let bytes := readAt f.data f.pos count
  ({ f with pos := f.pos + bytes.length }, bytes)

/-- The bytes that are accepted are written. -/
def write (accepts : Nat → Nat) (f : Fd) (bytes : List UInt8) : Fd × Nat :=
  let count := min bytes.length (accepts f.writes + 1)
  (⟨writeAt f.data f.pos (bytes.take count), f.pos + count, f.writes + 1⟩, count)

/-- The position `lseek` goes to. -/
def target (data : List UInt8) (pos : Nat) (offset : Int) : Whence → Int
  | .set => offset
  | .cur => pos + offset
  | .fromEnd => data.length + offset

/-- `lseek`, and whether it succeeds. -/
def lseek (f : Fd) (offset : Int) (whence : Whence) : Fd × Bool :=
  let position := target f.data f.pos offset whence
  if position < 0 then (f, false) else ({ f with pos := position.toNat }, true)

end Fd

/-- Bytes are copied into the buffer. -/
def store (buf : List UInt8) (at_ : Nat) (bytes : List UInt8) : List UInt8 :=
  buf.take at_ ++ bytes ++ buf.drop (at_ + bytes.length)

variable (accepts : Nat → Nat)

/-- The loop of `lib_fflush`; what is left of the bytes is returned. -/
def flushLoop (bforce : Bool) : Nat → Fd → List UInt8 → Option (Fd × List UInt8)
  | 0, _, _ => none
  | fuel + 1, f, src =>
    let (f, written) := f.write accepts src
    let src := src.drop written
    if bforce = true ∧ src ≠ [] then flushLoop bforce fuel f src else some (f, src)

/-- `lib_fflush`. -/
def libFflush (s : Stream) (f : Fd) (bforce : Bool) : Option (Stream × Fd) :=
  if s.bufpos ≠ 0 then
    if s.bufread ≠ 0 then some (s, f)
    else
      match flushLoop accepts bforce s.bufpos f (s.buf.take s.bufpos) with
      | none => none
      | some (f, rest) => some ({ s with buf := store s.buf 0 rest, bufpos := rest.length }, f)
  else some (s, f)

/-- `lib_wrflush`. -/
def libWrflush (s : Stream) (f : Fd) : Option (Stream × Fd) := libFflush accepts s f true

/-- `lib_rdflush`, and whether it succeeds. With the buffer empty `fseek` is `lseek`. -/
def libRdflush (s : Stream) (f : Fd) : Stream × Fd × Bool :=
  if s.bufread ≠ 0 then
    let rdoffset : Int := s.bufread - s.bufpos
    let (f, ok) := f.lseek (-rdoffset) .cur
    ({ s with bufpos := 0, bufread := 0 }, f, ok)
  else (s, f, true)

/-- The loop of `lib_fread`. -/
def freadLoop : Nat → Nat → Stream → Fd → Option (Stream × Fd × List UInt8)
  | 0, _, _, _ => none
  | fuel + 1, count, s, f =>
    let n := min count (s.bufread - s.bufpos)
    let got := (s.buf.drop s.bufpos).take n
    let s := { s with bufpos := s.bufpos + n }
    let count := count - n
    if count = 0 then some (s, f, got)
    else
      let s := { s with bufpos := 0, bufread := 0 }
      if count > s.bufsize then
        let (f, bytes) := f.read count
        some (s, f, got ++ bytes)
      else
        let (f, bytes) := f.read s.bufsize
        if bytes = [] then some (s, f, got)
        else
          match freadLoop fuel count
              { s with buf := store s.buf 0 bytes, bufread := bytes.length } f with
          | none => none
          | some (s, f, more) => some (s, f, got ++ more)

/-- `lib_fread`: the bytes that are stored at `ptr`. -/
def libFread (s : Stream) (f : Fd) (count : Nat) : Option (Stream × Fd × List UInt8) :=
  match libWrflush accepts s f with
  | none => none
  | some (s, f) => freadLoop (count + 2) count s f

/-- The loop of `lib_fwrite`. -/
def fwriteLoop : Nat → List UInt8 → Stream → Fd → Option (Stream × Fd)
  | 0, _, _, _ => none
  | fuel + 1, src, s, f =>
    if src = [] then some (s, f)
    else
      let gulpSize := min (s.bufsize - s.bufpos) src.length
      let s := { s with
        buf := store s.buf s.bufpos (src.take gulpSize), bufpos := s.bufpos + gulpSize }
      let src := src.drop gulpSize
      if s.bufpos ≥ s.bufsize then
        match libFflush accepts s f false with
        | none => none
        | some (s, f) => fwriteLoop fuel src s f
      else fwriteLoop fuel src s f

/-- `lib_fwrite`, with its result. -/
def libFwrite (s : Stream) (f : Fd) (src : List UInt8) : Option (Stream × Fd × Int) :=
  match libRdflush s f with
  | (s, f, false) => some (s, f, -1)
  | (s, f, true) =>
    match fwriteLoop accepts (src.length + 1) src s f with
    | none => none
    | some (s, f) => some (s, f, src.length)

/-- `fseek`, and whether it succeeds. -/
def fseek (s : Stream) (f : Fd) (offset : Int) (whence : Whence) : Option (Stream × Fd × Bool) :=
  match libRdflush s f with
  | (s, f, false) => some (s, f, false)
  | (s, f, true) =>
    match libWrflush accepts s f with
    | none => none
    | some (s, f) =>
      let (f, ok) := f.lseek offset whence
      some (s, f, ok)

inductive Call where
  | fread (count : Nat)
  | fwrite (src : List UInt8)
  | fflush
  | fseek (offset : Int) (whence : Whence)
  deriving DecidableEq, Repr

inductive Result where
  | bytes (got : List UInt8)
  | count (n : Int)
  | ok (success : Bool)
  deriving DecidableEq, Repr

/-- A call on the stream. -/
def call (s : Stream) (f : Fd) : Call → Option (Stream × Fd × Result)
  | .fread count => (libFread accepts s f count).map fun r => (r.1, r.2.1, .bytes r.2.2)
  | .fwrite src => (libFwrite accepts s f src).map fun r => (r.1, r.2.1, .count r.2.2)
  | .fflush => (libFflush accepts s f true).map fun r => (r.1, r.2, .ok true)
  | .fseek offset whence => (fseek accepts s f offset whence).map fun r => (r.1, r.2.1, .ok r.2.2)

/-- Calls on the stream, with their results. -/
def calls (s : Stream) (f : Fd) : List Call → Option (Stream × Fd × List Result)
  | [] => some (s, f, [])
  | c :: cs =>
    match call accepts s f c with
    | none => none
    | some (s, f, r) =>
      match calls s f cs with
      | none => none
      | some (s, f, rs) => some (s, f, r :: rs)

/-- A stream that has just been opened. -/
def opened (bufsize : Nat) : Stream := ⟨bufsize, List.replicate bufsize 0, 0, 0⟩

end NbLot.Source.Stdio
