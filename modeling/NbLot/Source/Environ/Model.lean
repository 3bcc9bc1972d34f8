import NbLot.Lib.CharArray

/-!
# The environment of a task group

Source: nuttx/sched/environ/env_findvar.c, env_removevar.c, env_setenv.c, env_unsetenv.c,
env_getenv.c; nuttx/mm/mm_heap/mm_realloc.c (what `realloc` does with its old block).

The environment is one block of memory with a string `name=value` for each variable. A
block is a list of bytes at an address, 0 being NULL; an address without a block is memory
that was released or never allocated. `none` is a read or a write outside a block. Each
function runs under `sched_lock`, so the calls come one after the other. What the allocator
returns is given with a call: nothing, or an address and the bytes that are there.
-/
namespace NbLot.Source.Environ

open Lib

/-- A string of C: the bytes in front of its NUL. -/
abbrev CString := { text : List UInt8 // ∀ b ∈ text, b ≠ 0 }

inductive Errno where
  | einval
  | enomem
  | enoent
  deriving DecidableEq, Repr

/-- A block that `malloc` or `realloc` returns: its address, and the bytes behind the old
contents. -/
structure Alloc where
  addr : Nat
  fill : List UInt8
  deriving DecidableEq, Repr

/-- `tg_envp` and `tg_envsize` of the task group, and the allocated blocks. -/
structure EnvState where
  envp : Nat
  envsize : Nat
  block : Nat → Option (List UInt8)

namespace EnvState

@[simps]
def setEnv (s : EnvState) (envp envsize : Nat) : EnvState :=
  { s with envp := envp, envsize := envsize }

@[simps]
def setBlock (s : EnvState) (addr : Nat) (bytes : Option (List UInt8)) : EnvState :=
  { s with block := Function.update s.block addr bytes }

/-- The bytes at `tg_envp`. -/
def bytes (s : EnvState) : List UInt8 := (s.block s.envp).getD []

end EnvState

/-- `'='`. -/
def equals : UInt8 := 61

/-- `strlen`, which reads up to the NUL. -/
def strlen (bytes : List UInt8) : Option Nat :=
  if 0 ∈ bytes then some (cstr bytes).length else none

/-- `env_cmpname`; the loop ends where the strings differ. -/
def envCmpname : List UInt8 → List UInt8 → Option Bool
  | name :: names, eq :: eqs =>
    if name = eq then envCmpname names eqs else some (name = 0 ∧ eq = equals)
  | _, _ => none

/-- The loop of `env_findvar` from `ptr`. Every round moves on by a byte or more. -/
def findLoop (bytes : List UInt8) (envsize : Nat) (name : CString) : Nat → Nat → Option (Option Nat)
  | 0, _ => none
  | fuel + 1, ptr =>
    if ptr < envsize then
      match envCmpname (name.1 ++ [0]) (bytes.drop ptr) with
      | none => none
      | some true => some (some ptr)
      | some false =>
        match strlen (bytes.drop ptr) with
        | none => none
        | some len => findLoop bytes envsize name fuel (ptr + (len + 1))
    else some none

/-- `env_findvar`. -/
def envFindvar (s : EnvState) (name : CString) : Option (Option Nat) :=
  findLoop s.bytes s.envsize name (s.envsize + 1) 0

/-- The loop of `env_removevar`. -/
def moveLoop : Nat → Nat → Nat → List UInt8 → Option (List UInt8)
  | 0, _, _, bytes => some bytes
  | count + 1, dest, src, bytes =>
    match bytes[src]? with
    | none => none
    | some b => moveLoop count (dest + 1) (src + 1) (bytes.set dest b)

/-- `env_removevar`, for a variable that `env_findvar` has found. -/
def envRemovevar (s : EnvState) (pvar : Nat) : Option EnvState :=
  match strlen (s.bytes.drop pvar) with
  | none => none
  | some n =>
    let len := n + 1
    let src := pvar + len
    match moveLoop (s.envsize - src) pvar src s.bytes with
    | none => none
    | some bytes => some ((s.setBlock s.envp (some bytes)).setEnv s.envp (s.envsize - len))

/-- `malloc`. -/
def malloc (s : EnvState) (size : Nat) (alloc : Option Alloc) : EnvState × Nat :=
  match alloc with
  | none => (s, 0)
  | some a => (s.setBlock a.addr (some (a.fill.take size)), a.addr)

/-- `realloc` of an allocated block. For size 0 it is `free`. -/
def realloc (s : EnvState) (oldmem size : Nat) (alloc : Option Alloc) : Option (EnvState × Nat) :=
  match s.block oldmem with
  | none => none
  | some old =>
    if size < 1 then some (s.setBlock oldmem none, 0)
    else
      match alloc with
      | none => some (s, 0)
      | some a =>
        some ((s.setBlock oldmem none).setBlock a.addr (some ((old ++ a.fill).take size)), a.addr)

/-- `sprintf (pvar, "%s=%s", name, value)` at an offset of a block. -/
def storeVar (s : EnvState) (addr pvar : Nat) (name value : CString) : Option EnvState :=
  match s.block addr with
  | none => none
  | some bytes =>
    let text := name.1 ++ equals :: value.1 ++ [0]
    if pvar + text.length ≤ bytes.length then
      some (s.setBlock addr
        (some (bytes.take pvar ++ text ++ bytes.drop (pvar + text.length))))
    else none

/-- `unsetenv`. -/
def unsetenv (s : EnvState) (name : CString) (alloc : Option Alloc) :
    Option (EnvState × Except Errno Unit) :=
  match envFindvar s name with
  | none => none
  | some none => some (s, .ok ())
  | some (some pvar) =>
    match envRemovevar s pvar with
    | none => none
    | some s =>
      match realloc s s.envp s.envsize alloc with
      | none => none
      | some (s, newenvp) =>
        if newenvp = 0 then some (s, .error .enomem)
        else some (s.setEnv newenvp s.envsize, .ok ())

/-- The second half of `setenv`: room for the variable is made and it is stored. -/
def addvar (s : EnvState) (name value : CString) (alloc : Option Alloc) :
    Option (EnvState × Except Errno Unit) :=
  let varlen := name.1.length + value.1.length + 2
  let made :=
    if s.envp ≠ 0 then realloc s s.envp (s.envsize + varlen) alloc
    else some (malloc s varlen alloc)
  match made with
  | none => none
  | some (s, newenvp) =>
    if newenvp = 0 then some (s, .error .enomem)
    else
      let pvar := if s.envp ≠ 0 then s.envsize else 0
      let newsize := if s.envp ≠ 0 then s.envsize + varlen else varlen
      (storeVar (s.setEnv newenvp newsize) newenvp pvar name value).map fun s => (s, .ok ())

/-- `setenv`; `none` for a string is NULL. -/
def setenv (s : EnvState) (name value : Option CString) (overwrite : Bool)
    (alloc : Option Alloc) : Option (EnvState × Except Errno Unit) :=
  match name with
  | none => some (s, .error .einval)
  | some name =>
    match value with
    | none => if overwrite then unsetenv s name alloc else some (s, .ok ())
    | some value =>
      if value.1 = [] then
        if overwrite then unsetenv s name alloc else some (s, .ok ())
      else
        match if s.envp ≠ 0 then envFindvar s name else some none with
        | none => none
        | some none => addvar s name value alloc
        | some (some pvar) =>
          if overwrite = false then some (s, .ok ())
          else
            match envRemovevar s pvar with
            | none => none
            | some s => addvar s name value alloc

/-- `getenv`: the string at the pointer that it returns. -/
def getenv (s : EnvState) (name : Option CString) : Option (Except Errno CString) :=
  match name with
  | none => some (.error .einval)
  | some name =>
    match envFindvar s name with
    | none => none
    | some none => some (.error .enoent)
    | some (some pvar) =>
      let var := cstr (s.bytes.drop pvar)
      if equals ∈ var then
        let pvalue := pvar + (var.takeWhile (· ≠ equals)).length + 1
        some (.ok ⟨cstr (s.bytes.drop pvalue), nulFree_cstr _⟩)
      else some (.error .einval)

/-- The calls that change the environment. -/
inductive EnvAct where
  | setenv (name value : Option CString) (overwrite : Bool) (alloc : Option Alloc)
  | unsetenv (name : CString) (alloc : Option Alloc)
  deriving DecidableEq

def EnvAct.alloc : EnvAct → Option Alloc
  | .setenv _ _ _ alloc => alloc
  | .unsetenv _ alloc => alloc

def EnvState.call (s : EnvState) : EnvAct → Option (EnvState × Except Errno Unit)
  | .setenv name value overwrite alloc => Environ.setenv s name value overwrite alloc
  | .unsetenv name alloc => Environ.unsetenv s name alloc

end NbLot.Source.Environ
