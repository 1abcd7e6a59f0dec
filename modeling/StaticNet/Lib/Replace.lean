/-
Replacing a file in one step: the new contents are written beside it, get
their permissions there, and are renamed over it.

A program can be stopped between any two system calls, and in the middle
of a write, which then has got some of the bytes. What is left of a
replacement that was stopped is the old file or the new one, whole and
with its permissions (`interrupted_target`); only the file beside it can be
anything, and the next replacement starts by truncating that.
-/
import Mathlib.Data.Nat.Notation

namespace StaticNet

/-- The contents of a file and its permission bits. -/
structure File where
  bytes : List UInt8
  mode : Nat
deriving DecidableEq

/-- A file and the one beside it. -/
structure FilePair where
  target : Option File
  temp : Option File
deriving DecidableEq

/-- The calls of a replacement, in their order. -/
inductive ReplaceCall
  | write (bytes : List UInt8)
  | chmod (mode : Nat)
  | rename

/-- Where a replacement stops: after some calls, and in the middle of a
write after some bytes. -/
structure Interruption where
  calls : Nat
  bytes : Nat

namespace FilePair

/-- A file that is there is truncated and keeps its mode; a new one has the
mode that the process creates files with. -/
def create (created : Nat) (p : FilePair) (bytes : List UInt8) : FilePair :=
  { p with temp := some ⟨bytes, (p.temp.map File.mode).getD created⟩ }

def call (created : Nat) (p : FilePair) : ReplaceCall → FilePair
  | .write bytes => p.create created bytes
  | .chmod mode =>
      { p with temp := p.temp.map fun f => { f with mode := mode } }
  | .rename =>
      match p.temp with
      | none => p
      | some f => ⟨some f, none⟩

def replacement (bytes : List UInt8) (mode : Nat) : List ReplaceCall :=
  [.write bytes, .chmod mode, .rename]

def replace (created : Nat) (p : FilePair) (bytes : List UInt8)
    (mode : Nat) : FilePair :=
  (replacement bytes mode).foldl (call created) p

/-- What a replacement that is stopped leaves. -/
def interrupted (created : Nat) (p : FilePair) (bytes : List UInt8)
    (mode : Nat) (stop : Interruption) : FilePair :=
  let calls := (replacement bytes mode).drop stop.calls
  let p' := ((replacement bytes mode).take stop.calls).foldl
    (call created) p
  match calls with
  | .write bytes :: _ =>
      if stop.bytes = 0 then p'
      else p'.create created (bytes.take (stop.bytes - 1))
  | _ => p'

variable {created mode : Nat} {p : FilePair} {bytes : List UInt8}

/-- The old file or the new one. -/
theorem interrupted_target (stop : Interruption) :
    (p.interrupted created bytes mode stop).target = p.target
      ∨ (p.interrupted created bytes mode stop).target
        = some ⟨bytes, mode⟩ := by
  obtain ⟨calls, written⟩ := stop
  match calls with
  | 0 =>
      refine .inl ?_
      show (if written = 0 then p
        else p.create created (bytes.take (written - 1))).target = _
      split <;> rfl
  | 1 => exact .inl rfl
  | 2 => exact .inl rfl
  | _ + 3 =>
      refine .inr ?_
      unfold interrupted replacement
      simp [call, create]

end FilePair

end StaticNet
