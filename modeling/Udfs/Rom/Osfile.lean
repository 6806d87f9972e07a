import Udfs.Rom.Destroy
import Udfs.Rom.Expand

/-!
# OSFILE

One call works on a whole file: it saves or loads its bytes, reads or changes what the catalogue
says about it, or deletes it.  The caller's control block of eighteen bytes gives the name and the
addresses, and takes the catalogue's information when the call returns.
-/

namespace Udfs.Rom

/-! ## The control block -/

/-- `$80da`: the control block at `p` as it is copied to `$be` … `$c5` and `$1074` … `$107b`. -/
def controlBlock (mem : ℕ → Byte) (p : ℕ) : FileBlock where
  be := mem (p + 0x02)
  bf := mem (p + 0x03)
  w1074 := mem (p + 0x04)
  c0 := mem (p + 0x06)
  c1 := mem (p + 0x07)
  w1076 := mem (p + 0x08)
  c2 := mem (p + 0x0a)
  c3 := mem (p + 0x0b)
  w1078 := mem (p + 0x0c)
  c4 := mem (p + 0x0e)
  c5 := mem (p + 0x0f)
  w107a := mem (p + 0x10)

/-- `$837e` with `temp` at the control block. -/
def expandAt (c : ℕ → Byte) (y p : ℕ) (mem : ℕ → Byte) : ℕ → Byte := fun a =>
  if p ≤ a then expandEntry c y (fun o => mem (p + o)) (a - p) else mem a

/-- The state with the entry at `y` in the control block. -/
def State.told (s : State) (y p : ℕ) : State := { s with mem := expandAt s.cat y p s.mem }

/-- The file block after `$8961`: the start of the data has gone to `$be`, and `$c4` and `$c5` hold what went
into the entry. -/
def saveRequest (b : FileBlock) (c : ℕ → Byte) (y : ℕ) : BlockReq where
  be := b.c2
  bf := b.c3
  c2 := b.length.lo
  c3 := b.length.mid
  c4 := c (0x0f0e + y)
  c5 := c (0x0f0f + y)

end Udfs.Rom
