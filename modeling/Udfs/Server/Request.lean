import Udfs.Lib.Byte

/-!
# The server: executing one request

The host program keeps a disk image, a request buffer and a response buffer for as
long as it runs, and answers one request after another.  This file embeds
`executeRequest` and one turn of the loop of `main` (`server/main.c`).  The buffers
are carried from one turn to the next exactly as the C arrays are: reading a body
overwrites the front of `reqBuffer` and leaves the rest as it was.

What C leaves undefined is a `Fault`: the turn then has no outcome.  The `printf`
calls are left out.
-/

namespace Udfs.Server

/-- The six-byte request header. -/
structure ReqHeader where
  channel : Byte
  command : Byte
  param1 : Byte
  param2 : Byte
  length : Word
deriving DecidableEq, Repr

/-- The response header; its padding is never read. -/
structure RspHeader where
  returnCode : Byte
  length : Word
deriving DecidableEq, Repr

/-- `union { struct ReqHeader s; uint8 bytes[6]; }`, little-endian. -/
def ReqHeader.bytes (h : ReqHeader) : List Byte :=
  [h.channel, h.command, h.param1, h.param2, loByte h.length, hiByte h.length]

/-- The three bytes of the response header that are sent. -/
def RspHeader.bytes (h : RspHeader) : List Byte :=
  [h.returnCode, loByte h.length, hiByte h.length]

def DEFAULT : Byte := 0

def CALC : Byte := 0
def READ_BLOCK : Byte := 1
def RW_FILE : Byte := 2

def RC_SUCCESS : Byte := 0
def RC_UNRECOGNISED_COMMAND : Byte := 1
def RC_UNRECOGNISED_CHANNEL : Byte := 2

/-- The size of `diskImage`. -/
def imageSize : ℕ := 200 * 1024

/-- The size of `reqBuffer` and of `rspBuffer`. -/
def bufferSize : ℕ := 65536

/-- Behaviour that C leaves undefined: an integer division by zero, an access outside
an array, and a null `FILE` pointer. -/
inductive Fault where
  | divisionByZero
  | outOfBounds
  | nullFile
deriving DecidableEq, Repr

/-- The disk image the server was started with. -/
abbrev DiskImage := Fin imageSize → Byte

/-- One of the two buffers of `main`. -/
abbrev Buffer := Fin bufferSize → Byte

/-- `diskImage[i]`. -/
def DiskImage.read (img : DiskImage) (i : ℕ) : Except Fault Byte :=
  if h : i < imageSize then .ok (img ⟨i, h⟩) else .error .outOfBounds

/-- `buffer[i]`. -/
def Buffer.read (b : Buffer) (i : ℕ) : Except Fault Byte :=
  if h : i < bufferSize then .ok (b ⟨i, h⟩) else .error .outOfBounds

/-- `buffer[i] = v`. -/
def Buffer.write (b : Buffer) (i : ℕ) (v : Byte) : Except Fault Buffer :=
  if h : i < bufferSize then .ok (Function.update b ⟨i, h⟩ v) else .error .outOfBounds

/-- The first `n` bytes of a buffer. -/
def Buffer.take (b : Buffer) (n : ℕ) : List Byte :=
  (List.range n).map fun i => if h : i < bufferSize then b ⟨i, h⟩ else 0

/-- A buffer with the bytes of `l` stored from index `i` on. -/
def Buffer.store (b : Buffer) (i : ℕ) : List Byte → Except Fault Buffer
  | [] => .ok b
  | v :: l => do
    let b' ← b.write i v
    b'.store (i + 1) l

/-- The two files of `RW_FILE` as the server finds them: `from_bbc.dat` (whether it
can be opened, and what it holds) and `to_bbc.dat`. -/
structure Files where
  fromBbcOpens : Bool
  fromBbc : List Byte
  toBbc : Option (List Byte)

/-- What survives from one turn of the main loop to the next. -/
structure Memory where
  reqBuffer : Buffer
  rspHeader : RspHeader
  rspBuffer : Buffer

/-- `for (i = 0; i < numBytes; i++) *dst++ = *src++;` with `n` bytes still to go. -/
def copyBlock (img : DiskImage) (src i : ℕ) (dst : Buffer) : ℕ → Except Fault Buffer
  | 0 => .ok dst
  | n + 1 => do
    let v ← img.read (src + i)
    let dst' ← dst.write i v
    copyBlock img src (i + 1) dst' n

/-- `CALC`: sum, difference, product and quotient of the parameters. -/
def execCalc (h : ReqHeader) (m : Memory) : Except Fault Memory := do
  let b ← m.rspBuffer.write 0 (h.param1 + h.param2)
  let b ← b.write 1 (h.param1 - h.param2)
  let b ← b.write 2 (h.param1 * h.param2)
  if h.param2 = 0 then .error .divisionByZero
  else do
    let b ← b.write 3 (h.param1 / h.param2)
    .ok { m with rspBuffer := b, rspHeader := ⟨RC_SUCCESS, 4⟩ }

/-- The block number in a `READ_BLOCK` body. -/
def blockNumber (b0 b1 : Byte) : ℕ := 256 * (b1 &&& 0x03).toNat + b0.toNat

/-- The byte count in a `READ_BLOCK` body. -/
def blockBytes (b2 b3 : Byte) : ℕ := 256 * b3.toNat + b2.toNat

/-- `READ_BLOCK`: the bytes of the disk image from a block on. -/
def execReadBlock (img : DiskImage) (m : Memory) : Except Fault Memory := do
  let b1 ← m.reqBuffer.read 1
  let b0 ← m.reqBuffer.read 0
  let b3 ← m.reqBuffer.read 3
  let b2 ← m.reqBuffer.read 2
  let numBytes := blockBytes b2 b3
  let dst ← copyBlock img (256 * blockNumber b0 b1) 0 m.rspBuffer numBytes
  .ok { m with rspBuffer := dst, rspHeader := ⟨RC_SUCCESS, BitVec.ofNat 16 numBytes⟩ }

/-- `RW_FILE`: the body goes to `from_bbc.dat`, the response comes from `to_bbc.dat`. -/
def execRwFile (h : ReqHeader) (m : Memory) (f : Files) : Except Fault (Memory × Files) :=
  if f.fromBbcOpens then
    match f.toBbc with
    | none => .error .nullFile
    | some data => do
      let b ← m.rspBuffer.store 0 (data.take bufferSize)
      let fileLen := (data.take bufferSize).length
      .ok ({ m with rspBuffer := b, rspHeader := ⟨RC_SUCCESS, BitVec.ofNat 16 fileLen⟩ },
        { f with fromBbc := m.reqBuffer.take h.length.toNat })
  else .error .nullFile

/-- `executeRequest`. -/
def executeRequest (img : DiskImage) (h : ReqHeader) (m : Memory) (f : Files) :
    Except Fault (Memory × Files) :=
  if h.channel = DEFAULT then
    if h.command = CALC then (execCalc h m).map (·, f)
    else if h.command = READ_BLOCK then (execReadBlock img m).map (·, f)
    else if h.command = RW_FILE then execRwFile h m f
    else .ok ({ m with rspHeader := ⟨RC_UNRECOGNISED_COMMAND, 0⟩ }, f)
  else .ok ({ m with rspHeader := ⟨RC_UNRECOGNISED_CHANNEL, 0⟩ }, f)

/-- A request delivered as announced: as many body bytes as the header says. -/
structure Request where
  hdr : ReqHeader
  body : List Byte
  body_length : body.length = hdr.length.toNat

/-- A response: its body fits the sixteen-bit length field. -/
structure Response where
  returnCode : Byte
  body : List Byte
  body_lt : body.length < 65536

/-- One turn of the main loop up to `executeRequest`: the body is read into the front
of `reqBuffer`, then the request is executed. -/
def serve (img : DiskImage) (m : Memory) (r : Request) (f : Files) :
    Except Fault (Memory × Files) := do
  let b ← m.reqBuffer.store 0 r.body
  executeRequest img r.hdr { m with reqBuffer := b } f

/-- What the turn then sends: the return code and the announced part of `rspBuffer`. -/
def Memory.response (m : Memory) : Response where
  returnCode := m.rspHeader.returnCode
  body := m.rspBuffer.take m.rspHeader.length.toNat
  body_lt := by simpa [Buffer.take] using m.rspHeader.length.isLt

/-- The response to a request, when the turn has an outcome. -/
def respond (img : DiskImage) (m : Memory) (r : Request) (f : Files) : Except Fault Response :=
  (serve img m r f).map fun p => p.1.response

end Udfs.Server
