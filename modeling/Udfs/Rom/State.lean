import Udfs.Lib.Byte
import Udfs.Lib.Prog

/-!
# The memory of the filing system ROM

The ROM is 6502 code working on fixed addresses.  The model keeps one field for each
location that outlives a routine, named after the source's label where it has one and
carrying its address in the comment; what a routine only uses as scratch is an argument
or a local of its definition.  The catalogue buffer and the channel buffers are read and
written through computed addresses, so they stay memory indexed by address.  A routine
that can leave through `BRK` is a program with an error exit, and keeps what it changed
before.
-/

namespace Udfs.Rom

/-- The literals of the index of a byte in a name or an entry go by this instance. -/
instance neZero_eight : NeZero 8 := ⟨Nat.succ_ne_zero 7⟩

/-- The errors a routine can leave with. -/
inductive Err where
  | badFilename
  | badDrive
  | badAttribute
  | catalogueFull
  | cantExtend
  | channel
  | diskChanged
  | diskFull
  | eof
  | fileExists
  | fileLocked
  | fileNotFound
  | fileOpen
  | fileReadOnly
  | syntaxError
  | tooManyFilesOpen
  | noDisk
  | diskReadOnly
  | blockTooBig
  | diskOverflow
  | diskNotValid
  | diskNotFormatted
  | noSidewaysRam
  | badRomSize
  | notEnabled
  | unrecognisedFormat
  | imageNotFound
deriving DecidableEq, Repr

/-- The error number the source puts after the `BRK`. -/
def Err.number : Err → Byte
  | badFilename => 0xcc
  | badDrive => 0xcd
  | badAttribute => 0xcf
  | catalogueFull => 0xbe
  | cantExtend => 0xbf
  | channel => 0xde
  | diskChanged => 0xc8
  | diskFull => 0xc6
  | eof => 0xdf
  | fileExists => 0xc4
  | fileLocked => 0xc3
  | fileNotFound => 0xd6
  | fileOpen => 0xc2
  | fileReadOnly => 0xc1
  | syntaxError => 0xdc
  | tooManyFilesOpen => 0xc0
  | noDisk => 0xc7
  | diskReadOnly => 0xc9
  | blockTooBig => 0xff
  | diskOverflow => 0xff
  | diskNotValid => 0xc7
  | diskNotFormatted => 0xc7
  | noSidewaysRam => 0xff
  | badRomSize => 0xff
  | notEnabled => 0xbd
  | unrecognisedFormat => 0xff
  | imageNotFound => 0xff

/-- The error text, with the words `err_bad`, `err_file` and `$8018` put before it. -/
def Err.text : Err → String
  | badFilename => "Bad filename"
  | badDrive => "Bad drive"
  | badAttribute => "Bad attribute"
  | catalogueFull => "Catalogue full"
  | cantExtend => "Can't extend"
  | channel => "Channel"
  | diskChanged => "Disk changed"
  | diskFull => "Disk full"
  | eof => "EOF"
  | fileExists => "File exists"
  | fileLocked => "File locked"
  | fileNotFound => "File not found"
  | fileOpen => "File open"
  | fileReadOnly => "File read only"
  | syntaxError => "Syntax: "
  | tooManyFilesOpen => "Too many files open"
  | noDisk => "No disk"
  | diskReadOnly => "Disk read only"
  | blockTooBig => "Block too big"
  | diskOverflow => "Disk overflow"
  | diskNotValid => "Disk number not valid"
  | diskNotFormatted => "Disk not formatted"
  | noSidewaysRam => "No Sideways RAM"
  | badRomSize => "Bad ROM size"
  | notEnabled => "Not enabled"
  | unrecognisedFormat => "Unrecognised format!"
  | imageNotFound => "Image not found!"

/-- A channel block: the 32 bytes at `$1100 + y`. -/
structure Chan where
  -- the name and, at index 7, the directory; `$1100`, `$1102` … `$110e`.  Bit 7 of index 6
  -- (`$110c`) marks the channel read-only, bit 7 of index 7 a locked file
  name : Fin 8 → Byte
  -- the rest of the catalogue entry; `$1101`, `$1103` … `$110f`
  info : Fin 8 → Byte
  -- PTR, `$1110` … `$1112`
  ptr : Num24
  -- the page of the channel's buffer, `$1113`
  page : Byte
  -- EXT, `$1114` … `$1116`
  ext : Num24
  -- `$1117`: drive, and bit 7 buffer valid, bit 6 buffer changed, bit 5 length changed,
  -- bit 4 end of file met
  flags : Byte
  -- the space the file has, `$1118` … `$111a`
  alloc : Num24
  -- the channel's bit in `$10c0`, `$111b`
  bit : Byte
  -- the sector the buffer was last used for, `$111c` and `$111d`
  secLo : Byte
  secHi : Byte

/-- The state the ROM works on. -/
structure State where
  -- memory by address: the channel buffers and the caller's memory
  mem : ℕ → Byte
  -- the catalogue buffer by address, `$0e00` … `$0fff`
  cat : ℕ → Byte
  -- `filename_param`, `$c7` … `$cd`, followed by `directory_param`, `$ce`
  filenameParam : Fin 8 → Byte
  -- `cur_drv`, and the drive whose catalogue is in the buffer, `cur_drv_cat`
  curDrv : Byte
  curDrvCat : Byte
  -- the current directory `$10ca` and drive `$10cb`
  defDir : Byte
  defDrv : Byte
  -- the entry the last search stopped at, `$10ce`, and the wildcard character, `$10cf`
  catEntry : Byte
  wildcard : Byte
  -- which channels are in use, `$10c0`
  inUse : Byte
  -- the bit and the offset of a free channel, `$10c1` and `$10c2`; `$10c2` is the current
  -- channel elsewhere, and `$10c4` its catalogue entry
  freeBit : Byte
  chanOff : Byte
  chanEntry : ℕ
  -- the channel blocks by offset
  chan : Byte → Chan
  -- the drive table by drive: the disk number (`$0d0c`, `$0d10`), its complement (`$0d14`,
  -- `$0d18`) and the write mark (`$0d1c`)
  diskLo : Byte → Byte
  diskHi : Byte → Byte
  diskLoInv : Byte → Byte
  diskHiInv : Byte → Byte
  diskMark : Byte → Byte
  -- the bytes behind the server, by address
  disk : ℕ → Byte
  -- the catalogues behind the server, and the one a drive's requests reach; the
  -- `mmc_read_cat` of this version asks for block 0 whatever the disk
  cats : ℕ → ℕ → Byte
  catNo : Byte → ℕ

/-- A routine of the ROM. -/
abbrev Routine (α : Type) : Type := Prog State Err α

/-! ## Parts of the state -/

namespace State

/-- `$0f05`: eight times the number of catalogue entries. -/
def count (s : State) : ℕ := (s.cat 0x0f05).toNat

/-- Put a channel block in place of another. -/
def setChan (s : State) (y : Byte) (c : Chan) : State := { s with chan := Function.update s.chan y c }

@[simp] lemma setChan_chan (s : State) (y : Byte) (c : Chan) : (s.setChan y c).chan y = c :=
  Function.update_self ..

lemma setChan_chan_of_ne (s : State) {y z : Byte} (c : Chan) (h : z ≠ y) :
    (s.setChan y c).chan z = s.chan z :=
  Function.update_of_ne h ..

end State

/-- The catalogue entries start at offsets that are multiples of eight; the first eight bytes of
an entry are its name and directory. -/
def entryName (c : ℕ → Byte) (y : ℕ) : Fin 8 → Byte := fun j => c (0x0e08 + y + j)

/-- The other eight bytes: load and execution address, length and start sector. -/
def entryInfo (c : ℕ → Byte) (y : ℕ) : Fin 8 → Byte := fun j => c (0x0f08 + y + j)

/-- Change a channel block. -/
def modifyChan (y : Byte) (f : Chan → Chan) : Routine Unit :=
  Prog.modify fun s => s.setChan y (f (s.chan y))

/-- `lsr4_and3`. -/
def lsr4And3 (a : Byte) : Byte := (a >>> 4) &&& 3

end Udfs.Rom
