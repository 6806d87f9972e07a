import Udfs.Link.Answering
import Udfs.Rom.Block

/-!
# From the image to memory

The two routines of the ROM that ask the server for something, on the wire: what they put into the
parameter block and the four bytes of the request, and what is in memory when `send_msg` returns.
-/

namespace Udfs.Rom

open Udfs.Server (DiskImage)
open Udfs.Link (Mem Machine callOf InUserMem Scratch wordAt)

/-! ## The calls -/

/-- Bytes stored one after another. -/
def poke (mem : Mem) (l : List (Word × Byte)) : Mem :=
  l.foldl (fun (m : Mem) p => Function.update m p.1 p.2) mem

/-- The memory with which `mmc_read_block` calls `send_msg`; `block_data` is at `$0d4c`. -/
def mmcReadBlock (mem : Mem) (b : BlockRegs) : Mem :=
  poke mem [(0x0d4d, b.sector.mid), (0x0d4c, b.sector.lo), (0x0d4e, b.bytesLastSector),
    (0x0d4f, if b.bytesLastSector = 0 then b.sectorCount else b.sectorCount - 1),
    (Link.Loc.channel, 0), (Link.Loc.param1, 0), (Link.Loc.param2, 0), (Link.Loc.sendLength + 1, 0), (Link.Loc.command, 1),
    (Link.Loc.sendLength, 4), (Link.Loc.sendAddr + 1, 0x0d), (Link.Loc.sendAddr, 0x4c),
    (Link.Loc.recvAddr + 1, hiByte b.dataPtr), (Link.Loc.recvAddr, loByte b.dataPtr)]

/-- The memory with which `mmc_read_cat` calls `send_msg`: two sectors from block 0 on to `$0e00`, where the four
bytes of the request are. -/
def mmcReadCatCall (mem : Mem) : Mem :=
  poke mem [(0x0e00, 0), (0x0e01, 0), (0x0e02, 0), (Link.Loc.channel, 0), (Link.Loc.param1, 0), (Link.Loc.param2, 0),
    (Link.Loc.sendLength + 1, 0), (Link.Loc.sendAddr, 0), (Link.Loc.recvAddr, 0), (Link.Loc.command, 1), (0x0e03, 2),
    (Link.Loc.sendLength, 4), (Link.Loc.sendAddr + 1, 0x0e), (Link.Loc.recvAddr + 1, 0x0e)]

/-- A request of four bytes that lie above the parameter block. -/
lemma callOf_four {x : Mem} {p : Word} (haddr : wordAt x Link.Loc.sendAddr = p) (hlo : x Link.Loc.sendLength = 4)
    (hhi : x (Link.Loc.sendLength + 1) = 0) (h : ∀ i < 4, ¬ Scratch (p + BitVec.ofNat 16 i)) :
    (callOf x).request.body = [x p, x (p + 1), x (p + 2), x (p + 3)] := by
  have hlen : (wordOf (x Link.Loc.sendLength) (x (Link.Loc.sendLength + 1))).toNat = 4 := by
    rw [hlo, hhi]
    decide
  have hbyte : ∀ i < 4, (callOf x).mem ((callOf x).block.sendAddr + BitVec.ofNat 16 i)
      = x (p + BitVec.ofNat 16 i) := by
    intro i hi
    have hsend : (callOf x).block.sendAddr = p := haddr
    rw [hsend]
    exact Link.callOf_mem (h i hi)
  have hbody : (callOf x).request.body = (List.range 4).map fun i => x (p + BitVec.ofNat 16 i) := by
    refine Eq.trans (congrArg (fun n => (List.range n).map _) hlen) ?_
    exact List.map_congr_left fun i hi => hbyte i (List.mem_range.1 hi)
  rw [hbody]
  simp [List.range, List.range.loop]

lemma mmcReadBlock_request (mem : Mem) (b : BlockRegs) :
    (callOf (mmcReadBlock mem b)).request.hdr = (readBlockRequest b).hdr ∧
      (callOf (mmcReadBlock mem b)).request.body = (readBlockRequest b).body :=
  ⟨rfl, callOf_four (p := 0x0d4c) rfl rfl rfl (by decide)⟩

lemma mmcReadBlock_recvAddr (mem : Mem) (b : BlockRegs) :
    wordAt (mmcReadBlock mem b) Link.Loc.recvAddr = b.dataPtr := wordOf_lo_hi b.dataPtr

lemma mmcReadCatCall_request (mem : Mem) :
    (callOf (mmcReadCatCall mem)).request.hdr = ⟨0, 1, 0, 0, wordOf 4 0⟩ ∧
      (callOf (mmcReadCatCall mem)).request.body = [0, 0, 0, 2] :=
  ⟨rfl, callOf_four (p := 0x0e00) rfl rfl rfl (by decide)⟩

/-! ## What comes back -/

/-- `send_msg`, called with the memory `mem`, has returned: `n` bytes of the image from `first` on are in memory
from `dest` on, and the rest of the memory is as it was, but for what `send_msg` counts in. -/
def Loads (img : DiskImage) (dest : Word) (first n : ℕ) (mem : Mem) (m : Machine) : Prop :=
  ∃ cpu, m.sys.cpu = some cpu ∧ cpu.next = none ∧ cpu.mem Link.Loc.channel = Server.RC_SUCCESS ∧
    (∀ i < n, cpu.mem (dest + BitVec.ofNat 16 i) = img.byteAt (first + i)) ∧
    (∀ p, ¬ Scratch p → (∀ i < n, p ≠ dest + BitVec.ofNat 16 i) → cpu.mem p = mem p) ∧ m.sys.link.AtRest

/-- The server answers a request for a block inside its image with the bytes of the image. -/
lemma serve_readBlock (img : DiskImage) (m : Server.Memory) (f : Server.Files) {q : Server.Request}
    {b0 b1 b2 b3 : Byte} (hc : q.hdr.channel = Server.DEFAULT) (hk : q.hdr.command = Server.READ_BLOCK)
    (hbody : q.body = [b0, b1, b2, b3])
    (hin : Server.InImage (256 * Server.blockNumber b0 b1) (Server.blockBytes b2 b3)) :
    ∃ out, Server.serve img m q f = .ok out ∧ out.1.response.returnCode = Server.RC_SUCCESS ∧
      out.1.response.body = (List.range (Server.blockBytes b2 b3)).map
        fun i => img.byteAt (256 * Server.blockNumber b0 b1 + i) := by
  have hresp := Server.respond_readBlock img m f hc hk
  simp only [hbody, List.getElem?_cons_zero, List.getElem?_cons_succ, Option.getD_some] at hresp
  rw [Server.blockResponse, if_pos hin, Server.respond] at hresp
  cases hserve : Server.serve img m q f with
  | error e =>
      rw [hserve] at hresp
      cases hresp
  | ok out =>
      rw [hserve] at hresp
      have hout : out.1.response = _ := Except.ok.inj hresp
      exact ⟨out, rfl, by rw [hout], by rw [hout]⟩

/-- What any call of a block request leads to. -/
lemma loads_of_request {img : DiskImage} {m m' : Machine}
    (h : Reachable Machine.Initial (Machine.Step img) m) {x : Mem} {b0 b1 b2 b3 : Byte}
    (hc : (callOf x).request.hdr.channel = Server.DEFAULT)
    (hk : (callOf x).request.hdr.command = Server.READ_BLOCK) (hbody : (callOf x).request.body = [b0, b1, b2, b3])
    (hin : Server.InImage (256 * Server.blockNumber b0 b1) (Server.blockBytes b2 b3))
    (hfit : InUserMem (wordAt x Link.Loc.recvAddr) (Server.blockBytes b2 b3))
    (hs : m.step img (.start x) = some m') :
    Inevitably (Machine.Moves img) (Loads img (wordAt x Link.Loc.recvAddr) (256 * Server.blockNumber b0 b1)
      (Server.blockBytes b2 b3) x) m' := by
  obtain ⟨out, hserve, hcode, hresp⟩ := serve_readBlock img m.memory m.files hc hk hbody hin
  have hlen : out.1.response.body.length = Server.blockBytes b2 b3 := by
    rw [hresp, List.length_map, List.length_range]
  refine (Machine.call_answered h hserve (hlen ▸ hfit) hs).mono ?_
  rintro t ⟨⟨cpu, hcpu, hnext, hstored⟩, -, -, hrest⟩
  refine ⟨cpu, hcpu, hnext, hstored.channel.trans hcode, fun i hi => ?_, fun p hp hout => ?_, hrest⟩
  · rw [hstored.body i (by omega)]
    simp only [hresp, List.getElem_map, List.getElem_range]
  · exact hstored.frame p hp fun i hi => hout i (by omega)

/-- **Sectors come from the image to memory.**  Whatever calls were made before, and in whatever order the
BBC, the AVR and the server take their steps, as long as those of the BBC are in time and the responses fit: on
disk 0, every request that the checks let through and whose destination is the user's memory ends with the
bytes of the image from its first sector on there; and the catalogue's two sectors always come to `$0e00`. -/
theorem sectors_load {img : DiskImage} {m m' : Machine}
    (h : Reachable Machine.Initial (Machine.Step img) m) (mem : Mem) :
    (∀ (r : BlockReq) (s s' : State) (b : BlockRegs), (blockSetup r).run s = .ok b s' →
      s.diskNumber = 0 → InUserMem (BitVec.ofNat 16 r.dest) r.byteLength →
        m.step img (.start (mmcReadBlock mem b)) = some m' →
          Inevitably (Machine.Moves img) (Loads img (BitVec.ofNat 16 r.dest) (256 * r.start) r.byteLength
            (mmcReadBlock mem b)) m') ∧
    (m.step img (.start (mmcReadCatCall mem)) = some m' →
      Inevitably (Machine.Moves img) (Loads img 0x0e00 0 512 (mmcReadCatCall mem)) m') := by
  constructor
  · intro r s s' b hpass hdisk hdest hs
    obtain ⟨rfl, hb⟩ := (Prog.wp_of_ok hpass).1 (blockSetup_spec r s)
    have hsector := hb.sector_val
    have hinside := hb.inside
    have hbytes := blockBytes_readBlockRequest hb
    have hblock : Server.blockNumber b.sector.lo b.sector.mid = r.start := by
      rw [blockNumber_sector, hsector, hdisk]
      omega
    have hptr : wordAt (mmcReadBlock mem b) Link.Loc.recvAddr = BitVec.ofNat 16 r.dest := by
      rw [mmcReadBlock_recvAddr, ← hb.dataPtr_eq, BitVec.ofNat_toNat, BitVec.setWidth_eq]
    have hin : Server.InImage (256 * r.start) r.byteLength := by
      simp only [Server.InImage, Server.imageSize, sectorsOf] at hinside ⊢
      omega
    obtain ⟨hhdr, hbody⟩ := mmcReadBlock_request mem b
    have hload := loads_of_request h (x := mmcReadBlock mem b) (by rw [hhdr]; rfl) (by rw [hhdr]; rfl) hbody
      (by rw [hblock, hbytes]; exact hin) (by rw [hptr, hbytes]; exact hdest) hs
    rw [hblock, hbytes, hptr] at hload
    exact hload
  · intro hs
    obtain ⟨hhdr, hbody⟩ := mmcReadCatCall_request mem
    have hfit : InUserMem 0x0e00 512 := by decide +kernel
    exact loads_of_request h (x := mmcReadCatCall mem) (by rw [hhdr]; rfl) (by rw [hhdr]; rfl) hbody
      (by decide) hfit hs

/-- The machines as they are switched on. -/
def switchedOn : Machine := ⟨⟨Link.switchedOn, none⟩, Server.filled 0, ⟨true, [], none⟩⟩

/-- The first call after that asks for sector 2 of disk 0. -/
theorem sectorTwo_loads : ∃ b m', (blockSetup sectorTwo).run (stateWithDisk 0 0) = .ok b (stateWithDisk 0 0) ∧
    switchedOn.step sevens (.start (mmcReadBlock (fun _ => 0) b)) = some m' ∧
      Inevitably (Machine.Moves sevens) (Loads sevens (BitVec.ofNat 16 sectorTwo.dest)
        (256 * sectorTwo.start) sectorTwo.byteLength (mmcReadBlock (fun _ => 0) b)) m' := by
  have hdisk : (stateWithDisk 0 0).HasDisk (stateWithDisk 0 0).curDrv := Nat.zero_lt_succ 127
  obtain ⟨b, hrun, -⟩ := blockSetup_run hdisk (r := sectorTwo) (by decide) (by decide) (by decide)
  have hstart : ∃ m', switchedOn.step sevens (.start (mmcReadBlock (fun _ => 0) b)) = some m' := ⟨_, rfl⟩
  obtain ⟨m', hs⟩ := hstart
  have hreach : Reachable Machine.Initial (Machine.Step sevens) switchedOn := .start ⟨⟨_, _, rfl⟩, rfl⟩
  exact ⟨b, m', hrun, hs, (sectors_load hreach _).1 sectorTwo _ _ b hrun rfl (by decide +kernel) hs⟩

end Udfs.Rom
