import Udfs.Server.Survival

/-!
# What a response announces

Every command counts the bytes it puts into the response buffer, and the count goes into the
sixteen bits of the response header.  A block is at most 65535 bytes long and the other
responses are short, so the two agree; but `RW_FILE` may read 65536 bytes, and then announces
none.
-/

namespace Udfs.Server

/-- Whatever the response buffer held, the call puts the bytes of `l` at its front and leaves the
rest of it alone. -/
def Puts (img : DiskImage) (h : ReqHeader) (m : Memory) (f : Files) (l : List Byte) : Prop :=
  l.length ≤ bufferSize ∧ ∀ b : Buffer,
    (executeRequest img h { m with rspBuffer := b } f).map (fun p => p.1.rspBuffer) = .ok (b.overlay l)

/-! ## Overlaid buffers -/

namespace Buffer

lemma overlay_of_lt (b : Buffer) {l : List Byte} {j : Fin bufferSize} (h : (j : ℕ) < l.length) :
    b.overlay l j = l[(j : ℕ)] := by
  rw [overlay, List.getElem?_eq_getElem h, Option.getD_some]

lemma overlay_of_le (b : Buffer) {l : List Byte} {j : Fin bufferSize} (h : l.length ≤ j) :
    b.overlay l j = b j := by
  rw [overlay, List.getElem?_eq_none h, Option.getD_none]

/-- The announced part of an overlaid buffer. -/
lemma take_overlay (b : Buffer) {l : List Byte} {n : ℕ} (hl : l.length = n) (hn : n ≤ bufferSize) :
    (b.overlay l).take n = l := by
  refine List.ext_getElem (by rw [Buffer.take, List.length_map, List.length_range, hl]) fun i h1 h2 => ?_
  have hi : i < bufferSize := by omega
  simp only [Buffer.take, List.getElem_map, List.getElem_range, dif_pos hi]
  exact b.overlay_of_lt (j := ⟨i, hi⟩) h2

end Buffer

/-- The bytes that are put are determined. -/
lemma Puts.unique {img : DiskImage} {h : ReqHeader} {m : Memory} {f : Files} {l l' : List Byte}
    (hl : Puts img h m f l) (hl' : Puts img h m f l') : l' = l := by
  have hsame : ∀ b : Buffer, b.overlay l' = b.overlay l := fun b =>
    Except.ok.inj ((hl'.2 b).symm.trans (hl.2 b))
  have hle : ∀ l₁ l₂ : List Byte, l₂.length ≤ bufferSize → (∀ b : Buffer, b.overlay l₁ = b.overlay l₂) →
      l₂.length ≤ l₁.length := by
    intro l₁ l₂ h₂ he
    by_contra hlt
    have hi : l₁.length < bufferSize := by omega
    -- two fillings of the buffer agree at the last of the longer list's bytes
    have hone : ∀ v : Byte, v = l₂[l₁.length] := by
      intro v
      have hj := congrFun (he fun _ => v) ⟨l₁.length, hi⟩
      rw [Buffer.overlay_of_le _ le_rfl, Buffer.overlay_of_lt _ (by simpa using hlt)] at hj
      exact hj
    exact absurd ((hone 0).trans (hone 1).symm) (by decide)
  have hlen : l'.length = l.length :=
    le_antisymm (hle l l' hl'.1 fun b => (hsame b).symm) (hle l' l hl.1 hsame)
  refine List.ext_getElem hlen fun i h1 h2 => ?_
  have hi : i < bufferSize := h2.trans_le hl.1
  have hj := congrFun (hsame fun _ => 0) ⟨i, hi⟩
  rwa [Buffer.overlay_of_lt _ (by exact h1), Buffer.overlay_of_lt _ (by exact h2)] at hj

/-! ## The commands -/

lemma execCalc_run {h : ReqHeader} (h0 : h.param2 ≠ 0) (m : Memory) :
    execCalc h m = .ok { m with
      rspBuffer := m.rspBuffer.overlay [h.param1 + h.param2, h.param1 - h.param2,
        h.param1 * h.param2, h.param1 / h.param2]
      rspHeader := ⟨RC_SUCCESS, 4⟩ } := by
  have h0' : (0 : ℕ) < bufferSize := by decide
  have h1 : (1 : ℕ) < bufferSize := by decide
  have h2 : (2 : ℕ) < bufferSize := by decide
  have h3 : (3 : ℕ) < bufferSize := by decide
  have hstore := m.rspBuffer.store_zero (l := [h.param1 + h.param2, h.param1 - h.param2,
    h.param1 * h.param2, h.param1 / h.param2]) (by simp [bufferSize])
  simp only [Buffer.store, bind, Except.bind, Buffer.write_ok _ h0', Buffer.write_ok _ h1,
    Buffer.write_ok _ h2, Buffer.write_ok _ h3, Nat.zero_add, Nat.reduceAdd] at hstore
  simp only [execCalc, bind, Except.bind, Buffer.write_ok _ h0', Buffer.write_ok _ h1,
    Buffer.write_ok _ h2, Buffer.write_ok _ h3, if_neg h0]
  rw [Except.ok.inj hstore]

/-- The bytes that `READ_BLOCK` copies. -/
def blockOf (img : DiskImage) (b : Buffer) : List Byte :=
  (List.range (blockBytes (b ⟨2, two_lt_bufferSize⟩) (b ⟨3, three_lt_bufferSize⟩))).map fun i =>
    img.byteAt (256 * blockNumber (b ⟨0, zero_lt_bufferSize⟩) (b ⟨1, one_lt_bufferSize⟩) + i)

lemma blockOf_length (img : DiskImage) (b : Buffer) :
    (blockOf img b).length = blockBytes (b ⟨2, two_lt_bufferSize⟩) (b ⟨3, three_lt_bufferSize⟩) := by
  rw [blockOf, List.length_map, List.length_range]

lemma execReadBlock_run (img : DiskImage) {m : Memory} (hin : m.reqBuffer.BlockInImage) :
    execReadBlock img m = .ok { m with
      rspBuffer := m.rspBuffer.overlay (blockOf img m.reqBuffer)
      rspHeader := ⟨RC_SUCCESS, BitVec.ofNat 16 (blockOf img m.reqBuffer).length⟩ } := by
  have hlen := blockOf_length img m.reqBuffer
  set b0 := m.reqBuffer ⟨0, by decide⟩ with hb0
  set b1 := m.reqBuffer ⟨1, by decide⟩ with hb1
  set b2 := m.reqBuffer ⟨2, by decide⟩ with hb2
  set b3 := m.reqBuffer ⟨3, by decide⟩ with hb3
  have hn := blockBytes_lt b2 b3
  have hcopy : copyBlock img (256 * blockNumber b0 b1) 0 m.rspBuffer (blockBytes b2 b3)
      = .ok (m.rspBuffer.overlay (blockOf img m.reqBuffer)) := by
    rcases (show InImage (256 * blockNumber b0 b1) (blockBytes b2 b3) from hin) with h0 | hle
    · have hnil : blockOf img m.reqBuffer = [] := List.eq_nil_of_length_eq_zero (hlen.trans h0)
      rw [h0, hnil]
      rfl
    · obtain ⟨dst, hdst, hval⟩ := copyBlock_ok img (256 * blockNumber b0 b1) (blockBytes b2 b3) 0
        m.rspBuffer (by omega) (by simp only [bufferSize]; omega)
      rw [hdst]
      refine congrArg Except.ok (funext fun j => ?_)
      rw [hval j]
      split_ifs with hj
      · rw [Buffer.overlay_of_lt _ (by omega)]
        simp only [blockOf, List.getElem_map, List.getElem_range]
        rfl
      · rw [Buffer.overlay_of_le _ (by omega)]
  have hread : execReadBlock img m = (copyBlock img (256 * blockNumber b0 b1) 0 m.rspBuffer
      (blockBytes b2 b3)).bind fun dst => .ok { m with
        rspBuffer := dst, rspHeader := ⟨RC_SUCCESS, BitVec.ofNat 16 (blockBytes b2 b3)⟩ } := rfl
  rw [hread, hcopy, hlen]
  rfl

lemma execRwFile_run (h : ReqHeader) (m : Memory) {f : Files} {data : List Byte}
    (hopen : f.fromBbcOpens = true) (hdata : f.toBbc = some data) :
    execRwFile h m f = .ok ({ m with
      rspBuffer := m.rspBuffer.overlay (data.take bufferSize)
      rspHeader := ⟨RC_SUCCESS, BitVec.ofNat 16 (data.take bufferSize).length⟩ },
        { f with fromBbc := m.reqBuffer.take h.length.toNat }) := by
  have hlen : (data.take bufferSize).length ≤ bufferSize := by
    rw [List.length_take]
    exact min_le_left _ _
  rw [execRwFile, if_pos hopen, hdata]
  simp only [Buffer.store_zero _ hlen]
  rfl

/-! ## Counts and headers -/

/-- The file for the BBC is too long for its length to be announced. -/
def Oversized (h : ReqHeader) (f : Files) : Prop :=
  h.channel = DEFAULT ∧ h.command = RW_FILE ∧ ∃ data, f.toBbc = some data ∧ bufferSize ≤ data.length

/-- What is asked of the response of `RW_FILE`: the file up to 65536 bytes, or an error code. -/
def GivesFile (h : ReqHeader) (f : Files) (r : Response) : Prop :=
  h.channel = DEFAULT → h.command = RW_FILE → ∀ data, f.toBbc = some data →
    r.body = data.take bufferSize ∨ r.returnCode ≠ RC_SUCCESS

/-- A call that puts `l` into the buffer and leaves a header with some length: the two agree, or do
not. -/
lemma announced {img : DiskImage} {h : ReqHeader} {m m' : Memory} {f f' : Files} (l : List Byte)
    (rc : Byte) (n : Word) (g : Files) (hl : l.length ≤ bufferSize)
    (hall : ∀ b : Buffer, executeRequest img h { m with rspBuffer := b } f
      = .ok ({ m with rspBuffer := b.overlay l, rspHeader := ⟨rc, n⟩ }, g))
    (hrun : executeRequest img h m f = .ok (m', f')) :
    (∀ l', Puts img h m f l' ↔ l' = l) ∧
      m' = { m with rspBuffer := m.rspBuffer.overlay l, rspHeader := ⟨rc, n⟩ } := by
  have hputs : Puts img h m f l := ⟨hl, fun b => by rw [hall b]; rfl⟩
  refine ⟨fun l' => ⟨hputs.unique, fun he => he ▸ hputs⟩, ?_⟩
  exact (congrArg Prod.fst (Except.ok.inj ((hall m.rspBuffer).symm.trans hrun))).symm

lemma toNat_ofNat_of_lt {n : ℕ} (h : n < 65536) : (BitVec.ofNat 16 n).toNat = n := by
  rw [BitVec.toNat_ofNat, Nat.mod_eq_of_lt h]

/-- **A response announces what it carries unless the file is too long.**  For every request that
is executed to its end and all contents of the files, there is just one list of bytes that the
call puts into the response buffer.  Its length is the one in the response header, and an
`RW_FILE` gives the first 65536 bytes of the file, exactly unless the request is an `RW_FILE`
and the file has 65536 bytes or more. -/
theorem executeRequest_announces_iff (img : DiskImage) (h : ReqHeader) (m : Memory) (f : Files)
    {m' : Memory} {f' : Files} (hrun : executeRequest img h m f = .ok (m', f')) :
    ∃ l, (∀ l', Puts img h m f l' ↔ l' = l) ∧
      (l.length = m'.rspHeader.length.toNat ∧ GivesFile h f m'.response ↔ ¬ Oversized h f) := by
  have hsurvives : Survives (executeRequest img h m f) := ⟨_, hrun⟩
  rw [executeRequest_survives_iff] at hsurvives
  have hrw : RW_FILE ≠ CALC ∧ RW_FILE ≠ READ_BLOCK := by decide
  by_cases hch : h.channel = DEFAULT
  swap
  · obtain ⟨hputs, rfl⟩ := announced [] _ _ _ (Nat.zero_le _) (fun b => if_neg hch) hrun
    exact ⟨[], hputs, iff_of_true ⟨rfl, fun hc => absurd hc hch⟩ fun ho => hch ho.1⟩
  have hh := hsurvives hch
  by_cases h0 : h.command = CALC
  · have hno : h.command ≠ RW_FILE := by rw [h0]; exact hrw.1.symm
    obtain ⟨hputs, rfl⟩ := announced [h.param1 + h.param2, h.param1 - h.param2,
        h.param1 * h.param2, h.param1 / h.param2] RC_SUCCESS 4 f (by simp [bufferSize]) (fun b => by
      rw [executeRequest, if_pos hch, if_pos h0, execCalc_run (hh.ofCalc h0)]
      rfl) hrun
    exact ⟨_, hputs, iff_of_true ⟨rfl, fun _ hk => absurd hk hno⟩ fun ho => hno ho.2.1⟩
  by_cases h1 : h.command = READ_BLOCK
  · have hno : h.command ≠ RW_FILE := by rw [h1]; exact hrw.2.symm
    have hlen : (blockOf img m.reqBuffer).length < 65536 := by
      rw [blockOf_length]
      exact blockBytes_lt _ _
    obtain ⟨hputs, rfl⟩ := announced (blockOf img m.reqBuffer) RC_SUCCESS
        (BitVec.ofNat 16 (blockOf img m.reqBuffer).length) f hlen.le (fun b => by
      rw [executeRequest, if_pos hch, if_neg h0, if_pos h1,
        execReadBlock_run img (m := { m with rspBuffer := b }) (hh.ofReadBlock h1)]
      rfl) hrun
    refine ⟨_, hputs, iff_of_true ⟨?_, fun _ hk => absurd hk hno⟩ fun ho => hno ho.2.1⟩
    exact (toNat_ofNat_of_lt hlen).symm
  by_cases h2 : h.command = RW_FILE
  swap
  · obtain ⟨hputs, rfl⟩ := announced [] RC_UNRECOGNISED_COMMAND 0 f (Nat.zero_le _) (fun b => by
      rw [executeRequest, if_pos hch, if_neg h0, if_neg h1, if_neg h2]
      rfl) hrun
    exact ⟨[], hputs, iff_of_true ⟨rfl, fun _ hk => absurd hk h2⟩ fun ho => h2 ho.2.1⟩
  obtain ⟨hopen, hsome⟩ := hh.ofRwFile h2
  obtain ⟨data, hdata⟩ := Option.ne_none_iff_exists'.1 hsome
  have hle : (data.take bufferSize).length ≤ bufferSize := List.length_take_le ..
  obtain ⟨hputs, rfl⟩ := announced (data.take bufferSize) RC_SUCCESS
      (BitVec.ofNat 16 (data.take bufferSize).length)
      { f with fromBbc := m.reqBuffer.take h.length.toNat } hle (fun b => by
    rw [executeRequest, if_pos hch, if_neg h0, if_neg h1, if_pos h2,
      execRwFile_run h { m with rspBuffer := b } hopen hdata]) hrun
  refine ⟨_, hputs, ?_⟩
  have hover : Oversized h f ↔ bufferSize ≤ data.length := by
    refine ⟨?_, fun hlong => ⟨hch, h2, data, hdata, hlong⟩⟩
    rintro ⟨-, -, data', hdata', hlong⟩
    obtain rfl : data' = data := Option.some.inj (hdata'.symm.trans hdata)
    exact hlong
  rw [hover, not_le]
  have hmin : (data.take bufferSize).length = min bufferSize data.length := List.length_take
  constructor
  · rintro ⟨hlen, -⟩
    by_contra hlong
    -- a whole buffer is announced as no bytes
    have hfull : (data.take bufferSize).length = bufferSize := by omega
    have hzero : (BitVec.ofNat 16 bufferSize).toNat = 0 := by decide
    rw [hfull, hzero] at hlen
    exact absurd hlen (by decide)
  · intro hshort
    have hlen : (data.take bufferSize).length < 65536 := by
      have : bufferSize = 65536 := rfl
      omega
    have hnat := toNat_ofNat_of_lt hlen
    refine ⟨hnat.symm, fun _ _ data' hdata' => Or.inl ?_⟩
    obtain rfl : data' = data := Option.some.inj (hdata'.symm.trans hdata)
    exact Buffer.take_overlay _ hnat.symm (by rw [hnat]; exact hle)

/-- An `RW_FILE` without a body. -/
def rwFileHeader : ReqHeader := ⟨DEFAULT, RW_FILE, 0, 0, 0⟩

/-- A file of three bytes is announced and given. -/
theorem threeBytes_announced : ∃ m' f',
    executeRequest (fun _ => 0) rwFileHeader (filled 0) ⟨true, [], some [1, 2, 3]⟩ = .ok (m', f') ∧
      ∃ l, (∀ l', Puts (fun _ => 0) rwFileHeader (filled 0) ⟨true, [], some [1, 2, 3]⟩ l' ↔ l' = l) ∧
        l.length = m'.rspHeader.length.toNat ∧
        GivesFile rwFileHeader ⟨true, [], some [1, 2, 3]⟩ m'.response := by
  have hrun := execRwFile_run rwFileHeader (filled 0) (f := ⟨true, [], some [1, 2, 3]⟩) rfl rfl
  obtain ⟨l, hputs, hiff⟩ := executeRequest_announces_iff (fun _ => 0) rwFileHeader (filled 0)
    ⟨true, [], some [1, 2, 3]⟩ hrun
  refine ⟨_, _, hrun, l, hputs, hiff.2 ?_⟩
  rintro ⟨-, -, data, hdata, hlong⟩
  obtain rfl : [1, 2, 3] = data := Option.some.inj hdata
  exact absurd hlong (by decide)

/-- A file that fills the buffer is put there, and none of it is announced. -/
lemma rwFile_unannounced (img : DiskImage) (m : Memory) {data : List Byte} (hlen : data.length = bufferSize) :
    ∃ m' f', executeRequest img rwFileHeader m ⟨true, [], some data⟩ = .ok (m', f') ∧
      Puts img rwFileHeader m ⟨true, [], some data⟩ data ∧ m'.rspHeader.length = 0 ∧
      m'.response.body = [] ∧ m'.response.returnCode = RC_SUCCESS := by
  have hall := fun b : Buffer => execRwFile_run rwFileHeader { m with rspBuffer := b }
    (f := ⟨true, [], some data⟩) rfl rfl
  rw [List.take_of_length_le hlen.le, hlen] at hall
  have hzero : BitVec.ofNat 16 bufferSize = 0 := by decide
  rw [hzero] at hall
  exact ⟨_, _, hall m.rspBuffer, ⟨hlen.le, fun b => congrArg (Except.map fun p => p.1.rspBuffer) (hall b)⟩,
    rfl, rfl, rfl⟩

/-- A file of 65536 bytes goes into the buffer, and none of them is announced. -/
theorem wholeBuffer_not_announced : ∃ data m' f',
    executeRequest (fun _ => 0) rwFileHeader (filled 0) ⟨true, [], some data⟩ = .ok (m', f') ∧
      Puts (fun _ => 0) rwFileHeader (filled 0) ⟨true, [], some data⟩ data ∧ data.length = 65536 ∧
      m'.rspHeader.length = 0 ∧ m'.response.body = [] ∧ m'.response.returnCode = RC_SUCCESS := by
  have hlen : (List.replicate 65536 (7 : Byte)).length = bufferSize := List.length_replicate ..
  obtain ⟨m', f', hrun, hputs, hrest⟩ := rwFile_unannounced (fun _ => 0) (filled 0) hlen
  exact ⟨_, m', f', hrun, hputs, hlen, hrest⟩

end Udfs.Server
