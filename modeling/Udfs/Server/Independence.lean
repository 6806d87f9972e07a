import Udfs.Server.Request

/-!
# What a response depends on

`reqBuffer` is carried from one request to the next, and `READ_BLOCK` reads its first
four bytes whatever length the header announced.  This file computes the response of
`READ_BLOCK` from those four bytes, and from it decides for which requests the
response is a function of the request alone: exactly those whose own body covers the
four bytes.

A block that lies behind the image is read all the same: what C leaves undefined there does
not keep the server from announcing the length it was asked for.  So for this question the
image is the front of a memory, and a read behind it gives what stands there.
-/

namespace Udfs.Server

/-! ## Buffers -/

lemma Buffer.write_ok (b : Buffer) {i : ℕ} (h : i < bufferSize) (v : Byte) :
    b.write i v = .ok (Function.update b ⟨i, h⟩ v) := by
  simp [Buffer.write, h]

lemma Buffer.read_ok (b : Buffer) {i : ℕ} (h : i < bufferSize) : b.read i = .ok (b ⟨i, h⟩) := by
  simp [Buffer.read, h]

/-- Storing a list that fits replaces exactly the cells it covers. -/
lemma Buffer.store_ok (l : List Byte) :
    ∀ (b : Buffer) (i : ℕ), i + l.length ≤ bufferSize →
      ∃ b' : Buffer, b.store i l = .ok b' ∧
        ∀ j : Fin bufferSize, b' j = if i ≤ j then (l[j - i]?).getD (b j) else b j := by
  induction l with
  | nil => intro b i _; exact ⟨b, rfl, fun j => by simp⟩
  | cons v l ih =>
      intro b i hi
      simp only [List.length_cons] at hi
      have hlt : i < bufferSize := by omega
      obtain ⟨b', hb', hval⟩ := ih (Function.update b ⟨i, hlt⟩ v) (i + 1) (by omega)
      refine ⟨b', ?_, fun j => ?_⟩
      · rw [Buffer.store, Buffer.write_ok b hlt]
        exact hb'
      · rw [hval j]
        rcases Nat.lt_trichotomy i j with h | h | h
        · have hne : j ≠ ⟨i, hlt⟩ := fun e => by simp [e] at h
          have hsub : (j : ℕ) - i = (j - (i + 1)) + 1 := by omega
          rw [if_pos (by omega), if_pos (by omega), Function.update_of_ne hne, hsub,
            List.getElem?_cons_succ]
        · have he : j = ⟨i, hlt⟩ := Fin.ext h.symm
          subst he
          simp
        · have hne : j ≠ ⟨i, hlt⟩ := fun e => by simp [e] at h
          rw [if_neg (by omega), if_neg (by omega), Function.update_of_ne hne]

/-- The buffer after a body has been read into its front. -/
def Buffer.overlay (b : Buffer) (l : List Byte) : Buffer := fun j => (l[(j : ℕ)]?).getD (b j)

lemma Buffer.store_zero (b : Buffer) {l : List Byte} (h : l.length ≤ bufferSize) :
    b.store 0 l = .ok (b.overlay l) := by
  obtain ⟨b', hb', hval⟩ := Buffer.store_ok l b 0 (by omega)
  have : b' = b.overlay l := funext fun j => by rw [hval j]; simp [Buffer.overlay]
  rw [hb', this]

lemma Request.body_lt (r : Request) : r.body.length < bufferSize := by
  have := r.hdr.length.isLt
  rw [r.body_length]
  exact this

lemma serve_eq (img : DiskImage) (m : Memory) (r : Request) (f : Files) :
    serve img m r f
      = executeRequest img r.hdr { m with reqBuffer := m.reqBuffer.overlay r.body } f := by
  rw [serve, Buffer.store_zero _ r.body_lt.le]
  rfl

/-! ## The block copy -/

/-- The byte of the image at an address. -/
def DiskImage.byteAt (img : DiskImage) (k : ℕ) : Byte := if h : k < imageSize then img ⟨k, h⟩ else 0

lemma DiskImage.read_ok (img : DiskImage) {k : ℕ} (h : k < imageSize) :
    img.read k = .ok (img.byteAt k) := by
  simp [DiskImage.read, DiskImage.byteAt, h]

/-- The byte of the memory that begins with the image and goes on with `beyond`. -/
def DiskImage.readIn (img : DiskImage) (beyond : ℕ → Byte) (i : ℕ) : Byte :=
  if h : i < imageSize then img ⟨i, h⟩ else beyond i

/-- `copyBlock` in the memory that begins with the image. -/
def copyBlockIn (img : DiskImage) (beyond : ℕ → Byte) (src i : ℕ) (dst : Buffer) : ℕ → Except Fault Buffer
  | 0 => .ok dst
  | n + 1 => do
    let dst' ← dst.write i (img.readIn beyond (src + i))
    copyBlockIn img beyond src (i + 1) dst' n

/-- A copy of as many bytes as a buffer has room for has an outcome. -/
lemma copyBlockIn_ok (img : DiskImage) (beyond : ℕ → Byte) (src : ℕ) :
    ∀ (n i : ℕ) (dst : Buffer), i + n ≤ bufferSize →
      ∃ dst' : Buffer, copyBlockIn img beyond src i dst n = .ok dst' ∧
        ∀ j : Fin bufferSize,
          dst' j = if i ≤ j ∧ (j : ℕ) < i + n then img.readIn beyond (src + j) else dst j := by
  intro n
  induction n with
  | zero =>
      intro i dst _
      refine ⟨dst, rfl, fun j => ?_⟩
      rw [if_neg (by omega)]
  | succ n ih =>
      intro i dst hd
      have hlt : i < bufferSize := by omega
      obtain ⟨dst', hok, hval⟩ :=
        ih (i + 1) (Function.update dst ⟨i, hlt⟩ (img.readIn beyond (src + i))) (by omega)
      refine ⟨dst', ?_, fun j => ?_⟩
      · rw [copyBlockIn, ← hok]
        simp only [bind, Except.bind, Buffer.write_ok dst hlt]
      · rw [hval j]
        by_cases he : (j : ℕ) = i
        · have hj : j = ⟨i, hlt⟩ := Fin.ext he
          subst hj
          rw [if_neg (by simp), if_pos (by simp), Function.update_self]
        · have hne : j ≠ ⟨i, hlt⟩ := fun e => he (by rw [e])
          rw [Function.update_of_ne hne]
          split_ifs <;> first | rfl | omega

/-- Inside the image it does not matter what lies behind it. -/
lemma copyBlock_eq_in (img : DiskImage) (beyond : ℕ → Byte) {src : ℕ} :
    ∀ {n i : ℕ} {dst : Buffer}, n = 0 ∨ src + i + n ≤ imageSize →
      copyBlock img src i dst n = copyBlockIn img beyond src i dst n := by
  intro n
  induction n with
  | zero => intro i dst _; rfl
  | succ n ih =>
      intro i dst h
      have hlt : src + i < imageSize := by omega
      rw [copyBlock, copyBlockIn, DiskImage.read_ok img hlt, DiskImage.readIn, dif_pos hlt]
      simp only [bind, Except.bind, DiskImage.byteAt, dif_pos hlt]
      cases dst.write i (img ⟨src + i, hlt⟩) with
      | error e => rfl
      | ok d => exact ih (Or.inr (by omega))

/-- A copy that stays inside both arrays replaces exactly the cells it covers. -/
lemma copyBlock_ok (img : DiskImage) (src n i : ℕ) (dst : Buffer) (hs : src + i + n ≤ imageSize)
    (hd : i + n ≤ bufferSize) :
    ∃ dst' : Buffer, copyBlock img src i dst n = .ok dst' ∧
      ∀ j : Fin bufferSize, dst' j = if i ≤ j ∧ (j : ℕ) < i + n then img.byteAt (src + j) else dst j := by
  -- `byteAt` reads zeros behind the image
  obtain ⟨dst', hok, hval⟩ := copyBlockIn_ok img (fun _ => 0) src n i dst hd
  exact ⟨dst', (copyBlock_eq_in img _ (Or.inr hs)).trans hok, hval⟩

/-- A copy that would leave the image is a fault. -/
lemma copyBlock_error (img : DiskImage) (src : ℕ) :
    ∀ (n i : ℕ) (dst : Buffer), imageSize < src + i + n → i + n ≤ bufferSize → 0 < n →
      copyBlock img src i dst n = .error .outOfBounds := by
  intro n
  induction n with
  | zero => intro _ _ _ _ h; omega
  | succ n ih =>
      intro i dst hs hd _
      by_cases hlt : src + i < imageSize
      · rw [copyBlock, DiskImage.read_ok img hlt]
        simp only [bind, Except.bind, Buffer.write_ok dst (show i < bufferSize by omega)]
        exact ih (i + 1) _ (by omega) (by omega) (by omega)
      · rw [copyBlock, DiskImage.read, dif_neg hlt]
        rfl

/-! ## The response of a block request -/

lemma blockBytes_lt (b2 b3 : Byte) : blockBytes b2 b3 < 65536 := by
  have h2 := byte_lt b2
  have h3 := byte_lt b3
  simp only [blockBytes]
  omega

/-- A copy of `n` bytes from address `a` stays inside the image. -/
def InImage (a n : ℕ) : Prop := n = 0 ∨ a + n ≤ imageSize

instance (a n : ℕ) : Decidable (InImage a n) := inferInstanceAs (Decidable (_ ∨ _))

lemma copyBlock_inImage (img : DiskImage) {src n : ℕ} (dst : Buffer) (hin : InImage src n)
    (hn : n ≤ bufferSize) :
    ∃ dst' : Buffer, copyBlock img src 0 dst n = .ok dst' ∧
      ∀ j : Fin bufferSize, (j : ℕ) < n → dst' j = img.byteAt (src + j) := by
  rcases hin with h0 | hle
  · -- nothing is copied, so the block may lie anywhere
    subst h0
    exact ⟨dst, rfl, fun j hj => absurd hj (Nat.not_lt_zero _)⟩
  · obtain ⟨dst', hok, hval⟩ := copyBlock_ok img src n 0 dst (by omega) (by omega)
    refine ⟨dst', hok, fun j hj => ?_⟩
    rw [hval j, if_pos (by omega)]

/-- The response that the four bytes of a block request ask for. -/
def blockResponse (img : DiskImage) (b0 b1 b2 b3 : Byte) : Except Fault Response :=
  if InImage (256 * blockNumber b0 b1) (blockBytes b2 b3) then
    .ok { returnCode := RC_SUCCESS
          body := (List.range (blockBytes b2 b3)).map
            fun i => img.byteAt (256 * blockNumber b0 b1 + i)
          body_lt := by simpa using blockBytes_lt b2 b3 }
  else .error .outOfBounds

lemma Response.ext' {a b : Response} (hc : a.returnCode = b.returnCode) (hb : a.body = b.body) :
    a = b := by
  cases a; cases b; simp_all

lemma execReadBlock_response (img : DiskImage) (m : Memory) :
    (execReadBlock img m).map Memory.response
      = blockResponse img (m.reqBuffer ⟨0, by decide⟩) (m.reqBuffer ⟨1, by decide⟩)
          (m.reqBuffer ⟨2, by decide⟩) (m.reqBuffer ⟨3, by decide⟩) := by
  set b0 := m.reqBuffer ⟨0, by decide⟩
  set b1 := m.reqBuffer ⟨1, by decide⟩
  set b2 := m.reqBuffer ⟨2, by decide⟩
  set b3 := m.reqBuffer ⟨3, by decide⟩
  have hn := blockBytes_lt b2 b3
  have hread : execReadBlock img m = (copyBlock img (256 * blockNumber b0 b1) 0 m.rspBuffer
      (blockBytes b2 b3)).bind fun dst => .ok { m with
        rspBuffer := dst, rspHeader := ⟨RC_SUCCESS, BitVec.ofNat 16 (blockBytes b2 b3)⟩ } := rfl
  rw [hread, blockResponse]
  by_cases hin : InImage (256 * blockNumber b0 b1) (blockBytes b2 b3)
  · obtain ⟨dst, hdst, hval⟩ := copyBlock_inImage img m.rspBuffer hin (by simp only [bufferSize]; omega)
    rw [if_pos hin, hdst]
    refine congrArg Except.ok (Response.ext' rfl ?_)
    have hlen : (BitVec.ofNat 16 (blockBytes b2 b3)).toNat = blockBytes b2 b3 := by
      rw [BitVec.toNat_ofNat]
      omega
    simp only [Memory.response, Buffer.take, hlen]
    refine List.map_congr_left fun i hi => ?_
    have hi' : i < blockBytes b2 b3 := List.mem_range.1 hi
    have hib : i < bufferSize := by simp only [bufferSize]; omega
    rw [dif_pos hib, hval ⟨i, hib⟩ hi']
  · rw [if_neg hin]
    have hlt : ¬ (blockBytes b2 b3 = 0) ∧ ¬ (256 * blockNumber b0 b1 + blockBytes b2 b3 ≤ imageSize) :=
      not_or.1 hin
    rw [copyBlock_error img _ _ 0 _ (by omega) (by simp only [bufferSize]; omega) (by omega)]
    rfl

/-! ## Reads behind the image -/

/-- `READ_BLOCK` in the memory that begins with the image. -/
def execReadBlockIn (img : DiskImage) (beyond : ℕ → Byte) (m : Memory) : Except Fault Memory := do
  let b1 ← m.reqBuffer.read 1
  let b0 ← m.reqBuffer.read 0
  let b3 ← m.reqBuffer.read 3
  let b2 ← m.reqBuffer.read 2
  let numBytes := blockBytes b2 b3
  let dst ← copyBlockIn img beyond (256 * blockNumber b0 b1) 0 m.rspBuffer numBytes
  .ok { m with rspBuffer := dst, rspHeader := ⟨RC_SUCCESS, BitVec.ofNat 16 numBytes⟩ }

/-- `executeRequest` in the memory that begins with the image. -/
def executeRequestIn (img : DiskImage) (beyond : ℕ → Byte) (h : ReqHeader) (m : Memory) (f : Files) :
    Except Fault (Memory × Files) :=
  if h.channel = DEFAULT ∧ h.command = READ_BLOCK then (execReadBlockIn img beyond m).map (·, f)
  else executeRequest img h m f

/-- `serve` in the memory that begins with the image. -/
def serveIn (img : DiskImage) (beyond : ℕ → Byte) (m : Memory) (r : Request) (f : Files) :
    Except Fault (Memory × Files) := do
  let b ← m.reqBuffer.store 0 r.body
  executeRequestIn img beyond r.hdr { m with reqBuffer := b } f

/-- The response to a request. -/
def respondIn (img : DiskImage) (beyond : ℕ → Byte) (m : Memory) (r : Request) (f : Files) :
    Except Fault Response :=
  (serveIn img beyond m r f).map fun p => p.1.response

/-- The memory after a history of requests, the files as each of them found them. -/
def afterHistoryIn (img : DiskImage) (beyond : ℕ → Byte) (m : Memory) :
    List (Request × Files) → Except Fault Memory
  | [] => .ok m
  | (r, f) :: rest => do
    let p ← serveIn img beyond m r f
    afterHistoryIn img beyond p.1 rest

section Beyond

variable (img : DiskImage) (beyond : ℕ → Byte)

/-- Where the program stays inside the image, what lies behind it does not matter. -/
lemma executeRequest_eq_in {h : ReqHeader} {m : Memory} {f : Files} {p : Memory × Files}
    (hok : executeRequest img h m f = .ok p) : executeRequestIn img beyond h m f = .ok p := by
  rw [executeRequestIn]
  split_ifs with hread
  · have hne : h.command ≠ CALC := by rw [hread.2]; decide
    rw [executeRequest, if_pos hread.1, if_neg hne, if_pos hread.2] at hok
    rw [← hok]
    refine congrArg (Except.map (·, f)) ?_
    set k := 256 * blockNumber (m.reqBuffer ⟨0, by decide⟩) (m.reqBuffer ⟨1, by decide⟩)
    set n := blockBytes (m.reqBuffer ⟨2, by decide⟩) (m.reqBuffer ⟨3, by decide⟩) with hn
    have hblock : execReadBlock img m = (copyBlock img k 0 m.rspBuffer n).bind fun dst =>
        .ok { m with rspBuffer := dst, rspHeader := ⟨RC_SUCCESS, BitVec.ofNat 16 n⟩ } := rfl
    have hblockIn : execReadBlockIn img beyond m = (copyBlockIn img beyond k 0 m.rspBuffer n).bind fun dst =>
        .ok { m with rspBuffer := dst, rspHeader := ⟨RC_SUCCESS, BitVec.ofNat 16 n⟩ } := rfl
    have hlt : n < 65536 := blockBytes_lt _ _
    have hin : InImage k n := by
      by_contra hout
      obtain ⟨hpos, hoff⟩ := not_or.1 hout
      rw [hblock, copyBlock_error img k n 0 _ (by omega) (by simp only [bufferSize]; omega) (by omega)] at hok
      cases hok
    rw [hblock, hblockIn, copyBlock_eq_in img beyond (by simpa [InImage] using hin)]
  · exact hok

/-- The response that the four bytes of a block request ask for. -/
def blockResponseIn (b0 b1 b2 b3 : Byte) : Response where
  returnCode := RC_SUCCESS
  body := (List.range (blockBytes b2 b3)).map fun i => img.readIn beyond (256 * blockNumber b0 b1 + i)
  body_lt := by simpa using blockBytes_lt b2 b3

lemma execReadBlockIn_response (m : Memory) :
    (execReadBlockIn img beyond m).map Memory.response
      = .ok (blockResponseIn img beyond (m.reqBuffer ⟨0, by decide⟩) (m.reqBuffer ⟨1, by decide⟩)
          (m.reqBuffer ⟨2, by decide⟩) (m.reqBuffer ⟨3, by decide⟩)) := by
  set b0 := m.reqBuffer ⟨0, by decide⟩
  set b1 := m.reqBuffer ⟨1, by decide⟩
  set b2 := m.reqBuffer ⟨2, by decide⟩
  set b3 := m.reqBuffer ⟨3, by decide⟩
  have hn := blockBytes_lt b2 b3
  have hread : execReadBlockIn img beyond m = (copyBlockIn img beyond (256 * blockNumber b0 b1) 0 m.rspBuffer
      (blockBytes b2 b3)).bind fun dst => .ok { m with
        rspBuffer := dst, rspHeader := ⟨RC_SUCCESS, BitVec.ofNat 16 (blockBytes b2 b3)⟩ } := rfl
  obtain ⟨dst, hdst, hval⟩ := copyBlockIn_ok img beyond (256 * blockNumber b0 b1) (blockBytes b2 b3) 0
    m.rspBuffer (by simp only [bufferSize]; omega)
  rw [hread, hdst]
  refine congrArg Except.ok (Response.ext' rfl ?_)
  have hlen : (BitVec.ofNat 16 (blockBytes b2 b3)).toNat = blockBytes b2 b3 := by
    rw [BitVec.toNat_ofNat]
    omega
  simp only [Memory.response, Buffer.take, hlen]
  refine List.map_congr_left fun i hi => ?_
  have hi' : i < blockBytes b2 b3 := List.mem_range.1 hi
  have hib : i < bufferSize := by simp only [bufferSize]; omega
  rw [dif_pos hib, hval ⟨i, hib⟩, if_pos ⟨Nat.zero_le _, by simpa using hi'⟩]

/-! ## Requests whose response is their own -/

/-- Two histories of any kind, before the same request, lead to the same response. -/
def ResponseIndependent (r : Request) : Prop :=
  ∀ (m₁ m₂ s₁ s₂ : Memory) (h₁ h₂ : List (Request × Files)) (f₁ f₂ : Files),
    afterHistoryIn img beyond m₁ h₁ = .ok s₁ → afterHistoryIn img beyond m₂ h₂ = .ok s₂ →
      respondIn img beyond s₁ r f₁ = respondIn img beyond s₂ r f₂

end Beyond

/-- The request is a `CALC` or a `READ_BLOCK`. -/
def IsCalcOrBlock (h : ReqHeader) : Prop :=
  h.channel = DEFAULT ∧ (h.command = CALC ∨ h.command = READ_BLOCK)

/-- The body of a `READ_BLOCK` covers the four bytes that are decoded. -/
def BodyDecides (r : Request) : Prop := r.hdr.command = READ_BLOCK → 4 ≤ r.body.length

/-- The response of `CALC`: the four results, or the fault of a division by zero. -/
def calcResponse (h : ReqHeader) : Except Fault Response :=
  if h.param2 = 0 then .error .divisionByZero
  else .ok ⟨RC_SUCCESS, [h.param1 + h.param2, h.param1 - h.param2, h.param1 * h.param2,
    h.param1 / h.param2], by simp⟩

lemma execCalc_response (h : ReqHeader) (m : Memory) :
    (execCalc h m).map Memory.response = calcResponse h := by
  have h0 : (0 : ℕ) < bufferSize := by decide
  have h1 : (1 : ℕ) < bufferSize := by decide
  have h2 : (2 : ℕ) < bufferSize := by decide
  have h3 : (3 : ℕ) < bufferSize := by decide
  simp only [execCalc, bind, Except.bind, Buffer.write_ok _ h0, Buffer.write_ok _ h1,
    Buffer.write_ok _ h2, Buffer.write_ok _ h3, calcResponse]
  split
  · rfl
  · refine congrArg Except.ok (Response.ext' rfl ?_)
    simp [Memory.response, Buffer.take, List.range, List.range.loop, h0, h1, h2, h3,
      Function.update, Fin.ext_iff]

lemma map_response (x : Except Fault Memory) (f : Files) :
    (x.map (·, f)).map (fun p => p.1.response) = x.map Memory.response := by
  cases x <;> rfl

lemma respond_readBlock (img : DiskImage) (m : Memory) {r : Request} (f : Files)
    (hc : r.hdr.channel = DEFAULT) (hk : r.hdr.command = READ_BLOCK) :
    respond img m r f
      = blockResponse img ((r.body[0]?).getD (m.reqBuffer ⟨0, by decide⟩))
          ((r.body[1]?).getD (m.reqBuffer ⟨1, by decide⟩))
          ((r.body[2]?).getD (m.reqBuffer ⟨2, by decide⟩))
          ((r.body[3]?).getD (m.reqBuffer ⟨3, by decide⟩)) := by
  have hne : r.hdr.command ≠ CALC := by rw [hk]; decide
  rw [respond, serve_eq, executeRequest, if_pos hc, if_neg hne, if_pos hk, map_response,
    execReadBlock_response]
  rfl

section Beyond

variable (img : DiskImage) (beyond : ℕ → Byte)

lemma serveIn_eq (m : Memory) (r : Request) (f : Files) :
    serveIn img beyond m r f
      = executeRequestIn img beyond r.hdr { m with reqBuffer := m.reqBuffer.overlay r.body } f := by
  rw [serveIn, Buffer.store_zero _ r.body_lt.le]
  rfl

lemma respondIn_calc (m : Memory) {r : Request} (f : Files) (hc : r.hdr.channel = DEFAULT)
    (hk : r.hdr.command = CALC) : respondIn img beyond m r f = calcResponse r.hdr := by
  have hne : ¬ (r.hdr.channel = DEFAULT ∧ r.hdr.command = READ_BLOCK) := fun h => by
    rw [hk] at h
    exact absurd h.2 (by decide)
  rw [respondIn, serveIn_eq, executeRequestIn, if_neg hne, executeRequest, if_pos hc, if_pos hk,
    map_response, execCalc_response]

lemma respondIn_readBlock (m : Memory) {r : Request} (f : Files) (hc : r.hdr.channel = DEFAULT)
    (hk : r.hdr.command = READ_BLOCK) :
    respondIn img beyond m r f
      = .ok (blockResponseIn img beyond ((r.body[0]?).getD (m.reqBuffer ⟨0, by decide⟩))
          ((r.body[1]?).getD (m.reqBuffer ⟨1, by decide⟩))
          ((r.body[2]?).getD (m.reqBuffer ⟨2, by decide⟩))
          ((r.body[3]?).getD (m.reqBuffer ⟨3, by decide⟩))) := by
  rw [respondIn, serveIn_eq, executeRequestIn, if_pos ⟨hc, hk⟩, map_response, execReadBlockIn_response]
  rfl

/-- Two counts give two responses. -/
lemma blockResponseIn_ne {a b c d a' b' c' d' : Byte} (hne : blockBytes c d ≠ blockBytes c' d') :
    blockResponseIn img beyond a b c d ≠ blockResponseIn img beyond a' b' c' d' := by
  intro he
  have hbody := congrArg (fun r : Response => r.body.length) he
  simp only [blockResponseIn, List.length_map, List.length_range] at hbody
  exact hne hbody

end Beyond

/-- A memory whose request buffer holds the same byte everywhere. -/
def filled (v : Byte) : Memory := ⟨fun _ => v, ⟨0, 0⟩, fun _ => 0⟩

/-- A `READ_BLOCK` whose body does not decide the response has two responses. -/
lemma not_independent_of_short (img : DiskImage) (beyond : ℕ → Byte) {r : Request}
    (hc : r.hdr.channel = DEFAULT) (hk : r.hdr.command = READ_BLOCK) (hb : ¬ BodyDecides r) :
    ¬ ResponseIndependent img beyond r := by
  intro hind
  have hboth := hind (filled 0) (filled 1) (filled 0) (filled 1) [] [] ⟨true, [], none⟩
    ⟨true, [], none⟩ rfl rfl
  rw [respondIn_readBlock img beyond _ _ hc hk, respondIn_readBlock img beyond _ _ hc hk,
    Except.ok.injEq] at hboth
  have hlen : ¬ 4 ≤ r.body.length := by simpa [BodyDecides, hk] using hb
  revert hboth
  simp only [filled]
  rcases hbody : r.body with _ | ⟨b0, _ | ⟨b1, _ | ⟨b2, _ | ⟨b3, rest⟩⟩⟩⟩
  · exact blockResponseIn_ne img beyond (by decide)
  · exact blockResponseIn_ne img beyond (by simp [blockBytes])
  · exact blockResponseIn_ne img beyond (by simp [blockBytes])
  · -- the count is known up to its high byte
    exact blockResponseIn_ne img beyond (by simp [blockBytes])
  · exact absurd (by simp [hbody]) hlen

/-- **The response is a function of the request alone exactly when its body decides
it.**  For every `CALC` and every `READ_BLOCK` request, all histories before it lead to
the same response if and only if a `READ_BLOCK` brings the four bytes it decodes with
it. -/
theorem responseIndependent_iff_bodyDecides (img : DiskImage) (beyond : ℕ → Byte) (r : Request)
    (hr : IsCalcOrBlock r.hdr) : ResponseIndependent img beyond r ↔ BodyDecides r := by
  obtain ⟨hc, hk | hk⟩ := hr
  · have hne : r.hdr.command ≠ READ_BLOCK := by rw [hk]; decide
    refine iff_of_true (fun m₁ m₂ s₁ s₂ h₁ h₂ f₁ f₂ _ _ => ?_) fun h => absurd h hne
    rw [respondIn_calc img beyond s₁ f₁ hc hk, respondIn_calc img beyond s₂ f₂ hc hk]
  · refine ⟨fun h => ?_, fun h m₁ m₂ s₁ s₂ h₁ h₂ f₁ f₂ _ _ => ?_⟩
    · by_contra hb
      exact not_independent_of_short img beyond hc hk hb h
    · have h4 := h hk
      rw [respondIn_readBlock img beyond s₁ f₁ hc hk, respondIn_readBlock img beyond s₂ f₂ hc hk]
      obtain ⟨b0, b1, b2, b3, rest, hbody⟩ : ∃ b0 b1 b2 b3 rest,
          r.body = b0 :: b1 :: b2 :: b3 :: rest := by
        rcases hbody : r.body with _ | ⟨b0, _ | ⟨b1, _ | ⟨b2, _ | ⟨b3, rest⟩⟩⟩⟩
        all_goals first
          | exact ⟨_, _, _, _, _, rfl⟩
          | (simp [hbody] at h4)
      simp [hbody]

/-- A block request with the four bytes its decoder reads. -/
def fullBlockRequest : Request := ⟨⟨DEFAULT, READ_BLOCK, 0, 0, 4⟩, [0, 0, 4, 0], rfl⟩

theorem fullBlockRequest_independent :
    IsCalcOrBlock fullBlockRequest.hdr ∧
      ResponseIndependent (fun _ => 0) (fun _ => 0) fullBlockRequest :=
  ⟨⟨rfl, Or.inr rfl⟩,
    (responseIndependent_iff_bodyDecides (fun _ => 0) (fun _ => 0) fullBlockRequest ⟨rfl, Or.inr rfl⟩).2
      fun _ => by decide⟩

/-- A block request with no body. -/
def emptyBlockRequest : Request := ⟨⟨DEFAULT, READ_BLOCK, 0, 0, 0⟩, [], rfl⟩

/-- A request for an unknown channel: its body is read and nothing is done with it. -/
def strayRequest (v : Byte) : Request := ⟨⟨1, 0, 0, 0, 4⟩, [0, 0, v, 0], rfl⟩

/-- The same empty block request after two different stray requests: the response has
as many bytes as the stray body said. -/
theorem emptyBlockRequest_not_independent :
    IsCalcOrBlock emptyBlockRequest.hdr ∧
      ¬ ResponseIndependent (fun _ => 0) (fun _ => 0) emptyBlockRequest := by
  refine ⟨⟨rfl, Or.inr rfl⟩, fun hind => ?_⟩
  have hstray : ∀ v : Byte, ∃ s : Memory,
      afterHistoryIn (fun _ => 0) (fun _ => 0) (filled 0) [(strayRequest v, ⟨true, [], none⟩)] = .ok s ∧
        s.reqBuffer = (filled 0).reqBuffer.overlay [0, 0, v, 0] := by
    intro v
    refine ⟨⟨(filled 0).reqBuffer.overlay [0, 0, v, 0], ⟨RC_UNRECOGNISED_CHANNEL, 0⟩,
      (filled 0).rspBuffer⟩, ?_, rfl⟩
    rw [afterHistoryIn, serveIn_eq]
    rfl
  obtain ⟨s₀, h₀, hb₀⟩ := hstray 0
  obtain ⟨s₁, h₁, hb₁⟩ := hstray 1
  have h := hind _ _ s₀ s₁ _ _ ⟨true, [], none⟩ ⟨true, [], none⟩ h₀ h₁
  rw [respondIn_readBlock _ _ s₀ _ rfl rfl, respondIn_readBlock _ _ s₁ _ rfl rfl, hb₀, hb₁,
    Except.ok.injEq] at h
  exact blockResponseIn_ne (fun _ => 0) (fun _ => 0) (by decide) h

end Udfs.Server
