import Udfs.Server.Independence

/-!
# Which requests the server survives

A request comes from the other machine and nothing checks it.  `executeRequest` reaches its
end unless a `CALC` divides by zero, a `READ_BLOCK` runs off the image, or a file of `RW_FILE`
cannot be opened; the response buffer is never overrun.
-/

namespace Udfs.Server

/-- The call reaches its end. -/
def Survives {α : Type} (x : Except Fault α) : Prop := ∃ a, x = .ok a

lemma survives_ok {α : Type} (a : α) : Survives (.ok a) := ⟨a, rfl⟩

lemma not_survives_error {α : Type} (e : Fault) : ¬ Survives (.error e : Except Fault α) := by
  rintro ⟨a, ha⟩
  cases ha

lemma survives_map {α β : Type} (x : Except Fault α) (f : α → β) :
    Survives (x.map f) ↔ Survives x := by
  cases x with
  | error e => exact iff_of_false (not_survives_error e) (not_survives_error e)
  | ok a => exact iff_of_true (survives_ok (f a)) (survives_ok a)

lemma survives_ite {α : Type} {c : Prop} [Decidable c] {x y : Except Fault α} :
    Survives (if c then x else y) ↔ (c → Survives x) ∧ (¬ c → Survives y) := by
  by_cases h : c <;> simp [h]

lemma zero_lt_bufferSize : 0 < bufferSize := by decide

lemma one_lt_bufferSize : 1 < bufferSize := by decide

lemma two_lt_bufferSize : 2 < bufferSize := by decide

lemma three_lt_bufferSize : 3 < bufferSize := by decide

/-- The four bytes that `READ_BLOCK` decodes ask for bytes of the image. -/
def Buffer.BlockInImage (b : Buffer) : Prop :=
  InImage (256 * blockNumber (b ⟨0, zero_lt_bufferSize⟩) (b ⟨1, one_lt_bufferSize⟩))
    (blockBytes (b ⟨2, two_lt_bufferSize⟩) (b ⟨3, three_lt_bufferSize⟩))

/-- Both files of `RW_FILE` can be opened. -/
def Files.Open (f : Files) : Prop := f.fromBbcOpens = true ∧ f.toBbc ≠ none

/-- What a request must not ask for. -/
structure Harmless (h : ReqHeader) (m : Memory) (f : Files) : Prop where
  ofCalc : h.command = CALC → h.param2 ≠ 0
  ofReadBlock : h.command = READ_BLOCK → m.reqBuffer.BlockInImage
  ofRwFile : h.command = RW_FILE → f.Open

lemma survives_calc (h : ReqHeader) (m : Memory) : Survives (execCalc h m) ↔ h.param2 ≠ 0 := by
  rw [← survives_map _ Memory.response, execCalc_response, calcResponse, survives_ite]
  constructor
  · rintro ⟨hzero, -⟩ h0
    exact not_survives_error _ (hzero h0)
  · intro hne
    exact ⟨fun h0 => absurd h0 hne, fun _ => survives_ok _⟩

lemma survives_readBlock (img : DiskImage) (m : Memory) :
    Survives (execReadBlock img m) ↔ m.reqBuffer.BlockInImage := by
  rw [← survives_map _ Memory.response, execReadBlock_response, blockResponse, survives_ite]
  constructor
  · rintro ⟨-, hout⟩
    by_contra hin
    exact not_survives_error _ (hout hin)
  · intro hin
    exact ⟨fun _ => survives_ok _, fun hout => absurd hin hout⟩

/-- `fread` brings at most as many bytes as the response buffer holds. -/
lemma survives_rwFile (h : ReqHeader) (m : Memory) (f : Files) :
    Survives (execRwFile h m f) ↔ f.Open := by
  rw [execRwFile, Files.Open]
  rcases f with ⟨opens, from_bbc, _ | data⟩
  · refine iff_of_false ?_ fun h => h.2 rfl
    split <;> exact not_survives_error _
  · have hlen : (data.take bufferSize).length ≤ bufferSize := by
      rw [List.length_take]
      exact min_le_left _ _
    cases opens with
    | false => exact iff_of_false (not_survives_error _) fun h => Bool.false_ne_true h.1
    | true =>
        refine iff_of_true ?_ ⟨rfl, by rintro ⟨⟩⟩
        rw [if_pos rfl]
        simp only [Buffer.store_zero _ hlen]
        exact survives_ok _

/-- **`executeRequest` reaches its end exactly for the harmless requests.**  On the default
channel a `CALC` must not divide by zero, the source bytes of a `READ_BLOCK` must lie inside
the image, and the files of an `RW_FILE` must open; on every other channel, and for every
other command, there is nothing to ask. -/
theorem executeRequest_survives_iff (img : DiskImage) (h : ReqHeader) (m : Memory) (f : Files) :
    Survives (executeRequest img h m f) ↔ (h.channel = DEFAULT → Harmless h m f) := by
  by_cases hch : h.channel = DEFAULT
  · simp only [executeRequest, if_pos hch, survives_ite, survives_map, survives_calc,
      survives_readBlock, survives_rwFile]
    constructor
    · rintro ⟨hcalc, hrest⟩ -
      refine ⟨hcalc, fun hk => ?_, fun hk => ?_⟩
      · exact (hrest (by rw [hk]; decide)).1 hk
      · exact ((hrest (by rw [hk]; decide)).2 (by rw [hk]; decide)).1 hk
    · intro hall
      have hh := hall hch
      exact ⟨hh.ofCalc, fun _ => ⟨hh.ofReadBlock, fun _ => ⟨hh.ofRwFile, fun _ => survives_ok _⟩⟩⟩
  · rw [executeRequest, if_neg hch]
    exact iff_of_true (survives_ok _) fun h => absurd h hch

/-- A `READ_BLOCK` of block 1023, and a `CALC` with a second parameter of zero, do not reach
their end. -/
theorem readBlock_off_image_not_survived :
    ¬ Survives (executeRequest (fun _ => 0) ⟨DEFAULT, READ_BLOCK, 0, 0, 4⟩ (filled 0xff)
        ⟨true, [], none⟩) ∧
      ¬ Survives (executeRequest (fun _ => 0) ⟨DEFAULT, CALC, 1, 0, 0⟩ (filled 0)
        ⟨true, [], none⟩) := by
  have hcalc : READ_BLOCK ≠ CALC := by decide
  constructor
  · rw [executeRequest, if_pos rfl, if_neg hcalc, if_pos rfl, survives_map, survives_readBlock,
      Buffer.BlockInImage]
    decide
  · rw [executeRequest, if_pos rfl, if_pos rfl, survives_map, survives_calc]
    exact fun h => h rfl

end Udfs.Server
