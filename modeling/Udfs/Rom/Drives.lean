import Udfs.Lib.Calls
import Udfs.Rom.DiskNumber
import Udfs.Rom.Media
import Udfs.Rom.Mount

/-!
# What is in the drives

The drive table holds a disk number and its complement for each drive, and `*DSWAP` exchanges it with one
that is put by.  The code from `$ad27` on, with which `*DMODE` ends, goes through the table: it keeps a drive
whose number goes with its complement, gives any other the number in the buffer, and empties a drive when a
lower one has the same disk.  Nothing else puts an order there that was not: in this version
`mmc_initialise` is not called when the machine starts.  But every command keeps the order that it finds.
-/

namespace Udfs.Rom

/-! ## The table -/

/-- `$0d0c` … `$0d1f`, or the table put by at `$0d2b`. -/
structure Table where
  lo : Byte → Byte
  hi : Byte → Byte
  loInv : Byte → Byte
  hiInv : Byte → Byte
  mark : Byte → Byte

/-- The drive table of a state. -/
def State.table (s : State) : Table := ⟨s.diskLo, s.diskHi, s.diskLoInv, s.diskHiInv, s.diskMark⟩

/-- The state with another drive table. -/
def State.withTable (s : State) (t : Table) : State :=
  { s with diskLo := t.lo, diskHi := t.hi, diskLoInv := t.loInv, diskHiInv := t.hiInv, diskMark := t.mark }

namespace Table

/-- `$ad78`: no disk in drive `x`. -/
def eject (x : Byte) (t : Table) : Table := { t with hi := Function.update t.hi x 0xff }

/-- `$ad46`: the number in the buffer. -/
def useDefault (buf : ℕ → Byte) (x : Byte) (t : Table) : Table where
  lo := Function.update t.lo x (buf (0x0e00 + x.toNat))
  loInv := Function.update t.loInv x (~~~ buf (0x0e00 + x.toNat))
  hi := Function.update t.hi x (buf (0x0e04 + x.toNat))
  hiInv := Function.update t.hiInv x (~~~ buf (0x0e04 + x.toNat))
  mark := t.mark

/-- `$ad61`: one of the drives below `k` has the number of drive `x`. -/
def twinBelow (t : Table) (x : Byte) : ℕ → Bool
  | 0 => false
  | k + 1 => (t.hi x = t.hi (BitVec.ofNat 8 k) ∧ t.lo x = t.lo (BitVec.ofNat 8 k)) || t.twinBelow x k

/-- The two copies of the number of drive `x` agree. -/
def Agrees (t : Table) (x : Byte) : Prop := ~~~ t.hi x = t.hiInv x ∧ ~~~ t.lo x = t.loInv x

instance (t : Table) (x : Byte) : Decidable (t.Agrees x) := inferInstanceAs (Decidable (_ ∧ _))

/-- `$ad29`: drive `x`, with `start_opts` and the buffer. -/
def startDrive (opts : Byte) (buf : ℕ → Byte) (x : Byte) (t : Table) : Table :=
  if opts ≠ 0x42 ∧ 128 ≤ (t.hi x).toNat then t.eject x
  else
    let t := if opts ≠ 0x42 ∧ t.Agrees x then t else t.useDefault buf x
    if (t.hi x).toNat < 128 ∧ t.twinBelow x x.toNat then t.eject x else t

/-- The loop at `$ad29`: the drives below `k`. -/
def startDrives (opts : Byte) (buf : ℕ → Byte) : ℕ → Table → Table
  | 0, t => t
  | k + 1, t => startDrive opts buf (BitVec.ofNat 8 k) (startDrives opts buf k t)

/-- `$acd9`: the write mark of drive `x` by the status of its disk, or no disk. -/
def markDrive (buf : ℕ → Byte) (x : Byte) (t : Table) : Table :=
  let status := buf (statusAddr (t.lo x) (ror (t.hi x) false).2)
  if 128 ≤ (t.hi x).toNat then t
  else if ¬ t.Agrees x ∨ 128 ≤ status.toNat then
    { t.eject x with mark := Function.update t.mark x 0xff }
  else { t with mark := Function.update t.mark x (if status = 0 then 0 else 0x54) }

/-- `$acd0`: the drives below `k`, from the last on. -/
def markDrives (buf : ℕ → Byte) : ℕ → Table → Table
  | 0, t => t
  | k + 1, t => markDrives buf k (markDrive buf (BitVec.ofNat 8 k) t)

/-- `$ad27`, with what `loaddisktable` has left in the buffer. -/
def initialise (opts : Byte) (buf : ℕ → Byte) (t : Table) : Table :=
  markDrives buf 4 (startDrives opts buf 4 t)

end Table

/-! ## The commands -/

/-- The state, and the table put by. -/
abbrev DriveProg (α : Type) : Type := Prog (State × Table) Err α

/-- `$ad27`, with `start_opts`. -/
def initDrives (opts : Byte) : DriveProg Unit := Prog.modify fun s =>
  (s.1.withTable (s.1.table.initialise opts s.1.cat), s.2)

/-- `*DSWAP`. -/
def cmdDswap : DriveProg Unit := Prog.modify fun s =>
  ({ s.1.withTable s.2 with curDrvCat := 0xff }, s.1.table)

/-- `$b375`: a disk number at the end of the line, or a disk by its name. -/
def diskArg (line : Byte → Byte) (named : Except Err (Byte × Bool)) (x y : Byte) : Except Err (Byte × Bool) :=
  match readDiskNumber line x y with
  | none => .error .syntaxError
  | some n =>
      if n.carry then named
      else
        match skipSpaces line n.x 256 n.y with
        | some ⟨_, _, _, true⟩ => .ok (n.x, (ror n.a false).2)
        | _ => .error .syntaxError

/-- `$b356`: the drive, by default the current one, and the disk. -/
def driveAndDisk (line : Byte → Byte) (named : Except Err (Byte × Bool)) (d y : Byte) :
    Except Err (Byte × Byte × Bool) :=
  match skipSpaces line 0 256 y with
  | some ⟨_, _, y, false⟩ =>
      match readDiskNumber line 0 y with
      | none => .error .syntaxError
      | some n =>
          if n.carry then named.map fun p => (d, p)
          else
            match skipSpaces line n.x 256 n.y with
            | none => .error .syntaxError
            | some r =>
                if r.carry then .ok (d, n.x, (ror n.a false).2)
                else if n.a ≠ 0 ∨ 4 ≤ n.x.toNat then .error .badDrive
                else (diskArg line named 0 r.y).map fun p => (n.x, p)
  | _ => .error .syntaxError

/-- `*DIN`, with what the search for a name would come to. -/
def cmdDin (line : Byte → Byte) (y : Byte) (named : Except Err (Byte × Bool)) : DriveProg Unit := do
  let s ← Prog.get
  match driveAndDisk line named s.1.curDrv y with
  | .error e => Prog.fail e
  | .ok (x, a, c) => Prog.beside (loaddisk a x c)

/-- `$b31c`. -/
def bootDisk (line : Byte → Byte) (named : Except Err (Byte × Bool)) (y : Byte) : Except Err (Byte × Bool) :=
  match skipSpaces line 0 256 y with
  | some ⟨_, _, y, false⟩ => diskArg line named 0 y
  | _ => .error .syntaxError

/-- `*DBOOT`, as far as the disk is put in. -/
def cmdDboot (line : Byte → Byte) (y : Byte) (named : Except Err (Byte × Bool)) : DriveProg Unit := do
  let s ← Prog.get
  match bootDisk line named y with
  | .error e => Prog.fail e
  | .ok (a, c) => Prog.beside (loaddisk a s.1.curDrv c)

/-! ## Drives and disks -/

/-- What is in the four drives: the two bytes of a disk number, the high one first. -/
abbrev Mounts : Type := Fin 4 → Option (Byte × Byte)

namespace Mounts

/-- No disk is in two drives. -/
def Exclusive (g : Mounts) : Prop := ∀ x y d, g x = some d → g y = some d → x = y

/-- The disk is taken out of the drive it is in, and put into drive `x`. -/
def put (g : Mounts) (x : Fin 4) (d : Byte × Byte) : Mounts := fun y =>
  if y = x then some d else if g y = some d then none else g y

/-- Nothing is in drive `x`. -/
def clear (g : Mounts) (x : Fin 4) : Mounts := Function.update g x none

lemma Exclusive.put {g : Mounts} (h : g.Exclusive) (x : Fin 4) (d : Byte × Byte) : (g.put x d).Exclusive := by
  intro y z e hy hz
  simp only [Mounts.put] at hy hz
  split_ifs at hy hz with hyx hzx hzd hyd hzx hzd
  · rw [hyx, hzx]
  · cases hy
    exact absurd hz hzd
  · cases hz
    exact absurd hy hyd
  · exact h y z e hy hz

end Mounts

/-- The number of a drive. -/
def driveNo (x : Fin 4) : Byte := BitVec.ofNat 8 x

lemma driveNo_inj {x y : Fin 4} : driveNo x = driveNo y ↔ x = y := by
  revert x y
  decide

lemma driveNo_of_lt {x : Byte} (h : x.toNat < 4) : driveNo ⟨x.toNat, h⟩ = x := by
  rw [driveNo]
  exact BitVec.ofNat_toNat .. |>.trans (BitVec.setWidth_eq x)

namespace Table

/-- What the table says is in the drives. -/
def mounts (t : Table) : Mounts := fun x =>
  if 128 ≤ (t.hi (driveNo x)).toNat then none else some (t.hi (driveNo x), t.lo (driveNo x))

/-- No disk is in two drives, and where a disk is the copies of its number agree. -/
structure Ok (t : Table) : Prop where
  exclusive : t.mounts.Exclusive
  agrees : ∀ x : Fin 4, t.mounts x ≠ none → t.Agrees (driveNo x)

variable {t t' : Table} {x : Byte} {k : ℕ}

lemma mounts_eq_some {y : Fin 4} {d : Byte × Byte} :
    t.mounts y = some d ↔ (t.hi (driveNo y)).toNat < 128 ∧ d = (t.hi (driveNo y), t.lo (driveNo y)) := by
  rw [mounts]
  split_ifs with h
  · simp [h]
  · rw [Option.some.injEq, eq_comm]
    exact (and_iff_right (Nat.not_le.1 h)).symm

lemma mounts_ne_none {y : Fin 4} : t.mounts y ≠ none ↔ (t.hi (driveNo y)).toNat < 128 := by
  rw [mounts]
  split_ifs with h
  · simpa using h
  · simpa using h

/-- A disk taken out of a table. -/
lemma mounts_eject (t : Table) (x : Fin 4) : (t.eject (driveNo x)).mounts = t.mounts.clear x := by
  funext y
  simp only [mounts, eject, Mounts.clear, Function.update_apply, driveNo_inj]
  split_ifs <;> first | rfl | contradiction

/-! ### Going through the table -/

/-- Disks have only gone. -/
structure Shrinks (t t' : Table) : Prop where
  lo : t'.lo = t.lo
  loInv : t'.loInv = t.loInv
  hiInv : t'.hiInv = t.hiInv
  hi : ∀ x, t'.hi x = t.hi x ∨ t'.hi x = 0xff

lemma Shrinks.trans {t'' : Table} (h : Shrinks t t') (h' : Shrinks t' t'') : Shrinks t t'' where
  lo := h'.lo.trans h.lo
  loInv := h'.loInv.trans h.loInv
  hiInv := h'.hiInv.trans h.hiInv
  hi x := by
    rcases h'.hi x with hx | hx
    · rw [hx]
      exact h.hi x
    · exact Or.inr hx

lemma shrinks_eject (t : Table) (x : Byte) : Shrinks t (t.eject x) := by
  refine ⟨rfl, rfl, rfl, fun y => ?_⟩
  simp only [eject, Function.update_apply]
  split_ifs
  · exact Or.inr rfl
  · exact Or.inl rfl

lemma Shrinks.mounts (h : Shrinks t t') (y : Fin 4) : t'.mounts y = t.mounts y ∨ t'.mounts y = none := by
  rcases h.hi (driveNo y) with hy | hy
  · left
    rw [Table.mounts, Table.mounts, hy, h.lo]
  · right
    rw [Table.mounts, hy]
    rfl

lemma Ok.shrinks (hok : t.Ok) (h : Shrinks t t') : t'.Ok where
  exclusive y z d hy hz := by
    rcases h.mounts y with hy' | hy'
    · rcases h.mounts z with hz' | hz'
      · exact hok.exclusive y z d (hy'.symm.trans hy) (hz'.symm.trans hz)
      · rw [hz'] at hz
        cases hz
    · rw [hy'] at hy
      cases hy
  agrees y hy := by
    have hlt := mounts_ne_none.1 hy
    rcases h.hi (driveNo y) with hy' | hy'
    · obtain ⟨h1, h2⟩ := hok.agrees y (mounts_ne_none.2 (hy' ▸ hlt))
      exact ⟨by rw [hy', h.hiInv, h1], by rw [h.lo, h.loInv, h2]⟩
    · rw [hy'] at hlt
      exact absurd hlt (by decide)

lemma twinBelow_iff : t.twinBelow x k = true ↔
    ∃ y < k, t.hi x = t.hi (BitVec.ofNat 8 y) ∧ t.lo x = t.lo (BitVec.ofNat 8 y) := by
  induction k with
  | zero => simp [twinBelow]
  | succ k ih =>
      rw [twinBelow, Bool.or_eq_true, ih, decide_eq_true_iff]
      constructor
      · rintro (h | ⟨y, hy, h⟩)
        · exact ⟨k, Nat.lt_succ_self k, h⟩
        · exact ⟨y, Nat.lt_succ_of_lt hy, h⟩
      · rintro ⟨y, hy, h⟩
        rcases Nat.lt_succ_iff_lt_or_eq.1 hy with hlt | rfl
        · exact Or.inr ⟨y, hlt, h⟩
        · exact Or.inl h

/-- The tables say the same of drive `y`. -/
structure SameAt (y : Byte) (t t' : Table) : Prop where
  lo : t'.lo y = t.lo y
  hi : t'.hi y = t.hi y
  agrees : t'.Agrees y ↔ t.Agrees y

lemma startDrive_other {opts : Byte} {buf : ℕ → Byte} {y : Byte} (h : y ≠ x) :
    SameAt y t (startDrive opts buf x t) := by
  have heject : ∀ t : Table, SameAt y t (t.eject x) := fun t =>
    ⟨rfl, Function.update_of_ne h .., by simp only [Agrees, eject, Function.update_of_ne h]⟩
  have hdefault : SameAt y t (t.useDefault buf x) := by
    refine ⟨Function.update_of_ne h .., Function.update_of_ne h .., ?_⟩
    simp only [Agrees, useDefault, Function.update_of_ne h]
  have htrans : ∀ {t₁ t₂ t₃ : Table}, SameAt y t₁ t₂ → SameAt y t₂ t₃ → SameAt y t₁ t₃ := fun h₁ h₂ =>
    ⟨h₂.lo.trans h₁.lo, h₂.hi.trans h₁.hi, h₂.agrees.trans h₁.agrees⟩
  have hsame : SameAt y t t := ⟨rfl, rfl, Iff.rfl⟩
  simp only [startDrive]
  split_ifs
  · exact heject t
  · exact heject t
  · exact hsame
  · exact htrans hdefault (heject _)
  · exact hdefault

/-- The drive is empty then, or its copies agree and no lower drive has the number. -/
lemma startDrive_self (opts : Byte) (buf : ℕ → Byte) (x : Byte) (t : Table) :
    128 ≤ ((startDrive opts buf x t).hi x).toNat ∨
      (startDrive opts buf x t).Agrees x ∧ (startDrive opts buf x t).twinBelow x x.toNat = false := by
  have heject : ∀ t : Table, 128 ≤ ((t.eject x).hi x).toNat := by
    intro t
    simp only [eject, Function.update_self]
    decide
  have hdefault : (t.useDefault buf x).Agrees x := by
    simp only [Agrees, useDefault, Function.update_self, and_self]
  have hkeep : ∀ u : Table, u.Agrees x → ¬ ((u.hi x).toNat < 128 ∧ u.twinBelow x x.toNat = true) →
      128 ≤ (u.hi x).toNat ∨ u.Agrees x ∧ u.twinBelow x x.toNat = false := by
    intro u hu hnot
    by_cases hhi : (u.hi x).toNat < 128
    · exact Or.inr ⟨hu, Bool.eq_false_iff.2 fun h => hnot ⟨hhi, h⟩⟩
    · exact Or.inl (Nat.not_lt.1 hhi)
  simp only [startDrive]
  split_ifs with h1 h2 h3 h4
  · exact Or.inl (heject t)
  · exact Or.inl (heject t)
  · exact hkeep t h2.2 h3
  · exact Or.inl (heject _)
  · exact hkeep _ hdefault h4

/-- The drives below `k` are in order. -/
structure OkBelow (k : ℕ) (t : Table) : Prop where
  exclusive : ∀ x y : Fin 4, x.val < k → y.val < k → ∀ d, t.mounts x = some d → t.mounts y = some d → x = y
  agrees : ∀ x : Fin 4, x.val < k → t.mounts x ≠ none → t.Agrees (driveNo x)

lemma SameAt.mounts {y : Fin 4} (h : SameAt (driveNo y) t t') : t'.mounts y = t.mounts y := by
  rw [Table.mounts, Table.mounts, h.hi, h.lo]

lemma OkBelow.startDrive (h : OkBelow k t) (hk : k < 4) (opts : Byte) (buf : ℕ → Byte) :
    OkBelow (k + 1) (startDrive opts buf (BitVec.ofNat 8 k) t) := by
  set u := Table.startDrive opts buf (BitVec.ofNat 8 k) t with hu
  have hbyte : (BitVec.ofNat 8 k : Byte).toNat = k := by
    rw [BitVec.toNat_ofNat]
    omega
  have hbelow : ∀ y : Fin 4, y.val < k → SameAt (driveNo y) t u := by
    intro y hy
    refine startDrive_other fun heq => ?_
    have hnat := congrArg BitVec.toNat heq
    rw [hbyte, driveNo, BitVec.toNat_ofNat] at hnat
    omega
  have hnew := startDrive_self opts buf (BitVec.ofNat 8 k) t
  rw [← hu, hbyte] at hnew
  -- a lower drive and the new one are never the same
  have hmixed : ∀ y z : Fin 4, y.val < k → z.val = k → ∀ d, u.mounts y = some d → u.mounts z ≠ some d := by
    intro y z hy hz d hyd hzd
    obtain ⟨-, rfl⟩ := mounts_eq_some.1 hyd
    obtain ⟨hzhi, hzd⟩ := mounts_eq_some.1 hzd
    have hno : driveNo z = BitVec.ofNat 8 k := by rw [driveNo, hz]
    rw [hno] at hzhi hzd
    rcases hnew with hempty | ⟨-, htwin⟩
    · omega
    · have htwin' : u.twinBelow (BitVec.ofNat 8 k) k = true :=
        twinBelow_iff.2 ⟨y, hy, (congrArg Prod.fst hzd).symm, (congrArg Prod.snd hzd).symm⟩
      rw [htwin] at htwin'
      cases htwin'
  constructor
  · intro y z hy hz d hyd hzd
    rcases Nat.lt_succ_iff_lt_or_eq.1 hy with hy' | hy' <;>
      rcases Nat.lt_succ_iff_lt_or_eq.1 hz with hz' | hz'
    · rw [(hbelow y hy').mounts] at hyd
      rw [(hbelow z hz').mounts] at hzd
      exact h.exclusive y z hy' hz' d hyd hzd
    · exact absurd hzd (hmixed y z hy' hz' d hyd)
    · exact absurd hyd (hmixed z y hz' hy' d hzd)
    · exact Fin.ext (hy'.trans hz'.symm)
  · intro y hy hyd
    rcases Nat.lt_succ_iff_lt_or_eq.1 hy with hy' | hy'
    · rw [(hbelow y hy').mounts] at hyd
      exact (hbelow y hy').agrees.2 (h.agrees y hy' hyd)
    · have hlt := mounts_ne_none.1 hyd
      rw [driveNo, hy'] at hlt ⊢
      rcases hnew with hempty | ⟨hagrees, -⟩
      · omega
      · exact hagrees

lemma startDrives_okBelow (opts : Byte) (buf : ℕ → Byte) (t : Table) :
    ∀ k, k ≤ 4 → OkBelow k (startDrives opts buf k t) := by
  intro k
  induction k with
  | zero =>
      intro _
      exact ⟨fun x _ hx => absurd hx (Nat.not_lt_zero _), fun x hx => absurd hx (Nat.not_lt_zero _)⟩
  | succ k ih =>
      intro hk
      exact (ih (by omega)).startDrive (by omega) opts buf

lemma shrinks_markDrive (buf : ℕ → Byte) (x : Byte) (t : Table) : Shrinks t (markDrive buf x t) := by
  obtain ⟨h1, h2, h3, h4⟩ := shrinks_eject t x
  have hsame : Shrinks t t := ⟨rfl, rfl, rfl, fun _ => Or.inl rfl⟩
  simp only [markDrive]
  split_ifs
  · exact hsame
  · exact ⟨h1, h2, h3, h4⟩
  · exact ⟨rfl, rfl, rfl, fun _ => Or.inl rfl⟩
  · exact ⟨rfl, rfl, rfl, fun _ => Or.inl rfl⟩

lemma shrinks_markDrives (buf : ℕ → Byte) : ∀ (k : ℕ) (t : Table), Shrinks t (markDrives buf k t) := by
  intro k
  induction k with
  | zero => exact fun t => ⟨rfl, rfl, rfl, fun _ => Or.inl rfl⟩
  | succ k ih => exact fun t => (shrinks_markDrive buf _ t).trans (ih _)

/-- Whatever was in memory, the table is in order then. -/
lemma ok_initialise (opts : Byte) (buf : ℕ → Byte) (t : Table) : (t.initialise opts buf).Ok := by
  have hbelow := startDrives_okBelow opts buf t 4 le_rfl
  have hok : (startDrives opts buf 4 t).Ok :=
    ⟨fun x y d => hbelow.exclusive x y x.isLt y.isLt d, fun x => hbelow.agrees x x.isLt⟩
  exact hok.shrinks (shrinks_markDrives buf 4 _)

end Table

/-! ## Putting a disk in -/

lemma takeOut_apply (x lo hi : Byte) (diskLo : Byte → Byte) (k : ℕ) (hk : k ≤ 256) :
    ∀ (diskHi : Byte → Byte) (z : Byte), takeOut x lo hi diskLo k diskHi z =
      if z.toNat < k ∧ z ≠ x ∧ diskLo z = lo ∧ diskHi z = hi then 0xff else diskHi z := by
  induction k with
  | zero =>
      intro diskHi z
      rw [takeOut, if_neg fun h => Nat.not_lt_zero _ h.1]
  | succ k ih =>
      intro diskHi z
      have hbyte : (BitVec.ofNat 8 k : Byte).toNat = k := by
        rw [BitVec.toNat_ofNat]
        omega
      rw [takeOut, ih (by omega)]
      by_cases hz : z = BitVec.ofNat 8 k
      · subst hz
        rw [hbyte, if_neg fun h => Nat.lt_irrefl _ h.1]
        by_cases hout : BitVec.ofNat 8 k ≠ x ∧ diskLo (BitVec.ofNat 8 k) = lo ∧ diskHi (BitVec.ofNat 8 k) = hi
        · rw [if_pos hout, Function.update_self, if_pos ⟨Nat.lt_succ_self k, hout⟩]
        · rw [if_neg hout, if_neg fun h => hout h.2]
      · have hne : z.toNat ≠ k := fun h => hz (BitVec.eq_of_toNat_eq (h.trans hbyte.symm))
        have hlt : z.toNat < k + 1 ↔ z.toNat < k := by omega
        have hsame : (if BitVec.ofNat 8 k ≠ x ∧ diskLo (BitVec.ofNat 8 k) = lo ∧
            diskHi (BitVec.ofNat 8 k) = hi then Function.update diskHi (BitVec.ofNat 8 k) 0xff
            else diskHi) z = diskHi z := by
          split_ifs
          · exact Function.update_of_ne hz ..
          · rfl
        simp only [hsame, hlt]

section Inserted

variable (s : State) (a : Byte) (x : Fin 4) (c : Bool)

lemma highByte_lt : ¬ 128 ≤ (highByte c).toNat := by
  revert c
  decide

lemma inserted_hi (y : Fin 4) : (s.inserted a (driveNo x) c).diskHi (driveNo y) =
    if y = x then highByte c
    else if s.diskLo (driveNo y) = a ∧ s.diskHi (driveNo y) = highByte c then 0xff
    else s.diskHi (driveNo y) := by
  have hlt : (driveNo y).toNat < 4 := by
    rw [driveNo, BitVec.toNat_ofNat]
    omega
  show takeOut _ a (highByte c) (Function.update s.diskLo (driveNo x) a) 4 _ (driveNo y) = _
  rw [takeOut_apply _ _ _ _ _ (by omega)]
  by_cases hyx : y = x
  · rw [if_pos hyx, hyx, if_neg fun h => h.2.1 rfl, Function.update_self]
  · have hne : driveNo y ≠ driveNo x := mt driveNo_inj.1 hyx
    simp only [if_neg hyx, Function.update_of_ne hne, hlt, hne, ne_eq, not_false_eq_true, true_and]

lemma inserted_mounts :
    (s.inserted a (driveNo x) c).table.mounts = s.table.mounts.put x (highByte c, a) := by
  funext y
  have hhi : (s.inserted a (driveNo x) c).table.hi (driveNo y) = _ := inserted_hi s a x c y
  rw [Table.mounts, hhi, Mounts.put]
  by_cases hyx : y = x
  · subst hyx
    have hlo : (s.inserted a (driveNo y) c).table.lo (driveNo y) = a := Function.update_self ..
    simp only [if_true, highByte_lt, if_false, hlo]
  · have hlo : (s.inserted a (driveNo x) c).table.lo (driveNo y) = s.table.lo (driveNo y) :=
      Function.update_of_ne (mt driveNo_inj.1 hyx) ..
    simp only [if_neg hyx, hlo]
    by_cases hsame : s.table.mounts y = some (highByte c, a)
    · obtain ⟨-, hd⟩ := Table.mounts_eq_some.1 hsame
      have hout : s.diskLo (driveNo y) = a ∧ s.diskHi (driveNo y) = highByte c :=
        ⟨(congrArg Prod.snd hd).symm, (congrArg Prod.fst hd).symm⟩
      rw [if_pos hsame, if_pos hout]
      rfl
    · have hout : ¬ (s.diskLo (driveNo y) = a ∧ s.diskHi (driveNo y) = highByte c) := by
        rintro ⟨hl, hh⟩
        have hhi' : s.table.hi (driveNo y) = highByte c := hh
        have hlo' : s.table.lo (driveNo y) = a := hl
        refine hsame (Table.mounts_eq_some.2 ⟨?_, by rw [hhi', hlo']⟩)
        rw [hhi']
        exact Nat.not_le.1 (highByte_lt c)
      rw [if_neg hsame, if_neg hout]
      rfl

lemma inserted_ok (h : s.table.Ok) : (s.inserted a (driveNo x) c).table.Ok where
  exclusive := by
    rw [inserted_mounts]
    exact h.exclusive.put x _
  agrees y hy := by
    have hlt := Table.mounts_ne_none.1 hy
    have hhi : (s.inserted a (driveNo x) c).table.hi (driveNo y) = _ := inserted_hi s a x c y
    by_cases hyx : y = x
    · subst hyx
      obtain ⟨h1, h2, h3, h4⟩ := inserted_holds s a (driveNo y) c
      exact ⟨(congrArg (~~~ ·) h2).trans h4.symm, (congrArg (~~~ ·) h1).trans h3.symm⟩
    · have hne : driveNo y ≠ driveNo x := mt driveNo_inj.1 hyx
      rw [if_neg hyx] at hhi
      by_cases hout : s.diskLo (driveNo y) = a ∧ s.diskHi (driveNo y) = highByte c
      · rw [hhi, if_pos hout] at hlt
        exact absurd hlt (by decide)
      · rw [if_neg hout] at hhi
        have hstay : s.table.Agrees (driveNo y) := by
          refine h.agrees y (Table.mounts_ne_none.2 ?_)
          rw [hhi] at hlt
          exact hlt
        refine ⟨?_, ?_⟩
        · rw [hhi]
          exact hstay.1.trans (Function.update_of_ne hne ..).symm
        · have hlo : (s.inserted a (driveNo x) c).table.lo (driveNo y) = s.table.lo (driveNo y) :=
            Function.update_of_ne hne ..
          rw [hlo]
          exact hstay.2.trans (Function.update_of_ne hne ..).symm

end Inserted

/-! ## Racks of drives -/

/-- A disk in a drive: its number, the high byte first, whether the copies of the number agree, and whether it
may be written. -/
structure Disk where
  number : Byte × Byte
  sound : Bool
  writable : Bool
deriving DecidableEq

/-- The disks in the four drives. -/
abbrev Rack : Type := Fin 4 → Option Disk

/-- What the table says of the drives. -/
def Table.rack (t : Table) : Rack := fun x =>
  if 128 ≤ (t.hi (driveNo x)).toNat then none
  else some ⟨(t.hi (driveNo x), t.lo (driveNo x)), decide (t.Agrees (driveNo x)),
    decide (t.mark (driveNo x) = 0x54)⟩

namespace Rack

/-- A disk that is found with a status: one from `$80` on is none, and 0 is one that may not be written. -/
def ofStatus (d : Byte × Byte) (status : Byte) : Option Disk :=
  if 128 ≤ status.toNat then none else some ⟨d, true, decide (status ≠ 0)⟩

/-- The disk comes into drive `x`, if its status lets it, and leaves the drive it was in. -/
def insert (g : Rack) (x : Fin 4) (d : Byte × Byte) (status : Byte) : Rack :=
  Function.update (fun y => (g y).filter fun k => k.number ≠ d) x (ofStatus d status)

/-- Nothing is in drive `x`. -/
def clear (g : Rack) (x : Fin 4) : Rack := Function.update g x none

/-- The number in the buffer. -/
def default (buf : ℕ → Byte) (x : Fin 4) : Option (Byte × Byte) :=
  if 128 ≤ (buf (0x0e04 + x.val)).toNat then none else some (buf (0x0e04 + x.val), buf (0x0e00 + x.val))

/-- The disk that a drive is to have: its own, if the copies agree, or the one in the buffer. -/
def claim (opts : Byte) (buf : ℕ → Byte) (g : Rack) (x : Fin 4) : Option (Byte × Byte) :=
  if opts = 0x42 then default buf x
  else (g x).bind fun k => if k.sound then some k.number else default buf x

/-- A disk that several drives claim comes into the first of them. -/
def first (h : Fin 4 → Option (Byte × Byte)) (x : Fin 4) : Option (Byte × Byte) :=
  if ∃ y < x, h y = h x then none else h x

/-- Every drive gets the disk it claims, if its status lets it. -/
def pass (opts : Byte) (buf : ℕ → Byte) (g : Rack) : Rack := fun x =>
  (first (claim opts buf g) x).bind fun d => ofStatus d (buf (statusAddr d.2 (ror d.1 false).2))

end Rack

/-- The drives, those of the table put by, the current drive, and the buffer in which statuses are looked
up. -/
structure Rig where
  drives : Rack
  spare : Rack
  current : Byte
  buffer : ℕ → Byte

/-- What the machine is in a state. -/
def rigOf (s : State × Table) : Rig := ⟨s.1.table.rack, s.2.rack, s.1.curDrv, s.1.cat⟩

/-! ### Going through the drives -/

namespace Table

variable {t u : Table} {x y : Fin 4} {k : ℕ}

lemma driveNo_toNat (x : Fin 4) : (driveNo x).toNat = x.val := by
  rw [driveNo, BitVec.toNat_ofNat]
  omega

lemma rack_none (h : 128 ≤ (t.hi (driveNo x)).toNat) : t.rack x = none := if_pos h

lemma rack_some (h : ¬ 128 ≤ (t.hi (driveNo x)).toNat) : t.rack x = some ⟨(t.hi (driveNo x), t.lo (driveNo x)),
    decide (t.Agrees (driveNo x)), decide (t.mark (driveNo x) = 0x54)⟩ := if_neg h

lemma rack_eject (t : Table) (x : Fin 4) : (t.eject (driveNo x)).rack = t.rack.clear x := by
  funext y
  simp only [rack, eject, Rack.clear, Agrees, Function.update_apply, driveNo_inj]
  split_ifs <;> first | rfl | contradiction

/-- The tables say the same of a drive, and of whether its disk may be written. -/
lemma SameAt.rack (h : SameAt (driveNo x) t u) (hmark : u.mark (driveNo x) = t.mark (driveNo x)) :
    u.rack x = t.rack x := by
  simp only [Table.rack, h.hi, h.lo, h.agrees, hmark]

/-- What a table claims for a drive depends on what it says of that drive. -/
lemma SameAt.claim (h : SameAt (driveNo x) t u) (opts : Byte) (buf : ℕ → Byte) :
    Rack.claim opts buf u.rack x = Rack.claim opts buf t.rack x := by
  simp only [Rack.claim, Table.rack, h.hi, h.lo]
  split_ifs
  · rfl
  · rfl
  · simp only [Option.bind_some, decide_eq_true_iff, h.agrees]

lemma mounts_useDefault (buf : ℕ → Byte) (x : Fin 4) (t : Table) :
    (t.useDefault buf (driveNo x)).mounts x = Rack.default buf x := by
  simp only [mounts, useDefault, Function.update_self, driveNo_toNat, Rack.default]

/-- A drive that is gone through has what it claims, unless a lower one has that. -/
lemma mounts_startDrive (opts : Byte) (buf : ℕ → Byte) (t : Table) (x : Fin 4) :
    (startDrive opts buf (driveNo x) t).mounts x =
      if ∃ y < x, t.mounts y = Rack.claim opts buf t.rack x then none else Rack.claim opts buf t.rack x := by
  have hempty : ∀ w : Table, (w.eject (driveNo x)).mounts x = none := by
    intro w
    rw [mounts_eject, Mounts.clear, Function.update_self]
  -- the lower drives are not touched
  have hpick : ∀ w : Table, (∀ y < x, w.mounts y = t.mounts y) →
      (if (w.hi (driveNo x)).toNat < 128 ∧ w.twinBelow (driveNo x) (driveNo x).toNat then w.eject (driveNo x)
        else w).mounts x = if ∃ y < x, t.mounts y = w.mounts x then none else w.mounts x := by
    intro w hsame
    by_cases hhi : (w.hi (driveNo x)).toNat < 128
    · have hx : w.mounts x = some (w.hi (driveNo x), w.lo (driveNo x)) := mounts_eq_some.2 ⟨hhi, rfl⟩
      have htwin : w.twinBelow (driveNo x) (driveNo x).toNat = true ↔ ∃ y < x, t.mounts y = w.mounts x := by
        rw [twinBelow_iff, driveNo_toNat]
        constructor
        · rintro ⟨i, hi, hh, hl⟩
          have hlower : w.mounts ⟨i, by omega⟩ = some (w.hi (driveNo x), w.lo (driveNo x)) := by
            rw [mounts_eq_some]
            exact ⟨(congrArg BitVec.toNat hh).symm.trans_lt hhi, Prod.ext hh hl⟩
          exact ⟨⟨i, by omega⟩, hi, by rw [← hsame _ hi, hx, hlower]⟩
        · rintro ⟨y, hy, hsome⟩
          rw [← hsame y hy, hx, mounts_eq_some] at hsome
          exact ⟨y.val, hy, congrArg Prod.fst hsome.2, congrArg Prod.snd hsome.2⟩
      by_cases hex : ∃ y < x, t.mounts y = w.mounts x
      · rw [if_pos ⟨hhi, htwin.2 hex⟩, if_pos hex]
        exact hempty w
      · rw [if_neg fun h => hex (htwin.1 h.2), if_neg hex]
    · have hx : w.mounts x = none := if_pos (Nat.not_lt.1 hhi)
      rw [if_neg fun h => hhi h.1, hx, ite_self]
  have hdefault := hpick (t.useDefault buf (driveNo x)) fun y hy => by
    have hne : driveNo y ≠ driveNo x := fun h => hy.ne (driveNo_inj.1 h)
    simp only [mounts, useDefault, Function.update_of_ne hne]
  rw [mounts_useDefault] at hdefault
  by_cases hopts : opts = 0x42
  · simp only [startDrive, Rack.claim, hopts, ne_eq, not_true, false_and, if_false, if_true]
    exact hdefault
  · simp only [startDrive, Rack.claim, hopts, ne_eq, not_false_eq_true, true_and, if_false]
    by_cases hhi : 128 ≤ (t.hi (driveNo x)).toNat
    · rw [if_pos hhi, rack_none hhi, Option.bind_none, ite_self]
      exact hempty t
    · rw [if_neg hhi, rack_some hhi, Option.bind_some]
      by_cases hagrees : t.Agrees (driveNo x)
      · have hown := hpick t fun y _ => rfl
        have hx : t.mounts x = some (t.hi (driveNo x), t.lo (driveNo x)) :=
          mounts_eq_some.2 ⟨Nat.not_le.1 hhi, rfl⟩
        simp only [hagrees, if_true, decide_true]
        rw [hx] at hown
        exact hown
      · simp only [hagrees, if_false, decide_false, Bool.false_eq_true]
        exact hdefault

/-- The lowest of the drives with a claim has it. -/
lemma exists_first {h : Fin 4 → Option (Byte × Byte)} {x : Fin 4} {d : Byte × Byte} :
    (∃ y < x, Rack.first h y = some d) ↔ ∃ y < x, h y = some d := by
  constructor
  · rintro ⟨y, hy, hfirst⟩
    refine ⟨y, hy, ?_⟩
    rw [Rack.first] at hfirst
    split_ifs at hfirst
    exact hfirst
  · rintro ⟨y, hy, hclaim⟩
    induction y using WellFoundedLT.induction with
    | ind y ih =>
        by_cases hlower : ∃ z < y, h z = h y
        · obtain ⟨z, hz, hsame⟩ := hlower
          exact ih z hz (hz.trans hy) (hsame.trans hclaim)
        · exact ⟨y, hy, by rw [Rack.first, if_neg hlower, hclaim]⟩

/-- After the drives below `k` have been gone through, each of them has the disk that it is the first to
claim, and the others are as they were. -/
lemma startDrives_mounts (opts : Byte) (buf : ℕ → Byte) (t : Table) : ∀ k ≤ 4, ∀ x : Fin 4,
    (x.val < k → (startDrives opts buf k t).mounts x = Rack.first (Rack.claim opts buf t.rack) x) ∧
      (k ≤ x.val → SameAt (driveNo x) t (startDrives opts buf k t)) := by
  intro k
  induction k with
  | zero => exact fun _ x => ⟨fun hx => absurd hx (Nat.not_lt_zero _), fun _ => ⟨rfl, rfl, Iff.rfl⟩⟩
  | succ k ih =>
      intro hk x
      have hbelow := ih (by omega)
      set u := startDrives opts buf k t with hu
      set z : Fin 4 := ⟨k, by omega⟩ with hz
      have hstart : startDrives opts buf (k + 1) t = startDrive opts buf (driveNo z) u := rfl
      have hother : x ≠ z → SameAt (driveNo x) u (startDrive opts buf (driveNo z) u) := fun hne =>
        startDrive_other (mt driveNo_inj.1 hne)
      rw [hstart]
      refine ⟨fun hx => ?_, fun hx => ?_⟩
      · rcases Nat.lt_succ_iff_lt_or_eq.1 hx with hlt | heq
        · have hne : x ≠ z := fun h => by rw [h] at hlt; exact Nat.lt_irrefl _ hlt
          rw [(hother hne).mounts]
          exact (hbelow x).1 hlt
        · obtain rfl : x = z := Fin.ext heq
          have hclaim := ((hbelow z).2 le_rfl).claim opts buf
          rw [mounts_startDrive, hclaim, Rack.first]
          cases hd : Rack.claim opts buf t.rack z with
          | none => rw [ite_self, ite_self]
          | some d =>
              have hsame : (∃ y < z, u.mounts y = some d) ↔ ∃ y < z, Rack.claim opts buf t.rack y = some d := by
                refine Iff.trans (exists_congr fun y => and_congr_right fun hy => ?_) exists_first
                rw [(hbelow y).1 hy]
              simp only [hsame]
      · have hne : x ≠ z := fun h => by rw [h] at hx; exact Nat.lt_irrefl _ hx
        have h₁ := (hbelow x).2 (by omega)
        have h₂ := hother hne
        exact ⟨h₂.lo.trans h₁.lo, h₂.hi.trans h₁.hi, h₂.agrees.trans h₁.agrees⟩

/-- The status of the disk in a drive tells what is there. -/
def statusIn (buf : ℕ → Byte) (t : Table) (x : Fin 4) : Option Disk :=
  (t.mounts x).bind fun d => if t.Agrees (driveNo x) then
    Rack.ofStatus d (buf (statusAddr d.2 (ror d.1 false).2)) else none

lemma markDrive_other (buf : ℕ → Byte) (t : Table) {x y : Byte} (h : y ≠ x) :
    SameAt y t (markDrive buf x t) ∧ (markDrive buf x t).mark y = t.mark y := by
  have hsame : ∀ m, SameAt y t { t with mark := m } := fun _ => ⟨rfl, rfl, Iff.rfl⟩
  have heject : ∀ m, SameAt y t { t.eject x with mark := m } := fun m =>
    ⟨rfl, Function.update_of_ne h .., by simp only [Agrees, eject, Function.update_of_ne h]⟩
  simp only [markDrive]
  split_ifs
  · exact ⟨hsame t.mark, rfl⟩
  · exact ⟨heject _, Function.update_of_ne h ..⟩
  · exact ⟨hsame _, Function.update_of_ne h ..⟩
  · exact ⟨hsame _, Function.update_of_ne h ..⟩

lemma markDrive_rack (buf : ℕ → Byte) (x : Fin 4) (t : Table) :
    (markDrive buf (driveNo x) t).rack = Function.update t.rack x (t.statusIn buf x) := by
  funext y
  rw [Function.update_apply]
  by_cases hy : y = x
  · subst hy
    rw [if_pos rfl, statusIn, markDrive]
    by_cases hhi : 128 ≤ (t.hi (driveNo y)).toNat
    · have hnone : t.mounts y = none := if_pos hhi
      rw [if_pos hhi, rack_none hhi, hnone]
      rfl
    · have hsome : t.mounts y = some (t.hi (driveNo y), t.lo (driveNo y)) :=
        mounts_eq_some.2 ⟨Nat.not_le.1 hhi, rfl⟩
      have hgone : 128 ≤ ((t.eject (driveNo y)).hi (driveNo y)).toNat := by
        simp only [eject, Function.update_self]
        decide
      rw [if_neg hhi, hsome, Option.bind_some, Rack.ofStatus]
      by_cases hagrees : t.Agrees (driveNo y)
      · by_cases hstatus : 128 ≤ (buf (statusAddr (t.lo (driveNo y)) (ror (t.hi (driveNo y)) false).2)).toNat
        · rw [if_pos (Or.inr hstatus), if_pos hagrees, if_pos hstatus]
          exact rack_none (t := { t.eject (driveNo y) with mark := _ }) hgone
        · rw [if_neg (by rw [not_or]; exact ⟨not_not.2 hagrees, hstatus⟩), if_pos hagrees, if_neg hstatus]
          have hmark : (if buf (statusAddr (t.lo (driveNo y)) (ror (t.hi (driveNo y)) false).2) = 0 then (0 : Byte)
              else 0x54) = 0x54 ↔ buf (statusAddr (t.lo (driveNo y)) (ror (t.hi (driveNo y)) false).2) ≠ 0 := by
            split_ifs with h
            · exact iff_of_false (by decide) (not_not.2 h)
            · exact iff_of_true rfl h
          have hagrees' : ∀ m, Table.Agrees { t with mark := m } (driveNo y) := fun _ => hagrees
          rw [rack_some]
          · simp only [Function.update_self, hmark]
            rw [decide_eq_true (hagrees' _)]
          · exact hhi
      · rw [if_pos (Or.inl hagrees), if_neg hagrees]
        exact rack_none (t := { t.eject (driveNo y) with mark := _ }) hgone
  · have hne : driveNo y ≠ driveNo x := mt driveNo_inj.1 hy
    obtain ⟨hsame, hmark⟩ := markDrive_other buf t hne
    rw [if_neg hy, hsame.rack hmark]

/-- Marking a drive leaves what is in the others. -/
lemma markDrive_statusIn (buf : ℕ → Byte) {x y : Fin 4} (h : y ≠ x) (t : Table) :
    (markDrive buf (driveNo x) t).statusIn buf y = t.statusIn buf y := by
  obtain ⟨hsame, -⟩ := markDrive_other buf t (mt driveNo_inj.1 h)
  simp only [statusIn, hsame.mounts, hsame.agrees]

lemma markDrives_rack (buf : ℕ → Byte) : ∀ k ≤ 4, ∀ (t : Table) (x : Fin 4),
    (markDrives buf k t).rack x = if x.val < k then t.statusIn buf x else t.rack x := by
  intro k
  induction k with
  | zero => exact fun _ t x => (if_neg (Nat.not_lt_zero _)).symm
  | succ k ih =>
      intro hk t x
      set z : Fin 4 := ⟨k, by omega⟩ with hz
      have hmark : markDrives buf (k + 1) t = markDrives buf k (markDrive buf (driveNo z) t) := rfl
      rw [hmark, ih (by omega), markDrive_rack]
      by_cases hx : x = z
      · subst hx
        rw [if_neg (Nat.lt_irrefl k), Function.update_self, if_pos (Nat.lt_succ_self k)]
      · have hne : x.val ≠ k := fun h => hx (Fin.ext h)
        have hlt : x.val < k + 1 ↔ x.val < k := by omega
        rw [Function.update_of_ne hx, markDrive_statusIn buf hx]
        simp only [hlt]

/-- The code goes through the drives as the machine does. -/
lemma initialise_rack (opts : Byte) (buf : ℕ → Byte) (t : Table) :
    (t.initialise opts buf).rack = t.rack.pass opts buf := by
  funext x
  have hstart := (startDrives_mounts opts buf t 4 le_rfl x).1 x.isLt
  have hok := startDrives_okBelow opts buf t 4 le_rfl
  rw [initialise, markDrives_rack buf 4 le_rfl, if_pos x.isLt, statusIn, Rack.pass, ← hstart]
  cases hd : (startDrives opts buf 4 t).mounts x with
  | none => rfl
  | some d =>
      rw [Option.bind_some, Option.bind_some, if_pos (hok.agrees x x.isLt (by rw [hd]; rintro ⟨⟩))]

end Table

/-! ## Disks put in and looked at -/

section Loading

variable (s : State) (a : Byte) (x : Fin 4) (c : Bool)

/-- The rest of the table when a disk is put in. -/
lemma inserted_rack {y : Fin 4} (h : y ≠ x) : (s.inserted a (driveNo x) c).table.rack y
    = (s.table.rack y).filter fun k => k.number ≠ (highByte c, a) := by
  have hne : driveNo y ≠ driveNo x := mt driveNo_inj.1 h
  have hhi : (s.inserted a (driveNo x) c).table.hi (driveNo y) = _ := inserted_hi s a x c y
  have hlo : (s.inserted a (driveNo x) c).table.lo (driveNo y) = s.table.lo (driveNo y) :=
    Function.update_of_ne hne ..
  have hagrees : (s.inserted a (driveNo x) c).table.hi (driveNo y) = s.table.hi (driveNo y) →
      ((s.inserted a (driveNo x) c).table.Agrees (driveNo y) ↔ s.table.Agrees (driveNo y)) := by
    intro hsame
    have hhiInv : (s.inserted a (driveNo x) c).table.hiInv (driveNo y) = s.table.hiInv (driveNo y) :=
      Function.update_of_ne hne ..
    have hloInv : (s.inserted a (driveNo x) c).table.loInv (driveNo y) = s.table.loInv (driveNo y) :=
      Function.update_of_ne hne ..
    rw [Table.Agrees, Table.Agrees, hsame, hlo, hhiInv, hloInv]
  rw [if_neg h] at hhi
  by_cases hout : s.diskLo (driveNo y) = a ∧ s.diskHi (driveNo y) = highByte c
  · rw [if_pos hout] at hhi
    have hlt : ¬ 128 ≤ (s.table.hi (driveNo y)).toNat := by
      have hh : s.table.hi (driveNo y) = highByte c := hout.2
      rw [hh]
      exact highByte_lt c
    have hnumber : (s.table.hi (driveNo y), s.table.lo (driveNo y)) = (highByte c, a) :=
      Prod.ext hout.2 hout.1
    rw [Table.rack_none (by rw [hhi]; decide), Table.rack_some hlt, Option.filter_some, if_neg]
    simpa using hnumber
  · rw [if_neg hout] at hhi
    have hhi' : (s.inserted a (driveNo x) c).table.hi (driveNo y) = s.table.hi (driveNo y) := hhi
    by_cases hempty : 128 ≤ (s.table.hi (driveNo y)).toNat
    · rw [Table.rack_none (by rw [hhi']; exact hempty), Table.rack_none hempty, Option.filter_none]
    · have hnumber : (s.table.hi (driveNo y), s.table.lo (driveNo y)) ≠ (highByte c, a) := fun h =>
        hout ⟨congrArg Prod.snd h, congrArg Prod.fst h⟩
      have hmark : (s.inserted a (driveNo x) c).table.mark = s.table.mark := rfl
      rw [Table.rack_some (by rw [hhi']; exact hempty), Table.rack_some hempty, Option.filter_some,
        if_pos (decide_eq_true hnumber), hhi', hlo, hmark]
      simp only [hagrees hhi']

/-- `loaddisk` puts the disk in, or leaves the drive empty. -/
lemma loaddisk_rack : ∃ r t, Calls.answer (loaddisk a (driveNo x) c) s = (r, t) ∧ t.curDrv = s.curDrv ∧
    t.cat = s.cat ∧ t.table.rack = s.table.rack.insert x (highByte c, a) (s.cat (statusAddr a c)) ∧
    (s.table.Ok → t.table.Ok) ∧
    r = if 128 ≤ (s.cat (statusAddr a c)).toNat then
      .error (if s.cat (statusAddr a c) + 1 = 0 then .diskNotValid else .diskNotFormatted) else .ok () := by
  set u := s.inserted a (driveNo x) c with hu
  have hok : s.table.Ok → u.table.Ok := inserted_ok s a x c
  have hrack : ∀ {y : Fin 4}, y ≠ x → u.table.rack y = _ := fun hy => inserted_rack s a x c hy
  have hrun : (loaddisk a (driveNo x) c).run s = _ :=
    (Prog.run_bind_ok (Prog.run_modify _ s)).trans
      ((Prog.run_bind_ok (fetchTable_run _ _)).trans (Prog.run_bind_ok (Prog.run_get _)))
  have hcat : u.cat = s.cat := rfl
  rw [← hu, hcat] at hrun
  by_cases hstatus : 128 ≤ (s.cat (statusAddr a c)).toNat
  · rw [if_pos hstatus] at hrun
    refine ⟨_, _, Calls.answer_err hrun, rfl, rfl, ?_,
      fun h => (hok h).shrinks (Table.shrinks_eject u.table (driveNo x)), (if_pos hstatus).symm⟩
    refine (Table.rack_eject u.table x).trans ?_
    funext y
    rw [Rack.clear, Rack.insert, Rack.ofStatus, if_pos hstatus]
    by_cases hy : y = x
    · rw [hy, Function.update_self, Function.update_self]
    · rw [Function.update_of_ne hy, Function.update_of_ne hy, hrack hy]
  · rw [if_neg hstatus] at hrun
    refine ⟨_, _, Calls.answer_ok hrun, rfl, rfl, ?_, fun h => ⟨(hok h).exclusive, (hok h).agrees⟩,
      (if_neg hstatus).symm⟩
    funext y
    rw [Rack.insert, Rack.ofStatus, if_neg hstatus]
    by_cases hy : y = x
    · subst hy
      obtain ⟨h1, h2, h3, h4⟩ := inserted_holds s a (driveNo y) c
      rw [Function.update_self]
      have hhi : u.diskHi (driveNo y) = highByte c := h2
      have hlt : ¬ 128 ≤ (u.diskHi (driveNo y)).toNat := by
        rw [hhi]
        exact highByte_lt c
      refine (Table.rack_some hlt).trans ?_
      have hmark : (if s.cat (statusAddr a c) = 0 then (0 : Byte) else 0x54) = 0x54
          ↔ s.cat (statusAddr a c) ≠ 0 := by
        split_ifs with h
        · exact iff_of_false (by decide) (not_not.2 h)
        · exact iff_of_true rfl h
      have hagrees : u.table.Agrees (driveNo y) :=
        ⟨(congrArg (~~~ ·) h2).trans h4.symm, (congrArg (~~~ ·) h1).trans h3.symm⟩
      have hlo : u.diskLo (driveNo y) = a := h1
      simp only [State.table, Function.update_self, hmark, hhi, hlo]
      congr 2
      exact decide_eq_true hagrees
    · have hne : driveNo y ≠ driveNo x := mt driveNo_inj.1 hy
      rw [Function.update_of_ne hy, ← hrack hy]
      simp only [Table.rack, State.table, Table.Agrees, Function.update_of_ne hne]
      rfl

end Loading

namespace Rack

/-- What a write finds in drive `x`; a disk whose numbers do not agree is taken out. -/
def look (g : Rack) (x : Fin 4) : Except Err Unit × Rack :=
  match g x with
  | none => (.error .noDisk, g)
  | some k =>
      if k.sound = false then (.error .noDisk, g.clear x)
      else if k.writable then (.ok (), g)
      else (.error .diskReadOnly, g)

end Rack

/-- `$aa2d` looks at the drive as the machine does. -/
lemma checkWrite_rack (s : State) (x : Fin 4) : ∃ t, Calls.answer (checkWrite (driveNo x)) s
      = ((s.table.rack.look x).1, t) ∧ t.curDrv = s.curDrv ∧ t.cat = s.cat ∧
    t.table.rack = (s.table.rack.look x).2 ∧ (s.table.Ok → t.table.Ok) := by
  have hnot : driveNo x ≠ 0xff := by
    revert x
    decide
  have hrun : (checkWrite (driveNo x)).run s = _ := Prog.run_bind_ok (Prog.run_get s)
  by_cases hhi : 128 ≤ (s.table.hi (driveNo x)).toNat
  · have hhi' : driveNo x = 0xff ∨ 128 ≤ (s.diskHi (driveNo x)).toNat := Or.inr hhi
    rw [if_pos hhi'] at hrun
    rw [Rack.look, Table.rack_none hhi]
    exact ⟨_, Calls.answer_err hrun, rfl, rfl, rfl, id⟩
  · have hhi' : ¬ (driveNo x = 0xff ∨ 128 ≤ (s.diskHi (driveNo x)).toNat) := not_or.2 ⟨hnot, hhi⟩
    rw [if_neg hhi'] at hrun
    rw [Rack.look, Table.rack_some hhi]
    by_cases hagrees : s.table.Agrees (driveNo x)
    · have hgood : ¬ (~~~ s.diskHi (driveNo x) ≠ s.diskHiInv (driveNo x) ∨
          ~~~ s.diskLo (driveNo x) ≠ s.diskLoInv (driveNo x)) := by
        rw [not_or, not_not, not_not]
        exact hagrees
      rw [if_neg hgood] at hrun
      simp only [decide_eq_false_iff_not, hagrees, not_true, if_false, decide_eq_true_iff]
      by_cases hmark : s.diskMark (driveNo x) = 0x54
      · have hmark' : s.table.mark (driveNo x) = 0x54 := hmark
        rw [if_pos hmark] at hrun
        rw [if_pos hmark']
        exact ⟨_, Calls.answer_ok hrun, rfl, rfl, rfl, id⟩
      · have hmark' : ¬ s.table.mark (driveNo x) = 0x54 := hmark
        rw [if_neg hmark] at hrun
        rw [if_neg hmark']
        exact ⟨_, Calls.answer_err hrun, rfl, rfl, rfl, id⟩
    · have hbad : ~~~ s.diskHi (driveNo x) ≠ s.diskHiInv (driveNo x) ∨
          ~~~ s.diskLo (driveNo x) ≠ s.diskLoInv (driveNo x) := by
        rw [Table.Agrees, not_and_or] at hagrees
        exact hagrees
      rw [if_pos hbad] at hrun
      simp only [decide_eq_false_iff_not, hagrees, not_false_eq_true, if_true]
      exact ⟨_, Calls.answer_err hrun, rfl, rfl, Table.rack_eject s.table x,
        fun h => h.shrinks (Table.shrinks_eject s.table _)⟩

/-! ## Every sequence of commands -/

/-- What happens to the drive table. -/
inductive DriveOp where
  -- the filing system starts
  | splash
  -- the drives are gone through, with `start_opts`
  | pass (opts : Byte)
  | dswap
  | din (line : Byte → Byte) (y : Byte) (named : Except Err (Byte × Bool))
  | dboot (line : Byte → Byte) (y : Byte) (named : Except Err (Byte × Bool))
  -- a write looks at the table first
  | check (x : Fin 4)
  -- the filing system goes on to a state with the same drive table
  | other (t : State)

/-- The drive that a number is of. -/
def driveOf (x : Byte) : Fin 4 := ⟨x.toNat % 4, Nat.mod_lt _ (by decide)⟩

lemma driveNo_driveOf {x : Byte} (h : x.toNat < 4) : driveNo (driveOf x) = x := by
  have hof : driveOf x = ⟨x.toNat, h⟩ := Fin.ext (Nat.mod_eq_of_lt h)
  rw [hof]
  exact driveNo_of_lt h

/-- The disk that is asked for comes into the drive that is asked for. -/
def Rig.insert (g : Rig) : Except Err (Byte × Byte × Bool) → Except Err Unit × Rig
  | .error e => (.error e, g)
  | .ok (x, a, c) =>
      let status := g.buffer (statusAddr a c)
      (if 128 ≤ status.toNat then .error (if status + 1 = 0 then .diskNotValid else .diskNotFormatted) else .ok (),
        { g with drives := g.drives.insert (driveOf x) (highByte c, a) status })

namespace DriveOp

/-- The routine behind it. -/
def call : DriveOp → DriveProg Unit
  | splash => Prog.beside printSplash
  | pass opts => initDrives opts
  | dswap => cmdDswap
  | din line y named => cmdDin line y named
  | dboot line y named => cmdDboot line y named
  | check x => Prog.beside (checkWrite (driveNo x))
  | other t => Prog.modify fun s => (t.withTable s.1.table, s.2)

/-- The current drive stays one of the four. -/
def Keeps : DriveOp → Prop
  | other t => t.curDrv.toNat < 4
  | _ => True

/-- What it does to the drives. -/
def act (g : Rig) : DriveOp → Except Err Unit × Rig
  | splash => g.insert (.ok (0, 0, false))
  | pass opts => (.ok (), { g with drives := g.drives.pass opts g.buffer })
  | dswap => (.ok (), { g with drives := g.spare, spare := g.drives })
  | din line y named => g.insert (driveAndDisk line named g.current y)
  | dboot line y named => g.insert ((bootDisk line named y).map fun p => (g.current, p))
  | check x => ((g.drives.look x).1, { g with drives := (g.drives.look x).2 })
  | other t => (.ok (), { g with current := t.curDrv, buffer := t.cat })

end DriveOp

/-- Both tables are in order. -/
def TablesOk (s : State × Table) : Prop := s.1.table.Ok ∧ s.2.Ok

/-- A command has been answered as the machine answers it, and has kept what order there was. -/
structure Driven (s : State × Table) (op : DriveOp) (r : Except Err Unit) (t : State × Table) : Prop where
  act : op.act (rigOf s) = (r, rigOf t)
  drive : t.1.curDrv.toNat < 4
  keeps : op ≠ .dswap → t.2 = s.2 ∧ (s.1.table.Ok → t.1.table.Ok)
  swaps : op = .dswap → t.1.table = s.2 ∧ t.2 = s.1.table

lemma Driven.tablesOk {s t : State × Table} {op : DriveOp} {r : Except Err Unit} (h : Driven s op r t)
    (hs : TablesOk s) : TablesOk t := by
  by_cases hop : op = .dswap
  · obtain ⟨htable, hspare⟩ := h.swaps hop
    exact ⟨htable ▸ hs.2, hspare ▸ hs.1⟩
  · obtain ⟨hspare, htable⟩ := h.keeps hop
    exact ⟨htable hs.1, hspare ▸ hs.2⟩

lemma driveAndDisk_lt {line : Byte → Byte} {named : Except Err (Byte × Bool)} {d y x a : Byte} {c : Bool}
    (hd : d.toNat < 4) (h : driveAndDisk line named d y = .ok (x, a, c)) : x.toNat < 4 := by
  have hmap : ∀ (r : Except Err (Byte × Bool)) (z : Byte), z.toNat < 4 →
      (r.map fun p => (z, p)) = .ok (x, a, c) → x.toNat < 4 := by
    intro r z hz hr
    cases r with
    | error e => cases hr
    | ok p =>
        cases hr
        exact hz
  unfold driveAndDisk at h
  split at h
  · split at h
    · cases h
    · split at h
      · exact hmap _ d hd h
      · split at h
        · cases h
        · split_ifs at h with h1 h2
          · cases h
            exact hd
          · exact hmap _ _ (by omega) h
  · cases h

/-- A command that asks for a disk. -/
lemma loaddisk_driven {s : State × Table} (hd : s.1.curDrv.toNat < 4) {op : DriveOp} (hop : op ≠ .dswap)
    {x a : Byte} {c : Bool} (hx : x.toNat < 4) (hact : op.act (rigOf s) = (rigOf s).insert (.ok (x, a, c))) :
    Driven s op (Calls.answer (Prog.beside (loaddisk a x c)) s).1
      (Calls.answer (Prog.beside (loaddisk a x c)) s).2 := by
  obtain ⟨r, t, hanswer, hdrv, hcat, hrack, hok, hr⟩ := loaddisk_rack s.1 a (driveOf x) c
  rw [driveNo_driveOf hx] at hanswer
  rw [Calls.answer_beside, hanswer]
  refine ⟨hact.trans ?_, hdrv ▸ hd, fun _ => ⟨rfl, hok⟩, fun h => absurd h hop⟩
  simp only [Rig.insert, rigOf, hrack, hdrv, hcat, hr]
  rfl

/-- A command whose line is wrong. -/
lemma badArgs_driven {s : State × Table} (hd : s.1.curDrv.toNat < 4) {op : DriveOp} (hop : op ≠ .dswap) {e : Err}
    (hact : op.act (rigOf s) = (rigOf s).insert (.error e)) : Driven s op (.error e) s where
  act := hact
  drive := hd
  keeps _ := ⟨rfl, id⟩
  swaps h := absurd h hop

lemma initDrives_run (opts : Byte) (s : State × Table) : (initDrives opts).run s
    = .ok () (s.1.withTable (s.1.table.initialise opts s.1.cat), s.2) := Prog.run_modify _ s

/-- Every command does to the drives what it should. -/
lemma driveOp_driven {s : State × Table} (hd : s.1.curDrv.toNat < 4) {op : DriveOp} (hop : op.Keeps) :
    Driven s op (Calls.answer op.call s).1 (Calls.answer op.call s).2 := by
  cases op with
  | splash => exact loaddisk_driven hd (by rintro ⟨⟩) (x := 0) (by decide) rfl
  | pass opts =>
      have hok := Table.ok_initialise opts s.1.cat s.1.table
      have hrack := Table.initialise_rack opts s.1.cat s.1.table
      rw [DriveOp.call, Calls.answer_ok (initDrives_run opts s)]
      generalize s.1.table.initialise opts s.1.cat = u at hok hrack ⊢
      refine ⟨?_, hd, fun _ => ⟨rfl, fun _ => hok⟩, by rintro ⟨⟩⟩
      simp only [DriveOp.act, rigOf]
      rw [← hrack]
      rfl
  | dswap => exact ⟨rfl, hd, fun h => absurd rfl h, fun _ => ⟨rfl, rfl⟩⟩
  | other t => exact ⟨rfl, hop, fun _ => ⟨rfl, id⟩, by rintro ⟨⟩⟩
  | check x =>
      obtain ⟨t, hanswer, hdrv, hcat, hrack, hok⟩ := checkWrite_rack s.1 x
      rw [DriveOp.call, Calls.answer_beside, hanswer]
      refine ⟨?_, hdrv ▸ hd, fun _ => ⟨rfl, hok⟩, by rintro ⟨⟩⟩
      simp only [DriveOp.act, rigOf, hrack, hdrv, hcat]
  | din line y named =>
      rcases hargs : driveAndDisk line named s.1.curDrv y with e | ⟨x, a, c⟩
      · have hrun : (cmdDin line y named).run s = .err e s := by
          rw [cmdDin, Prog.run_bind_ok (Prog.run_get s), hargs]
          rfl
        rw [DriveOp.call, Calls.answer_err hrun]
        exact badArgs_driven hd (by rintro ⟨⟩) (congrArg (rigOf s).insert hargs)
      · have hrun : Calls.answer (cmdDin line y named) s = Calls.answer (Prog.beside (loaddisk a x c)) s := by
          rw [Calls.answer, cmdDin, Prog.run_bind_ok (Prog.run_get s), hargs]
          rfl
        rw [DriveOp.call, hrun]
        exact loaddisk_driven hd (by rintro ⟨⟩) (driveAndDisk_lt hd hargs) (congrArg (rigOf s).insert hargs)
  | dboot line y named =>
      rcases hargs : bootDisk line named y with e | ⟨a, c⟩
      · have hrun : (cmdDboot line y named).run s = .err e s := by
          rw [cmdDboot, Prog.run_bind_ok (Prog.run_get s), hargs]
          rfl
        rw [DriveOp.call, Calls.answer_err hrun]
        exact badArgs_driven hd (by rintro ⟨⟩) (by rw [DriveOp.act, hargs]; rfl)
      · have hrun : Calls.answer (cmdDboot line y named) s
            = Calls.answer (Prog.beside (loaddisk a s.1.curDrv c)) s := by
          rw [Calls.answer, cmdDboot, Prog.run_bind_ok (Prog.run_get s), hargs]
          rfl
        rw [DriveOp.call, hrun]
        exact loaddisk_driven hd (by rintro ⟨⟩) hd (by rw [DriveOp.act, hargs]; rfl)

/-- What every command keeps, every sequence keeps. -/
lemma drives_run (Inv : State × Table → Prop) (ok : DriveOp → Prop)
    (hInv : ∀ t op, t.1.curDrv.toNat < 4 → Inv t → op.Keeps → ok op → Inv (Calls.answer op.call t).2)
    {l : List DriveOp} (hl : ∀ op ∈ l, op.Keeps) (hok : ∀ op ∈ l, ok op) {s : State × Table}
    (hd : s.1.curDrv.toNat < 4) (hs : Inv s) :
    (Calls.answers DriveOp.call l s).1 = (Calls.replies DriveOp.act l (rigOf s)).1 ∧
      rigOf (Calls.answers DriveOp.call l s).2 = (Calls.replies DriveOp.act l (rigOf s)).2 ∧
      Inv (Calls.answers DriveOp.call l s).2 := by
  have hcall : Calls.Simulates DriveOp.call (fun _ op => op.Keeps ∧ ok op) DriveOp.act
      (fun g t => g = rigOf t ∧ t.1.curDrv.toNat < 4 ∧ Inv t) := by
    rintro g t op ⟨rfl, ht, hi⟩ ⟨hop, hopok⟩
    have hdriven := driveOp_driven ht hop
    rw [hdriven.act]
    exact ⟨rfl, rfl, hdriven.drive, hInv t op ht hi hop hopok⟩
  obtain ⟨hanswers, hrig, -, hinv⟩ := hcall.run l (a := rigOf s) ⟨rfl, hd, hs⟩
    (Calls.allowed_of_forall id l (fun op hop => ⟨hl op hop, hok op hop⟩) _)
  exact ⟨hanswers, hrig.symm, hinv⟩

/-- Tables in order stay in order. -/
lemma tablesOk_run {l : List DriveOp} (hl : ∀ op ∈ l, op.Keeps) {s : State × Table}
    (hd : s.1.curDrv.toNat < 4) (hs : TablesOk s) : TablesOk (Calls.answers DriveOp.call l s).2 :=
  (drives_run TablesOk (fun _ => True)
    (fun _ _ ht hinv hop _ => (driveOp_driven ht hop).tablesOk hinv) hl (fun _ _ => trivial) hd hs).2.2

/-- Going through the drives puts the table in order, and leaves the other one. -/
lemma pass_ok {s : State × Table} (opts : Byte) (hd : s.1.curDrv.toNat < 4) :
    (Calls.answer (DriveOp.pass opts).call s).2.1.table.Ok ∧
      (Calls.answer (DriveOp.pass opts).call s).2.1.curDrv.toNat < 4 ∧
      (Calls.answer (DriveOp.pass opts).call s).2.2 = s.2 := by
  have hok := Table.ok_initialise opts s.1.cat s.1.table
  rw [DriveOp.call, Calls.answer_ok (initDrives_run opts s)]
  generalize s.1.table.initialise opts s.1.cat = u at hok ⊢
  exact ⟨hok, hd, rfl⟩

/-- **No disk comes into two drives.**  From any memory, every sequence of starts, `*DIN`, `*DBOOT`,
`*DSWAP`, passes through the drives and writes, with whatever else is done between them, is answered as a
machine of four drives and four put by answers it, and does to them what the machine does.  If no disk is in
two drives at the start, in neither table, then none is at the end; whatever was there at the start, that is
so after the drives have been gone through as long as `*DSWAP` is not used, and after that has been done to
both tables it stays so. -/
theorem drives_refine (s : State × Table) (hd : s.1.curDrv.toNat < 4) (l : List DriveOp)
    (hl : ∀ op ∈ l, op.Keeps) (opts opts' : Byte) :
    (Calls.answers DriveOp.call l s).1 = (Calls.replies DriveOp.act l (rigOf s)).1 ∧
      rigOf (Calls.answers DriveOp.call l s).2 = (Calls.replies DriveOp.act l (rigOf s)).2 ∧
      (TablesOk s → TablesOk (Calls.answers DriveOp.call l s).2) ∧
      ((∀ op ∈ l, op ≠ .dswap) → (Calls.answers DriveOp.call (.pass opts :: l) s).2.1.table.Ok) ∧
      TablesOk (Calls.answers DriveOp.call (.pass opts :: .dswap :: .pass opts' :: l) s).2 := by
  have hrun := drives_run (fun _ => True) (fun _ => True) (fun _ _ _ _ _ _ => trivial) hl (fun _ _ => trivial)
    hd trivial
  refine ⟨hrun.1, hrun.2.1, tablesOk_run hl hd, fun hno => ?_, ?_⟩
  · obtain ⟨hok, hd', -⟩ := pass_ok opts hd
    exact (drives_run (fun t => t.1.table.Ok) (fun op => op ≠ .dswap)
      (fun t op ht hinv hop hne => ((driveOp_driven ht hop).keeps hne).2 hinv) hl hno hd' hok).2.2
  · -- what a pass does for one table, it does for the other
    obtain ⟨hok, hd₁, -⟩ := pass_ok opts hd
    set s₁ := (Calls.answer (DriveOp.pass opts).call s).2
    have hswap := driveOp_driven (s := s₁) hd₁ (show DriveOp.dswap.Keeps from trivial)
    set s₂ := (Calls.answer DriveOp.dswap.call s₁).2
    obtain ⟨hok', hd₃, hspare⟩ := pass_ok opts' hswap.drive
    refine tablesOk_run hl hd₃ ⟨hok', ?_⟩
    rw [hspare, (hswap.swaps rfl).2]
    exact hok

/-- Disk 0 in drive 0 and in no other, with a status for every disk that lets it be written. -/
def oneMounted : State × Table :=
  let s : State := { filledBuffer 1 with diskHi := fun x => if x = 0 then 0 else 0xff }
  (s, s.table)

lemma oneMounted_ok : TablesOk oneMounted := by
  have hok : oneMounted.2.Ok := by
    have hzero : ∀ (x : Fin 4) d, oneMounted.2.mounts x = some d → x = 0 := by
      intro x d hd
      by_contra hne
      have hx : driveNo x ≠ driveNo 0 := mt driveNo_inj.1 hne
      have hff : oneMounted.2.hi (driveNo x) = 0xff := if_neg hx
      rw [Table.mounts, hff] at hd
      cases hd
    refine ⟨fun x y d hx hy => (hzero x d hx).trans (hzero y d hy).symm, fun x hx => ?_⟩
    obtain ⟨d, hd⟩ := Option.ne_none_iff_exists'.1 hx
    obtain rfl := hzero x d hd
    exact ⟨rfl, rfl⟩
  exact ⟨hok, hok⟩

/-- Disk 7 is put in, written to, put by, and a write to a drive without a disk refused. -/
def dinAndSwap : List DriveOp :=
  [.din sevenLine 0 (.error .syntaxError), .check 0, .dswap, .splash, .check 1]

/-- From drives that are in order, and from a memory with disk 0 in all of them. -/
theorem dinAndSwap_refine :
    (TablesOk oneMounted ∧
      (Calls.answers DriveOp.call dinAndSwap oneMounted).1
        = [.ok (), .ok (), .ok (), .ok (), .error .noDisk] ∧
      rigOf (Calls.answers DriveOp.call dinAndSwap oneMounted).2
        = (Calls.replies DriveOp.act dinAndSwap (rigOf oneMounted)).2 ∧
      TablesOk (Calls.answers DriveOp.call dinAndSwap oneMounted).2) ∧
    ¬ (filledBuffer 1).table.Ok ∧
      (Calls.answers DriveOp.call [.pass 0x61, .splash, .check 0] (filledBuffer 1, (filledBuffer 1).table)).2.1.table.Ok := by
  obtain ⟨hanswers, hrig, hok, -⟩ := drives_refine oneMounted (by decide) dinAndSwap (fun op hop => by
    simp only [dinAndSwap, List.mem_cons, List.not_mem_nil, or_false] at hop
    rcases hop with rfl | rfl | rfl | rfl | rfl <;> trivial) 0x61 0x61
  obtain ⟨-, -, -, hpass, -⟩ := drives_refine (filledBuffer 1, (filledBuffer 1).table) (by decide)
    [.splash, .check 0] (fun op hop => by
      simp only [List.mem_cons, List.not_mem_nil, or_false] at hop
      rcases hop with rfl | rfl <;> trivial) 0x61 0x61
  refine ⟨⟨oneMounted_ok, hanswers.trans ?_, hrig, hok oneMounted_ok⟩, fun h => ?_, hpass fun op hop => ?_⟩
  · decide +kernel
  · have htwice := h.exclusive 0 1 (0, 0) rfl rfl
    exact absurd htwice (by decide)
  · simp only [List.mem_cons, List.not_mem_nil, or_false] at hop
    rcases hop with rfl | rfl <;> rintro ⟨⟩

end Udfs.Rom
