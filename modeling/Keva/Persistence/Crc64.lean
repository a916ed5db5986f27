import Keva.Lib.CrcLinear
import Keva.Persistence.FdWriter
import Keva.Persistence.RdbGrammar

/-!
# The two checksums of a snapshot

`rdb_save.cpp` and `rdb_load.cpp` have a table each, which the first use fills, and a loop each. The
writer sums up what a `write` took and the reader what a `read` gave. However the bytes are cut, the
two registers are the checksum that the bits give one by one, and damage to 64 consecutive bits
changes it.
-/

namespace Keva

open rdb

/-- The static table of a file and its flag. -/
structure Crc64Table where
  entries : Vector UInt64 256
  initialized : Bool
  filled : initialized = true → ∀ i, entries.get i = Crc.tableEntry poly (UInt64.ofNat i)

namespace Crc64Table

/-- Before the first use. -/
def zeroed : Crc64Table := ⟨Vector.replicate 256 0, false, nofun⟩

def fillEntry (entries : Vector UInt64 256) (i : Fin 256) : Vector UInt64 256 :=
  entries.set i (Nat.repeat (Crc.shift poly) 8 (UInt64.ofNat i))

theorem get_foldl_fillEntry (is : List (Fin 256)) (entries : Vector UInt64 256) (i : Fin 256) :
    (is.foldl fillEntry entries).get i =
      if i ∈ is then Crc.tableEntry poly (UInt64.ofNat i) else entries.get i := by
  induction is generalizing entries with
  | nil => rfl
  | cons j is ih =>
      rw [List.foldl_cons, ih]
      by_cases hmem : i ∈ is
      · rw [if_pos hmem, if_pos (List.mem_cons_of_mem j hmem)]
      · rw [if_neg hmem]
        by_cases hij : i = j
        · subst hij
          rw [if_pos List.mem_cons_self]
          exact Vector.getElem_set_self i.isLt
        · rw [if_neg (List.not_mem_cons_of_ne_of_not_mem hij hmem)]
          exact Vector.getElem_set_ne j.isLt i.isLt fun h => hij (Fin.ext h.symm)

/-- The loop that both files have. -/
def fill (t : Crc64Table) : Crc64Table :=
  if t.initialized then t
  else
    { entries := (List.finRange 256).foldl fillEntry t.entries
      initialized := true
      filled := fun _ i => by rw [get_foldl_fillEntry, if_pos (List.mem_finRange i)] }

def initCrc64Table (t : Crc64Table) : Crc64Table := t.fill

def ensureCrc64Table (t : Crc64Table) : Crc64Table := t.fill

theorem toNat_and_mask_lt (c : UInt64) : (c &&& 0xFF).toNat < 256 := by
  rw [UInt64.toNat_and]
  exact Nat.and_lt_two_pow c.toNat (by decide : 0xFF < 2 ^ 8)

def step (t : Crc64Table) (c : UInt64) (b : UInt8) : UInt64 :=
  t.entries.get ⟨((c ^^^ b.toUInt64) &&& 0xFF).toNat, toNat_and_mask_lt _⟩ ^^^ (c >>> 8)

/-- `crc64_update` of `rdb_save.cpp`, with the table as it leaves it. -/
def crc64Update (t : Crc64Table) (crc : UInt64) (data : Bytes) : Crc64Table × UInt64 :=
  let t := t.initCrc64Table
  (t, ~~~(data.foldl t.step (~~~crc)))

end Crc64Table

/-- The table of the file with the register of the writer or the reader. -/
structure CrcState where
  table : Crc64Table
  crcState : UInt64

def RdbWriter.updateCrc (s : CrcState) (data : Bytes) : CrcState :=
  let (table, crc) := s.table.crc64Update s.crcState data
  ⟨table, crc⟩

/-- The reader works on its register in place. -/
def RdbReader.updateCrc (s : CrcState) (data : Bytes) : CrcState :=
  let s : CrcState := ⟨s.table.ensureCrc64Table, ~~~s.crcState⟩
  let s := data.foldl (fun s b => { s with crcState := s.table.step s.crcState b }) s
  { s with crcState := ~~~s.crcState }

namespace Crc64Table

variable (t : Crc64Table)

theorem initialized_fill : t.fill.initialized = true := by
  unfold fill
  split_ifs with h
  · exact h
  · rfl

theorem fill_fill : t.fill.fill = t.fill := if_pos t.initialized_fill

theorem step_fill (c : UInt64) (b : UInt8) : t.fill.step c b = Crc.updateByte poly c b := by
  unfold step Crc.updateByte
  rw [t.fill.filled t.initialized_fill, UInt64.ofNat_toNat]

theorem crc64Update_eq (crc : UInt64) (data : Bytes) :
    t.crc64Update crc data = (t.fill, rdb.crc64Update crc data) := by
  have hstep : t.fill.step = Crc.updateByte poly := by
    funext c b
    exact t.step_fill c b
  unfold crc64Update initCrc64Table rdb.crc64Update Crc.update
  dsimp only
  rw [hstep]

end Crc64Table

theorem RdbWriter.updateCrc_eq (s : CrcState) (data : Bytes) :
    RdbWriter.updateCrc s data = ⟨s.table.fill, crc64Update s.crcState data⟩ := by
  unfold RdbWriter.updateCrc
  rw [Crc64Table.crc64Update_eq]

theorem RdbReader.foldl_step (t : Crc64Table) (c : UInt64) (data : Bytes) :
    data.foldl (fun s b => { s with crcState := s.table.step s.crcState b })
      (⟨t.fill, c⟩ : CrcState) = ⟨t.fill, data.foldl (Crc.updateByte poly) c⟩ := by
  induction data generalizing c with
  | nil => rfl
  | cons b data ih => rw [List.foldl_cons, List.foldl_cons, ih, t.step_fill]

theorem RdbReader.updateCrc_eq (s : CrcState) (data : Bytes) :
    RdbReader.updateCrc s data = ⟨s.table.fill, crc64Update s.crcState data⟩ := by
  unfold RdbReader.updateCrc Crc64Table.ensureCrc64Table
  dsimp only
  rw [RdbReader.foldl_step]
  rfl

/-- What a `write` took is summed up. -/
theorem FdWriter.crcState_accept (f : FdWriter) (t : Crc64Table) (chunk : Bytes) :
    (f.accept chunk).writer.crcState =
      (RdbWriter.updateCrc ⟨t, f.writer.crcState⟩ chunk).crcState := by
  rw [RdbWriter.updateCrc_eq]
  rfl

/-- What has been read is summed up. -/
theorem RdbReader.crcState_readBytes {r r' : RdbReader} {len : ℕ} {bytes : Bytes}
    (h : readBytes len r = .ok (bytes, r')) (t : Crc64Table) :
    r'.crcState = (RdbReader.updateCrc ⟨t, r.crcState⟩ bytes).crcState := by
  rw [RdbReader.updateCrc_eq]
  unfold readBytes at h
  split_ifs at h
  · cases h
    rfl
  · cases h

theorem foldl_updateCrc {updateCrc : CrcState → Bytes → CrcState}
    (h : ∀ s data, (updateCrc s data).crcState = crc64Update s.crcState data) (s : CrcState)
    (cut : List Bytes) :
    (cut.foldl updateCrc s).crcState = crc64Update s.crcState cut.flatten := by
  rw [← List.foldl_hom CrcState.crcState fun s data => (h s data).symm]
  exact Crc.foldl_update poly s.crcState cut

theorem RdbWriter.crcState_foldl (s : CrcState) (cut : List Bytes) :
    (cut.foldl RdbWriter.updateCrc s).crcState = crc64Update s.crcState cut.flatten := by
  apply foldl_updateCrc
  intro s data
  rw [RdbWriter.updateCrc_eq]

theorem RdbReader.crcState_foldl (s : CrcState) (cut : List Bytes) :
    (cut.foldl RdbReader.updateCrc s).crcState = crc64Update s.crcState cut.flatten := by
  apply foldl_updateCrc
  intro s data
  rw [RdbReader.updateCrc_eq]

theorem Crc64Table.crc64Update_append (t : Crc64Table) (crc : UInt64) (data data' : Bytes) :
    (t.crc64Update crc data).1.crc64Update (t.crc64Update crc data).2 data' =
      t.crc64Update crc (data ++ data') := by
  rw [crc64Update_eq, crc64Update_eq, crc64Update_eq, t.fill_fill]
  exact congrArg _ (Crc.update_append ..)

/-- Writer and reader have the checksum that the bits give one by one, whatever state their tables
are in and however each of them cuts the bytes. -/
theorem updateCrc_of_flatten_eq (t t' : Crc64Table) {cut cut' : List Bytes} {b : Bytes}
    (hcut : cut.flatten = b) (hcut' : cut'.flatten = b) :
    (cut.foldl RdbWriter.updateCrc ⟨t, 0⟩).crcState =
        (cut'.foldl RdbReader.updateCrc ⟨t', 0⟩).crcState ∧
      (cut.foldl RdbWriter.updateCrc ⟨t, 0⟩).crcState = Crc.bitwise poly 0 b ∧
      (cut'.foldl RdbReader.updateCrc ⟨t', 0⟩).crcState = Crc.bitwise poly 0 b ∧
      ∀ c a a', (t.crc64Update c a).1.crc64Update (t.crc64Update c a).2 a' =
        t.crc64Update c (a ++ a') := by
  have hwriter := RdbWriter.crcState_foldl ⟨t, 0⟩ cut
  have hreader := RdbReader.crcState_foldl ⟨t', 0⟩ cut'
  rw [hcut, crc64Update, Crc.update_eq_bitwise] at hwriter
  rw [hcut', crc64Update, Crc.update_eq_bitwise] at hreader
  exact ⟨hwriter.trans hreader.symm, hwriter, hreader, t.crc64Update_append⟩

theorem updateCrc_of_flatten_eq_of_bytes :
    ([[1], [2, 3]].foldl RdbWriter.updateCrc ⟨.zeroed, 0⟩).crcState =
      ([[1, 2], [3]].foldl RdbReader.updateCrc ⟨.zeroed, 0⟩).crcState :=
  (updateCrc_of_flatten_eq .zeroed .zeroed (b := [1, 2, 3]) rfl rfl).1

theorem two_pow_le_poly : 2 ^ 63 ≤ poly.toNat := by decide

theorem RdbReader.verifyCrc64_of_ne {stored : UInt64} {r : RdbReader} {trailing : Bytes}
    (hrest : r.rest = LittleEndian.encode 8 stored.toNat ++ trailing) (hne : stored ≠ r.crcState) :
    r.verifyCrc64 = .error ⟨.ioError, checksumMismatch⟩ := by
  have hlength := LittleEndian.length_encode 8 stored.toNat
  have hlong : ¬ r.rest.length < 8 := by
    rw [hrest, List.length_append, hlength]
    omega
  have hstored : UInt64.ofNat (LittleEndian.decode (r.rest.take 8)) = stored := by
    rw [hrest, List.take_left' hlength, LittleEndian.decode_encode_of_lt stored.toNat_lt,
      UInt64.ofNat_toNat]
  unfold verifyCrc64
  rw [if_neg hlong, hstored, if_pos hne]

/-- Strings that differ only within 8 consecutive bytes have different checksums. A reader of a
snapshot with damage to 64 consecutive bits, wherever they begin, finds that the stored checksum is
not the one of what it read. -/
theorem checksum_detects_burst :
    (∀ (t : Crc64Table) (crc : UInt64) (a a' : Bytes), a ≠ a' → Crc.DiffersOnlyWithin 8 a a' →
      (t.crc64Update crc a).2 ≠ (t.crc64Update crc a').2) ∧
    ∀ (t : Crc64Table) (dbId : UInt32) (records : List RdbRecord) (damaged : Bytes),
      damaged ≠ payload dbId records →
      Crc.DiffersOnlyWithin 64 (Crc.bits (payload dbId records)) (Crc.bits damaged) →
      ∀ (pieces : List Bytes) (trailing message : Bytes), pieces.flatten = damaged →
        RdbReader.verifyCrc64
          ⟨(image dbId records).drop (payload dbId records).length ++ trailing,
            (pieces.foldl RdbReader.updateCrc ⟨t, 0⟩).crcState, message⟩ =
          .error ⟨.ioError, checksumMismatch⟩ := by
  constructor
  · intro t crc a a' hne hwithin
    rw [Crc64Table.crc64Update_eq, Crc64Table.crc64Update_eq]
    exact Crc.update_burst two_pow_le_poly hwithin.bits hne crc
  · intro t dbId records damaged hne hwithin pieces trailing message hpieces
    have hstored : (image dbId records).drop (payload dbId records).length =
        LittleEndian.encode 8 (crc64Update 0 (payload dbId records)).toNat := by
      rw [image_eq, List.drop_left]
    rw [RdbReader.crcState_foldl, hpieces, hstored]
    exact RdbReader.verifyCrc64_of_ne rfl (Crc.update_burst two_pow_le_poly hwithin hne.symm 0)

/-- Without its magic bytes an empty snapshot does not have its checksum. -/
theorem checksum_detects_burst_of_zeros :
    RdbReader.verifyCrc64
        ⟨(image 0 []).drop (payload 0 []).length,
          ([[0, 0, 0, 0], (payload 0 []).drop 4].foldl RdbReader.updateCrc ⟨.zeroed, 0⟩).crcState,
          []⟩ =
      .error ⟨.ioError, checksumMismatch⟩ := by
  have hwithin : Crc.DiffersOnlyWithin 8 (payload 0 []) ([0, 0, 0, 0] ++ (payload 0 []).drop 4) :=
    @Crc.differsOnlyWithin_of_eq_append UInt8 8 [] magic [0, 0, 0, 0] _ rfl (by decide)
  have h := checksum_detects_burst.2 .zeroed 0 [] _ (by decide) hwithin.bits
    [[0, 0, 0, 0], (payload 0 []).drop 4] [] [] rfl
  rw [List.append_nil] at h
  exact h

end Keva
