import Keva.Persistence.RdbFormat

/-!
# The files that the loader accepts

`rdb_load` accepts a header, items, the end and the checksum of all this, whatever comes behind it,
and stores the records one after the other. An expiry that no record follows stays pending.
-/

namespace Keva

open rdb RdbReader

namespace rdb

/-- Everything that the checksum covers. -/
def fileBody (v : UInt16) (tokens : List RdbToken) : Bytes :=
  magic ++ LittleEndian.encode 2 v.toNat ++ (tokens.flatMap RdbToken.bytes ++ [opcodeEof])

def fileBytes (v : UInt16) (tokens : List RdbToken) : Bytes :=
  fileBody v tokens ++ LittleEndian.encode 8 (crc64Update 0 (fileBody v tokens)).toNat

theorem fileBytes_unique {v v' : UInt16} {tokens tokens' : List RdbToken} {x y : Bytes}
    (h : fileBytes v tokens ++ x = fileBytes v' tokens' ++ y) :
    v = v' ∧ tokens = tokens' ∧ x = y := by
  have hbody : ∀ (v : UInt16) (tokens : List RdbToken) (x : Bytes), fileBytes v tokens ++ x =
      magic ++ (LittleEndian.encode 2 v.toNat ++ (tokens.flatMap RdbToken.bytes ++ opcodeEof ::
        (LittleEndian.encode 8 (crc64Update 0 (fileBody v tokens)).toNat ++ x))) := by
    intro v tokens x
    simp [fileBytes, fileBody]
  have hrest := h
  rw [hbody, hbody] at hrest
  obtain ⟨rfl, hitems, -⟩ :=
    (takes_readU16 v).unique (takes_readU16 v') (List.append_cancel_left hrest)
  obtain ⟨rfl, -⟩ := tokens_eq_of_append hitems
  exact ⟨rfl, rfl, List.append_cancel_left h⟩

theorem takes_readHeader {v : UInt16} (hv : v ≤ version) :
    Takes readHeader (magic ++ LittleEndian.encode 2 v.toNat) () := by
  unfold readHeader
  apply Takes.bind (@takes_readBytes 4 magic rfl)
  rw [if_neg (by simp)]
  rw [← List.append_nil (LittleEndian.encode 2 _)]
  apply Takes.bind (takes_readU16 v)
  rw [if_neg (UInt16.not_lt.mpr hv)]
  exact takes_pure ()

end rdb

theorem code_of_verifyCrc64 {r : RdbReader} {e : Failure} (h : r.verifyCrc64 = .error e) :
    e.code = .ioError := by
  unfold verifyCrc64 at h
  split_ifs at h
  all_goals
    obtain rfl := Except.error.inj h
    rfl

theorem verifyCrc64_eq_ok_iff {rest message : Bytes} {crc : UInt64} :
    RdbReader.verifyCrc64 ⟨rest, crc, message⟩ = .ok () ↔
      ∃ trailing, rest = LittleEndian.encode 8 crc.toNat ++ trailing := by
  have hlength := LittleEndian.length_encode 8 crc.toNat
  unfold verifyCrc64
  dsimp only
  constructor
  · intro h
    split_ifs at h with hshort hcrc
    have height : (rest.take 8).length = 8 := List.length_take_of_le (Nat.le_of_not_lt hshort)
    have hlt := LittleEndian.decode_lt (rest.take 8)
    rw [height] at hlt
    refine ⟨rest.drop 8, ?_⟩
    rw [← not_not.mp hcrc, UInt64.toNat_ofNat_of_lt' hlt, LittleEndian.encode_decode height,
      List.take_append_drop]
  · rintro ⟨trailing, rfl⟩
    rw [if_neg (by rw [List.length_append]; omega), List.take_left' hlength,
      LittleEndian.decode_encode_of_lt crc.toNat_lt, UInt64.ofNat_toNat, if_neg (by simp)]

namespace KevaDatabase

/-- The items stored one after the other, with the expiry that is pending. -/
def loadTokens (secs : ℕ → Int64) : ℕ → Int64 → List RdbToken → KevaDatabase → KevaDatabase
  | _, _, [], db => db
  | n, pendingExpire, token :: tokens, db =>
      match token with
      | .selectDb _ => loadTokens secs n pendingExpire tokens db
      | .record expire key value =>
          loadTokens secs (n + 1) (-1) tokens
            (db.loadRecord key.data value.data (expire.getD pendingExpire) (secs n))
      | .unknown expire _ _ => loadTokens secs n (expire.getD pendingExpire) tokens db

variable {secs : ℕ → Int64} {message : Bytes}

theorem loadLoop_tokens (tokens : List RdbToken) (rest : Bytes) (m n : ℕ) (pendingExpire : Int64)
    (crc : UInt64) (db : KevaDatabase) :
    loadLoop secs (tokens.length + 1 + m) n pendingExpire
        ⟨tokens.flatMap RdbToken.bytes ++ [opcodeEof] ++ rest, crc, message⟩ db =
      (.ok ⟨rest, crc64Update crc (tokens.flatMap RdbToken.bytes ++ [opcodeEof]), message⟩,
        loadTokens secs n pendingExpire tokens db) := by
  induction tokens generalizing n pendingExpire crc db with
  | nil =>
      have hfuel : ([] : List RdbToken).length + 1 + m = m + 1 := by
        rw [List.length_nil]
        omega
      rw [hfuel, loadLoop, List.flatMap_nil, List.nil_append, takes_readItem_eof pendingExpire rest]
      rfl
  | cons token tokens ih =>
      have hfuel : (token :: tokens).length + 1 + m = tokens.length + 1 + m + 1 := by
        rw [List.length_cons]
        omega
      have hcrc : crc64Update (crc64Update crc token.bytes)
          (tokens.flatMap RdbToken.bytes ++ [opcodeEof]) =
          crc64Update crc ((token :: tokens).flatMap RdbToken.bytes ++ [opcodeEof]) := by
        rw [List.flatMap_cons, crc64Update, crc64Update, crc64Update, Crc.update_append,
          List.append_assoc]
      have hitem := token.takes pendingExpire
        (tokens.flatMap RdbToken.bytes ++ [opcodeEof] ++ rest) crc message
      have hrest : (token :: tokens).flatMap RdbToken.bytes ++ [opcodeEof] ++ rest =
          token.bytes ++ (tokens.flatMap RdbToken.bytes ++ [opcodeEof] ++ rest) := by
        rw [List.flatMap_cons, List.append_assoc, List.append_assoc, List.append_assoc]
      rw [hfuel, loadLoop, hrest, hitem, ← hcrc]
      cases token with
      | selectDb dbId => exact ih n pendingExpire _ db
      | record expire key value => exact ih (n + 1) (-1) _ _
      | unknown expire opcode h => exact ih n _ _ db

theorem length_le_flatMap_bytes (tokens : List RdbToken) :
    tokens.length ≤ (tokens.flatMap RdbToken.bytes).length := by
  induction tokens with
  | nil => exact le_rfl
  | cons token tokens ih =>
      have hpos : 0 < token.bytes.length := by
        cases token <;> simp [RdbToken.bytes]
      rw [List.flatMap_cons, List.length_append, List.length_cons]
      omega

theorem loadLoop_takesOnly (fuel n : ℕ) (pendingExpire : Int64) (r : RdbReader)
    (db : KevaDatabase) :
    match (loadLoop secs fuel n pendingExpire r db).1 with
    | .ok r' => ∃ tokens : List RdbToken,
        r.rest = tokens.flatMap RdbToken.bytes ++ [opcodeEof] ++ r'.rest
    | .error e => e.code ≠ .notFound := by
  induction fuel generalizing n pendingExpire r db with
  | zero => exact (by decide : StatusCode.ioError ≠ .notFound)
  | succ fuel ih =>
      have hitem := takesOnly_readItem pendingExpire r
      rw [loadLoop]
      cases hr : readItem pendingExpire r with
      | error e =>
          rw [hr] at hitem
          exact hitem
      | ok result =>
          obtain ⟨item, r'⟩ := result
          rw [hr] at hitem
          obtain ⟨bytes, ⟨rfl, rfl⟩ | ⟨token, rfl, rfl⟩, hrest⟩ := hitem
          · exact ⟨[], hrest⟩
          · -- the rest of the loop goes on behind the item
            have hgoes : ∀ n pendingExpire db,
                match (loadLoop secs fuel n pendingExpire r' db).1 with
                | .ok r'' => ∃ tokens : List RdbToken,
                    r.rest = tokens.flatMap RdbToken.bytes ++ [opcodeEof] ++ r''.rest
                | .error e => e.code ≠ .notFound := by
              intro n pendingExpire db
              have hloop := ih n pendingExpire r' db
              cases hl : (loadLoop secs fuel n pendingExpire r' db).1 with
              | error e =>
                  rw [hl] at hloop
                  exact hloop
              | ok r'' =>
                  rw [hl] at hloop
                  obtain ⟨tokens, htokens⟩ := hloop
                  refine ⟨token :: tokens, ?_⟩
                  rw [hrest, htokens, List.flatMap_cons]
                  simp only [List.append_assoc]
            cases token with
            | selectDb dbId => exact hgoes n pendingExpire db
            | record expire key value => exact hgoes _ _ _
            | unknown expire opcode h => exact hgoes n _ db

theorem rdbLoad_fileBody {v : UInt16} (hv : v ≤ version) (tokens : List RdbToken) (rest : Bytes)
    (db : KevaDatabase) :
    db.rdbLoad secs (.opened (fileBody v tokens ++ rest) message) =
      (RdbReader.verifyCrc64 ⟨rest, crc64Update 0 (fileBody v tokens), message⟩,
        loadTokens secs 0 (-1) tokens db) := by
  have hlen : tokens.length + 1 ≤
      (tokens.flatMap RdbToken.bytes ++ [opcodeEof] ++ rest).length := by
    have htokens := length_le_flatMap_bytes tokens
    simp only [List.length_append, List.length_cons, List.length_nil]
    omega
  obtain ⟨m, hm⟩ := Nat.exists_eq_add_of_le hlen
  have hloop := @loadLoop_tokens secs message tokens rest m 0 (-1)
    (crc64Update 0 (magic ++ LittleEndian.encode 2 v.toNat)) db
  unfold rdbLoad fileBody
  dsimp only
  rw [List.append_assoc, takes_readHeader hv]
  dsimp only
  rw [hm, hloop]
  dsimp only
  rw [crc64Update, crc64Update, Crc.update_append]
  rfl

theorem rdbLoad_fileBytes {v : UInt16} (hv : v ≤ version) (tokens : List RdbToken)
    (trailing : Bytes) (db : KevaDatabase) :
    db.rdbLoad secs (.whole (fileBytes v tokens ++ trailing)) =
      (.ok (), loadTokens secs 0 (-1) tokens db) := by
  unfold fileBytes RdbFile.whole
  rw [List.append_assoc, rdbLoad_fileBody hv, verifyCrc64_eq_ok_iff.mpr ⟨trailing, rfl⟩]

/-- A load that fails does not report that the file was not found, once it was opened. A load that
succeeds has found a header, items, the end and the checksum. -/
theorem rdbLoad_opened (content message : Bytes) (db : KevaDatabase) :
    match (db.rdbLoad secs (.opened content message)).1 with
    | .ok () => ∃ v tokens trailing, v ≤ version ∧ content = fileBytes v tokens ++ trailing
    | .error e => e.code ≠ .notFound := by
  have hheader := takesOnly_readHeader ⟨content, 0, message⟩
  cases hr : readHeader ⟨content, 0, message⟩ with
  | error e =>
      rw [hr] at hheader
      unfold rdbLoad
      dsimp only
      rw [hr]
      exact hheader
  | ok result =>
      obtain ⟨u, r⟩ := result
      rw [hr] at hheader
      obtain ⟨bytes, ⟨v, hv, rfl⟩, hrest⟩ := hheader
      have hloop := @loadLoop_takesOnly secs r.rest.length 0 (-1) r db
      generalize hl : loadLoop secs r.rest.length 0 (-1) r db = l at hloop
      obtain ⟨e | r', db'⟩ := l
      · unfold rdbLoad
        dsimp only
        rw [hr]
        dsimp only
        rw [hl]
        exact hloop
      · obtain ⟨tokens, htokens⟩ := hloop
        dsimp only at hrest
        have hcontent : content = fileBody v tokens ++ r'.rest := by
          rw [hrest, htokens]
          unfold fileBody
          simp only [List.append_assoc]
        rw [hcontent, rdbLoad_fileBody hv]
        dsimp only
        cases hverify : RdbReader.verifyCrc64
            ⟨r'.rest, crc64Update 0 (fileBody v tokens), message⟩ with
        | error e => exact (code_of_verifyCrc64 hverify).trans_ne (by decide)
        | ok u =>
            obtain ⟨trailing, htrailing⟩ := verifyCrc64_eq_ok_iff.mp hverify
            refine ⟨v, tokens, trailing, hv, ?_⟩
            rw [htrailing]
            unfold fileBytes
            rw [List.append_assoc]

theorem rdbLoad_prefix {v : UInt16} {tokens : List RdbToken} {content : Bytes}
    (h : content <+: fileBytes v tokens) (hne : content ≠ fileBytes v tokens) (message : Bytes)
    (db : KevaDatabase) :
    ∃ e, (db.rdbLoad secs (.opened content message)).1 = .error e ∧ e.code ≠ .notFound := by
  have hopened := @rdbLoad_opened secs content message db
  cases hload : (db.rdbLoad secs (.opened content message)).1 with
  | error e =>
      rw [hload] at hopened
      exact ⟨e, rfl, hopened⟩
  | ok u =>
      -- what was cut off would stand behind the checksum of a complete file
      rw [hload] at hopened
      obtain ⟨v', tokens', trailing, -, hcontent⟩ := hopened
      obtain ⟨missing, hmissing⟩ := h
      have htwice : fileBytes v' tokens' ++ (trailing ++ missing) = fileBytes v tokens ++ [] := by
        rw [← List.append_assoc, ← hcontent, hmissing, List.append_nil]
      obtain ⟨-, -, htrailing⟩ := fileBytes_unique htwice
      rw [(List.append_eq_nil_iff.mp htrailing).2, List.append_nil] at hmissing
      exact absurd hmissing hne

end KevaDatabase

end Keva
