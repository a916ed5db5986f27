import Keva.Persistence.RdbLoad

/-!
# What the loader makes of arbitrary bytes

The items that the record loop goes over, with the bytes of each one. Besides the documented items
there are opcodes that the loop does not know, on their own or behind an expiry, and it takes any
marker from `0xC0` on for a length of four bytes. Every reading function takes the bytes of one
item, or fails, and bytes can be divided into items in one way only.
-/

namespace Keva

open rdb RdbReader

variable {α β : Type}

/-- The reader takes exactly `bytes` off the front and makes `a` of them. -/
def Takes (p : Reading α) (bytes : Bytes) (a : α) : Prop :=
  ∀ rest crc message, p ⟨bytes ++ rest, crc, message⟩ =
    .ok (a, ⟨rest, crc64Update crc bytes, message⟩)

theorem takes_pure (a : α) : Takes (pure a) [] a := by
  intro rest crc message
  rw [crc64Update, Crc.update_nil]
  rfl

theorem Takes.bind {p : Reading α} {f : α → Reading β} {bytes bytes' : Bytes} {a : α} {b : β}
    (hp : Takes p bytes a) (hf : Takes (f a) bytes' b) : Takes (p >>= f) (bytes ++ bytes') b := by
  intro rest crc message
  have hrun := hf rest (crc64Update crc bytes) message
  rw [crc64Update, crc64Update, Crc.update_append] at hrun
  change (p _ >>= fun r => f r.1 r.2) = _
  rw [List.append_assoc, hp]
  exact hrun

theorem Takes.map {p : Reading α} {f : α → β} {bytes : Bytes} {a : α} (hp : Takes p bytes a) :
    Takes (p >>= fun a => pure (f a)) bytes (f a) := by
  rw [← List.append_nil bytes]
  exact hp.bind (takes_pure (f a))

theorem takes_readBytes {n : ℕ} {data : Bytes} (h : data.length = n) :
    Takes (readBytes n) data data := by
  intro rest crc message
  subst h
  unfold readBytes
  rw [if_pos (by rw [List.length_append]; exact Nat.le_add_right _ _), List.take_left,
    List.drop_left]

theorem takes_readU8 (v : UInt8) : Takes readU8 [v] v := by
  have h := (@takes_readBytes 1 [v] rfl).map
    (f := fun bytes => UInt8.ofNat (LittleEndian.decode bytes))
  have hv : UInt8.ofNat (LittleEndian.decode [v]) = v := UInt8.ofNat_toNat
  rwa [hv] at h

theorem takes_readU16 (v : UInt16) : Takes readU16 (LittleEndian.encode 2 v.toNat) v := by
  have h := (takes_readBytes (LittleEndian.length_encode 2 v.toNat)).map
    (f := fun bytes => UInt16.ofNat (LittleEndian.decode bytes))
  rw [LittleEndian.decode_encode_of_lt v.toNat_lt, UInt16.ofNat_toNat] at h
  exact h

theorem takes_readU32 (v : UInt32) : Takes readU32 (LittleEndian.encode 4 v.toNat) v := by
  have h := (takes_readBytes (LittleEndian.length_encode 4 v.toNat)).map
    (f := fun bytes => UInt32.ofNat (LittleEndian.decode bytes))
  rw [LittleEndian.decode_encode_of_lt v.toNat_lt, UInt32.ofNat_toNat] at h
  exact h

theorem takes_readI64 (v : Int64) :
    Takes readI64 (LittleEndian.encode 8 v.toUInt64.toNat) v := by
  have h := (takes_readBytes (LittleEndian.length_encode 8 v.toUInt64.toNat)).map
    (f := fun bytes => (UInt64.ofNat (LittleEndian.decode bytes)).toInt64)
  rw [LittleEndian.decode_encode_of_lt v.toUInt64.toNat_lt, UInt64.ofNat_toNat] at h
  exact h

/-- The three ways to tell a length. The low bits of the marker for four bytes should be zero. -/
inductive LengthForm
  | six (len : Fin 64)
  | fourteen (len : Fin 16384)
  | thirtyTwo (low : Fin 64) (len : UInt32)

namespace LengthForm

def length : LengthForm → ℕ
  | six len => len
  | fourteen len => len
  | thirtyTwo _ len => len.toNat

def bytes : LengthForm → Bytes
  | six len => [UInt8.ofNat len]
  | fourteen len => [0x80 ||| UInt8.ofNat (len / 256), UInt8.ofNat len &&& 0xFF]
  | thirtyTwo low len => (0xC0 ||| UInt8.ofNat low) :: LittleEndian.encode 4 len.toNat

def Documented : LengthForm → Prop
  | thirtyTwo low _ => low = 0
  | _ => True

end LengthForm

structure RdbString where
  form : LengthForm
  data : Bytes
  length_eq : data.length = form.length

def RdbString.bytes (s : RdbString) : Bytes := s.form.bytes ++ s.data

def markerBytes : Option Int64 → Bytes
  | none => []
  | some absExpire => expireBytes absExpire

/-- The loop passes over the opcode. Behind an expiry it only knows the type of a string. -/
structure UnknownOpcode (expire : Option Int64) (opcode : UInt8) : Prop where
  ne_typeString : opcode ≠ typeString
  unmarked : expire = none → opcode ≠ opcodeEof ∧ opcode ≠ opcodeDb ∧ opcode ≠ opcodeExpire

inductive RdbToken
  | selectDb (dbId : UInt32)
  | record (expire : Option Int64) (key value : RdbString)
  | unknown (expire : Option Int64) (opcode : UInt8) (h : UnknownOpcode expire opcode)

namespace RdbToken

def bytes : RdbToken → Bytes
  | selectDb dbId => opcodeDb :: LittleEndian.encode 4 dbId.toNat
  | record expire key value => markerBytes expire ++ typeString :: (key.bytes ++ value.bytes)
  | unknown expire opcode _ => markerBytes expire ++ [opcode]

/-- What the loop finds when `pendingExpire` is pending. -/
def item (pendingExpire : Int64) : RdbToken → RdbItem
  | selectDb _ => .selectDb
  | record expire key value => .record key.data value.data (expire.getD pendingExpire)
  | unknown expire _ _ => .unknown (expire.getD pendingExpire)

/-- The item is one of the documented format. -/
def Documented : RdbToken → Prop
  | selectDb _ => True
  | record _ key value => key.form.Documented ∧ value.form.Documented
  | unknown _ _ _ => False

end RdbToken

theorem low_length {n : ℕ} (h : n < 64) :
    UInt8.ofNat n &&& 0xC0 = 0x00 ∧ (UInt8.ofNat n &&& 0x3F).toNat = n := by
  have hall : ∀ n < 64, UInt8.ofNat n &&& 0xC0 = 0x00 ∧ (UInt8.ofNat n &&& 0x3F).toNat = n := by
    decide
  exact hall n h

theorem high_length {n : ℕ} (h : n < 64) :
    (0x80 ||| UInt8.ofNat n) &&& 0xC0 = 0x80 ∧ ((0x80 ||| UInt8.ofNat n) &&& 0x3F).toNat = n := by
  have hall : ∀ n < 64, (0x80 ||| UInt8.ofNat n) &&& 0xC0 = 0x80 ∧
      ((0x80 ||| UInt8.ofNat n) &&& 0x3F).toNat = n := by
    decide
  exact hall n h

theorem marked_length {n : ℕ} (h : n < 64) :
    (0xC0 ||| UInt8.ofNat n) &&& 0xC0 = 0xC0 ∧ ((0xC0 ||| UInt8.ofNat n) &&& 0x3F).toNat = n := by
  have hall : ∀ n < 64, (0xC0 ||| UInt8.ofNat n) &&& 0xC0 = 0xC0 ∧
      ((0xC0 ||| UInt8.ofNat n) &&& 0x3F).toNat = n := by
    decide
  exact hall n h

theorem LengthForm.takes (form : LengthForm) : Takes readLength form.bytes form.length := by
  unfold readLength
  cases form with
  | six len =>
      obtain ⟨hclass, hvalue⟩ := low_length len.isLt
      apply Takes.bind (takes_readU8 _)
      rw [if_pos hclass, hvalue]
      exact takes_pure len.val
  | fourteen len =>
      obtain ⟨hclass, hvalue⟩ := high_length (show len.val / 256 < 64 by omega)
      apply Takes.bind (takes_readU8 _)
      rw [hclass, if_neg (by decide), if_pos rfl, hvalue]
      have hsecond : (UInt8.ofNat len &&& 0xFF).toNat = len % 256 := by
        have hmask : (0xFF : UInt8).toNat = 2 ^ 8 - 1 := rfl
        rw [UInt8.toNat_and, UInt8.toNat_ofNat', hmask, Nat.and_two_pow_sub_one_eq_mod, Nat.mod_mod]
      have hlen : len.val / 256 * 256 + (UInt8.ofNat len &&& 0xFF).toNat = len := by
        rw [hsecond]
        omega
      have hp := (takes_readU8 (UInt8.ofNat len &&& 0xFF)).map
        (f := fun second => len.val / 256 * 256 + second.toNat)
      rw [hlen] at hp
      exact hp
  | thirtyTwo low len =>
      obtain ⟨hclass, -⟩ := marked_length low.isLt
      apply Takes.bind (takes_readU8 _)
      rw [hclass, if_neg (by decide), if_neg (by decide), if_pos rfl]
      exact (takes_readU32 len).map (f := fun len32 => len32.toNat)

theorem RdbString.takes (s : RdbString) : Takes readString s.bytes s.data :=
  s.form.takes.bind (takes_readBytes s.length_eq)

theorem takes_readType_expire (absExpire pendingExpire : Int64) (opcode : UInt8) :
    Takes (readType opcodeExpire pendingExpire)
      (LittleEndian.encode 8 absExpire.toUInt64.toNat ++ [opcode]) (opcode, absExpire) := by
  unfold readType
  rw [if_pos rfl]
  exact (takes_readI64 absExpire).bind
    ((takes_readU8 opcode).map (f := fun opcode => (opcode, absExpire)))

theorem takes_opcode {expire : Option Int64} {opcode : UInt8}
    (h : expire = none → opcode ≠ opcodeEof ∧ opcode ≠ opcodeDb ∧ opcode ≠ opcodeExpire)
    (pendingExpire : Int64) {bytes : Bytes} {item : RdbItem}
    (hrest : Takes (if opcode = typeString then do
        let key ← readString
        let value ← readString
        pure (.record key value (expire.getD pendingExpire))
      else pure (.unknown (expire.getD pendingExpire))) bytes item) :
    Takes (readItem pendingExpire) (markerBytes expire ++ opcode :: bytes) item := by
  unfold readItem
  cases expire with
  | none =>
      obtain ⟨heof, hdb, hexpire⟩ := h rfl
      have htype : Takes (readType opcode pendingExpire) [] (opcode, pendingExpire) := by
        unfold readType
        rw [if_neg hexpire]
        exact takes_pure _
      apply Takes.bind (takes_readU8 opcode)
      rw [if_neg heof, if_neg hdb]
      exact htype.bind hrest
  | some absExpire =>
      have hbytes : markerBytes (some absExpire) ++ opcode :: bytes = [opcodeExpire] ++
          ((LittleEndian.encode 8 absExpire.toUInt64.toNat ++ [opcode]) ++ bytes) := by
        simp [markerBytes, expireBytes]
      rw [hbytes]
      apply Takes.bind (takes_readU8 opcodeExpire)
      rw [if_neg (by decide), if_neg (by decide)]
      exact (takes_readType_expire absExpire pendingExpire opcode).bind hrest

theorem takes_readItem_eof (pendingExpire : Int64) :
    Takes (readItem pendingExpire) [opcodeEof] .eof := by
  unfold readItem
  apply Takes.bind (takes_readU8 opcodeEof)
  rw [if_pos rfl]
  exact takes_pure _

theorem takes_readItem_selectDb (dbId : UInt32) (pendingExpire : Int64) :
    Takes (readItem pendingExpire) (opcodeDb :: LittleEndian.encode 4 dbId.toNat) .selectDb := by
  unfold readItem
  apply Takes.bind (takes_readU8 opcodeDb)
  rw [if_neg (by decide), if_pos rfl]
  exact (takes_readU32 dbId).map (f := fun _ => RdbItem.selectDb)

theorem RdbToken.takes (token : RdbToken) (pendingExpire : Int64) :
    Takes (readItem pendingExpire) token.bytes (token.item pendingExpire) := by
  cases token with
  | selectDb dbId => exact takes_readItem_selectDb dbId pendingExpire
  | record expire key value =>
      refine takes_opcode (fun _ => by decide) pendingExpire ?_
      rw [if_pos rfl]
      exact key.takes.bind (value.takes.map
        (f := fun v => RdbItem.record key.data v (expire.getD pendingExpire)))
  | unknown expire opcode h =>
      refine takes_opcode h.unmarked pendingExpire ?_
      rw [if_neg h.ne_typeString]
      exact takes_pure _

theorem Takes.unique {p : Reading α} {bytes bytes' x y : Bytes} {a a' : α} (h : Takes p bytes a)
    (h' : Takes p bytes' a') (heq : bytes ++ x = bytes' ++ y) :
    a = a' ∧ x = y ∧ bytes = bytes' := by
  have hrun := h x 0 []
  rw [heq, h' y 0 []] at hrun
  have hpair := Except.ok.inj hrun
  have hxy : x = y := (congrArg (fun r => r.2.rest) hpair).symm
  refine ⟨(congrArg Prod.fst hpair).symm, hxy, ?_⟩
  rw [hxy] at heq
  exact List.append_cancel_right heq

theorem LengthForm.eq_of_append {form form' : LengthForm} {x y : Bytes}
    (h : form.bytes ++ x = form'.bytes ++ y) : form = form' ∧ x = y := by
  obtain ⟨hlength, hxy, hbytes⟩ := form.takes.unique form'.takes h
  refine ⟨?_, hxy⟩
  have hsize := congrArg List.length hbytes
  cases form with
  | six len =>
      cases form' with
      | six len' => rw [Fin.ext hlength]
      | fourteen len' => cases hsize
      | thirtyTwo low' len' => simp [bytes] at hsize
  | fourteen len =>
      cases form' with
      | six len' => cases hsize
      | fourteen len' => rw [Fin.ext hlength]
      | thirtyTwo low' len' => simp [bytes] at hsize
  | thirtyTwo low len =>
      cases form' with
      | six len' => simp [bytes] at hsize
      | fourteen len' => simp [bytes] at hsize
      | thirtyTwo low' len' =>
          have hmarker : 0xC0 ||| UInt8.ofNat low = 0xC0 ||| UInt8.ofNat low' :=
            (List.cons.inj hbytes).1
          have hlow : low = low' := by
            apply Fin.ext
            rw [← (marked_length low.isLt).2, ← (marked_length low'.isLt).2, hmarker]
          rw [hlow, UInt32.toNat_inj.mp hlength]

theorem RdbString.eq_of_append {s s' : RdbString} {x y : Bytes}
    (h : s.bytes ++ x = s'.bytes ++ y) : s = s' ∧ x = y := by
  obtain ⟨hdata, hxy, -⟩ := s.takes.unique s'.takes h
  unfold RdbString.bytes at h
  rw [List.append_assoc, List.append_assoc] at h
  obtain ⟨hform, -⟩ := LengthForm.eq_of_append h
  cases s
  cases s'
  obtain rfl : _ = _ := hdata
  obtain rfl : _ = _ := hform
  exact ⟨rfl, hxy⟩

theorem eq_of_getD {e e' : Option Int64} (h : ∀ p, e.getD p = e'.getD p) : e = e' := by
  cases e with
  | some t =>
      cases e' with
      | some t' => exact congrArg some (h 0)
      | none => exact absurd ((h 0).symm.trans (h 1)) (by decide)
  | none =>
      cases e' with
      | some t' => exact absurd ((h 0).trans (h 1).symm) (by decide)
      | none => rfl

theorem RdbToken.eq_of_append {token token' : RdbToken} {x y : Bytes}
    (h : token.bytes ++ x = token'.bytes ++ y) : token = token' ∧ x = y := by
  have hunique := fun p => (token.takes p).unique (token'.takes p) h
  obtain ⟨-, hxy, hbytes⟩ := hunique 0
  have hitem : ∀ p, token.item p = token'.item p := fun p => (hunique p).1
  refine ⟨?_, hxy⟩
  cases token with
  | selectDb dbId =>
      cases token' with
      | selectDb dbId' =>
          have hid := (List.cons.inj hbytes).2
          rw [((takes_readU32 dbId).unique (takes_readU32 dbId')
            (congrArg (· ++ []) hid)).1]
      | record expire' key' value' => cases hitem 0
      | unknown expire' opcode' h' => cases hitem 0
  | record expire key value =>
      cases token' with
      | selectDb dbId' => cases hitem 0
      | record expire' key' value' =>
          obtain rfl : expire = expire' :=
            eq_of_getD fun p => (RdbItem.record.inj (hitem p)).2.2
          have hstrings := (List.cons.inj (List.append_cancel_left hbytes)).2
          obtain ⟨rfl, hvalue⟩ := RdbString.eq_of_append hstrings
          obtain ⟨rfl, -⟩ := RdbString.eq_of_append (congrArg (· ++ []) hvalue)
          rfl
      | unknown expire' opcode' h' => cases hitem 0
  | unknown expire opcode h =>
      cases token' with
      | selectDb dbId' => cases hitem 0
      | record expire' key' value' => cases hitem 0
      | unknown expire' opcode' h' =>
          obtain rfl : expire = expire' := eq_of_getD fun p => RdbItem.unknown.inj (hitem p)
          obtain rfl := (List.cons.inj (List.append_cancel_left hbytes)).1
          rfl

theorem tokens_eq_of_append {tokens tokens' : List RdbToken} {x y : Bytes}
    (h : tokens.flatMap RdbToken.bytes ++ opcodeEof :: x =
      tokens'.flatMap RdbToken.bytes ++ opcodeEof :: y) : tokens = tokens' ∧ x = y := by
  have hnot : ∀ (token : RdbToken) (x y : Bytes), opcodeEof :: x ≠ token.bytes ++ y := by
    intro token x y heq
    obtain ⟨hitem, -, -⟩ := (takes_readItem_eof 0).unique (token.takes 0) heq
    cases token <;> cases hitem
  induction tokens generalizing tokens' with
  | nil =>
      cases tokens' with
      | nil => exact ⟨rfl, (List.cons.inj h).2⟩
      | cons token' tokens' =>
          rw [List.flatMap_cons, List.append_assoc] at h
          exact absurd h (hnot token' x _)
  | cons token tokens ih =>
      cases tokens' with
      | nil =>
          rw [List.flatMap_cons, List.append_assoc] at h
          exact absurd h.symm (hnot token y _)
      | cons token' tokens' =>
          rw [List.flatMap_cons, List.flatMap_cons, List.append_assoc, List.append_assoc] at h
          obtain ⟨rfl, hrest⟩ := RdbToken.eq_of_append h
          obtain ⟨rfl, hxy⟩ := ih hrest
          exact ⟨rfl, hxy⟩

/-- Whenever `p` succeeds, it has taken bytes that spell its result, and it never reports that
something was not found. -/
def TakesOnly (p : Reading α) (spells : α → Bytes → Prop) : Prop :=
  ∀ r, match p r with
    | .ok (a, r') => ∃ bytes, spells a bytes ∧ r.rest = bytes ++ r'.rest
    | .error e => e.code ≠ .notFound

variable {p : Reading α} {f : α → Reading β} {S S' : α → Bytes → Prop} {T : α → β → Bytes → Prop}

theorem takesOnly_pure (a : α) : TakesOnly (pure a) (fun b bytes => b = a ∧ bytes = []) :=
  fun _ => ⟨[], ⟨rfl, rfl⟩, rfl⟩

theorem TakesOnly.mono (h : TakesOnly p S) (himp : ∀ a bytes, S a bytes → S' a bytes) :
    TakesOnly p S' := by
  intro r
  have hp := h r
  cases hr : p r with
  | error e =>
      rw [hr] at hp
      exact hp
  | ok result =>
      obtain ⟨a, r'⟩ := result
      rw [hr] at hp
      obtain ⟨bytes, hS, hrest⟩ := hp
      exact ⟨bytes, himp a bytes hS, hrest⟩

theorem takesOnly_bind (hp : TakesOnly p S) (hf : ∀ a, TakesOnly (f a) (T a)) :
    TakesOnly (p >>= f) (fun b bytes => ∃ a x y, S a x ∧ T a b y ∧ bytes = x ++ y) := by
  intro r
  have hfirst := hp r
  change match (p r).bind (fun x => f x.1 x.2) with
    | .ok (b, r') => ∃ bytes, _ ∧ r.rest = bytes ++ r'.rest
    | .error e => e.code ≠ .notFound
  cases hr : p r with
  | error e =>
      rw [hr] at hfirst
      exact hfirst
  | ok result =>
      obtain ⟨a, r'⟩ := result
      rw [hr] at hfirst
      obtain ⟨x, hS, hx⟩ := hfirst
      have hsecond := hf a r'
      change match f a r' with
        | .ok (b, r') => ∃ bytes, _ ∧ r.rest = bytes ++ r'.rest
        | .error e => e.code ≠ .notFound
      cases hr' : f a r' with
      | error e =>
          rw [hr'] at hsecond
          exact hsecond
      | ok result =>
          obtain ⟨b, r''⟩ := result
          rw [hr'] at hsecond
          obtain ⟨y, hT, hy⟩ := hsecond
          refine ⟨x ++ y, ⟨a, x, y, hS, hT, rfl⟩, ?_⟩
          rw [hx, hy, List.append_assoc]

theorem TakesOnly.map (h : TakesOnly p S) (g : α → β) :
    TakesOnly (p >>= fun a => pure (g a)) (fun b bytes => ∃ a, S a bytes ∧ b = g a) := by
  refine (takesOnly_bind h fun a => takesOnly_pure (g a)).mono ?_
  rintro b bytes ⟨a, x, y, hS, ⟨rfl, rfl⟩, rfl⟩
  exact ⟨a, by rwa [List.append_nil], rfl⟩

theorem takesOnly_protoError (message : Bytes) :
    TakesOnly (protoError message : Reading α) (fun _ _ => False) :=
  fun _ => (by decide : StatusCode.protocolError ≠ .notFound)

theorem takesOnly_readBytes (n : ℕ) :
    TakesOnly (readBytes n) (fun data bytes => bytes = data ∧ data.length = n) := by
  intro r
  unfold readBytes
  by_cases h : n ≤ r.rest.length
  · rw [if_pos h]
    exact ⟨r.rest.take n, ⟨rfl, List.length_take_of_le h⟩, (List.take_append_drop n r.rest).symm⟩
  · rw [if_neg h]
    exact (by decide : StatusCode.ioError ≠ .notFound)

theorem takesOnly_readU8 : TakesOnly readU8 (fun v bytes => bytes = [v]) := by
  refine ((takesOnly_readBytes 1).map _).mono ?_
  rintro v bytes ⟨data, ⟨rfl, hlen⟩, rfl⟩
  obtain ⟨b, rfl⟩ := List.length_eq_one_iff.mp hlen
  exact congrArg (fun v => [v]) UInt8.ofNat_toNat.symm

theorem takesOnly_readU16 :
    TakesOnly readU16 (fun v bytes => bytes = LittleEndian.encode 2 v.toNat) := by
  refine ((takesOnly_readBytes 2).map _).mono ?_
  rintro v bytes ⟨data, ⟨rfl, hlen⟩, rfl⟩
  have hlt := LittleEndian.decode_lt bytes
  rw [hlen] at hlt
  rw [UInt16.toNat_ofNat_of_lt' hlt, LittleEndian.encode_decode hlen]

theorem takesOnly_readU32 :
    TakesOnly readU32 (fun v bytes => bytes = LittleEndian.encode 4 v.toNat) := by
  refine ((takesOnly_readBytes 4).map _).mono ?_
  rintro v bytes ⟨data, ⟨rfl, hlen⟩, rfl⟩
  have hlt := LittleEndian.decode_lt bytes
  rw [hlen] at hlt
  rw [UInt32.toNat_ofNat_of_lt' hlt, LittleEndian.encode_decode hlen]

theorem takesOnly_readI64 :
    TakesOnly readI64 (fun v bytes => bytes = LittleEndian.encode 8 v.toUInt64.toNat) := by
  refine ((takesOnly_readBytes 8).map _).mono ?_
  rintro v bytes ⟨data, ⟨rfl, hlen⟩, rfl⟩
  have hlt := LittleEndian.decode_lt bytes
  rw [hlen] at hlt
  rw [UInt64.toUInt64_toInt64, UInt64.toNat_ofNat_of_lt' hlt, LittleEndian.encode_decode hlen]

theorem split_byte (b : UInt8) :
    (b &&& 0xC0) ||| (b &&& 0x3F) = b ∧ (b &&& 0x3F).toNat < 64 := by
  have hall : ∀ n < 256, (UInt8.ofNat n &&& 0xC0) ||| (UInt8.ofNat n &&& 0x3F) = UInt8.ofNat n ∧
      (UInt8.ofNat n &&& 0x3F).toNat < 64 := by
    decide +kernel
  have hb := hall b.toNat b.toNat_lt
  rwa [UInt8.ofNat_toNat] at hb

theorem bytes_fourteen {first second : UInt8} (h : first &&& 0xC0 = 0x80) :
    ∃ form : LengthForm, form.length = (first &&& 0x3F).toNat * 256 + second.toNat ∧
      [first, second] = form.bytes := by
  obtain ⟨hsplit, hlow⟩ := split_byte first
  have hsecond := second.toNat_lt
  refine ⟨.fourteen ⟨(first &&& 0x3F).toNat * 256 + second.toNat, by omega⟩, rfl, ?_⟩
  unfold LengthForm.bytes
  dsimp only
  have hdiv : ((first &&& 0x3F).toNat * 256 + second.toNat) / 256 = (first &&& 0x3F).toNat := by
    omega
  have hmod : UInt8.ofNat ((first &&& 0x3F).toNat * 256 + second.toNat) &&& 0xFF = second := by
    have hmask : (0xFF : UInt8).toNat = 2 ^ 8 - 1 := rfl
    rw [← UInt8.toNat_inj, UInt8.toNat_and, UInt8.toNat_ofNat', hmask,
      Nat.and_two_pow_sub_one_eq_mod]
    omega
  rw [hdiv, hmod, UInt8.ofNat_toNat, ← h, hsplit]

theorem takesOnly_readLength :
    TakesOnly readLength
      (fun n bytes => ∃ form : LengthForm, form.length = n ∧ bytes = form.bytes) := by
  have hclasses : ∀ first : UInt8, TakesOnly (if first &&& 0xC0 = 0x00 then
        pure (first &&& 0x3F).toNat
      else if first &&& 0xC0 = 0x80 then do
        let second ← readU8
        pure ((first &&& 0x3F).toNat * 256 + second.toNat)
      else if first &&& 0xC0 = 0xC0 then do
        let len ← readU32
        pure len.toNat
      else protoError (ascii "Unknown RDB string length encoding"))
      (fun n bytes => ∃ form : LengthForm, form.length = n ∧ first :: bytes = form.bytes) := by
    intro first
    obtain ⟨hsplit, hlow⟩ := split_byte first
    split_ifs with hsix hfourteen hthirtyTwo
    · refine (takesOnly_pure _).mono ?_
      rintro n bytes ⟨rfl, rfl⟩
      refine ⟨.six ⟨(first &&& 0x3F).toNat, hlow⟩, rfl, ?_⟩
      rw [hsix] at hsplit
      unfold LengthForm.bytes
      dsimp only
      rw [UInt8.ofNat_toNat]
      conv_lhs => rw [← hsplit]
      rw [UInt8.zero_or]
    · refine (takesOnly_readU8.map _).mono ?_
      rintro n bytes ⟨second, rfl, rfl⟩
      exact bytes_fourteen hfourteen
    · refine (takesOnly_readU32.map _).mono ?_
      rintro n bytes ⟨len, rfl, rfl⟩
      refine ⟨.thirtyTwo ⟨(first &&& 0x3F).toNat, hlow⟩ len, rfl, ?_⟩
      unfold LengthForm.bytes
      dsimp only
      rw [UInt8.ofNat_toNat, ← hthirtyTwo, hsplit]
    · refine (takesOnly_protoError _).mono ?_
      rintro n bytes ⟨⟩
  refine (takesOnly_bind takesOnly_readU8 hclasses).mono ?_
  rintro n bytes ⟨first, x, y, rfl, ⟨form, hlength, hbytes⟩, rfl⟩
  exact ⟨form, hlength, hbytes⟩

theorem takesOnly_readString :
    TakesOnly readString (fun sv bytes => ∃ s : RdbString, s.data = sv ∧ bytes = s.bytes) := by
  refine (takesOnly_bind takesOnly_readLength takesOnly_readBytes).mono ?_
  rintro sv bytes ⟨n, x, y, ⟨form, rfl, rfl⟩, ⟨rfl, hlen⟩, rfl⟩
  exact ⟨⟨form, y, hlen⟩, rfl, rfl⟩

theorem takesOnly_readType (opcode : UInt8) (pendingExpire : Int64) :
    TakesOnly (readType opcode pendingExpire) (fun result bytes =>
      ∃ expire : Option Int64, result.2 = expire.getD pendingExpire ∧
        opcode :: bytes = markerBytes expire ++ [result.1] ∧
        (expire = none → result.1 = opcode ∧ opcode ≠ opcodeExpire)) := by
  unfold readType
  split_ifs with hexpire
  · refine (takesOnly_bind takesOnly_readI64 fun t =>
      takesOnly_readU8.map fun opcode => (opcode, t)).mono ?_
    rintro ⟨type, t⟩ bytes ⟨t', x, y, rfl, ⟨type', rfl, heq⟩, rfl⟩
    obtain ⟨rfl, rfl⟩ := Prod.mk.inj heq
    refine ⟨some t, rfl, ?_, (fun h => by cases h)⟩
    rw [hexpire]
    rfl
  · refine (takesOnly_pure _).mono ?_
    rintro ⟨type, t⟩ bytes ⟨heq, rfl⟩
    obtain ⟨rfl, rfl⟩ := Prod.mk.inj heq
    exact ⟨none, rfl, rfl, fun _ => ⟨rfl, hexpire⟩⟩

theorem takesOnly_value (type : UInt8) (expire : Int64) :
    TakesOnly (if type = typeString then do
        let key ← readString
        let value ← readString
        pure (RdbItem.record key value expire)
      else pure (RdbItem.unknown expire)) (fun item bytes =>
        (type = typeString ∧ ∃ key value : RdbString,
          item = .record key.data value.data expire ∧ bytes = key.bytes ++ value.bytes) ∨
        (type ≠ typeString ∧ item = .unknown expire ∧ bytes = [])) := by
  split_ifs with htype
  · refine (takesOnly_bind takesOnly_readString fun key =>
      takesOnly_readString.map fun value => RdbItem.record key value expire).mono ?_
    rintro item bytes ⟨_, x, y, ⟨key, rfl, rfl⟩, ⟨_, ⟨value, rfl, rfl⟩, rfl⟩, rfl⟩
    exact .inl ⟨htype, key, value, rfl, rfl⟩
  · refine (takesOnly_pure _).mono ?_
    rintro item bytes ⟨rfl, rfl⟩
    exact .inr ⟨htype, rfl, rfl⟩

theorem takesOnly_itemOf (opcode : UInt8) (pendingExpire : Int64) :
    TakesOnly (if opcode = opcodeEof then pure .eof
      else if opcode = opcodeDb then do
        let _ ← readU32
        pure .selectDb
      else do
        let (opcode, pendingExpire) ← readType opcode pendingExpire
        if opcode = typeString then do
          let key ← readString
          let value ← readString
          pure (.record key value pendingExpire)
        else pure (.unknown pendingExpire))
      (fun item bytes => (item = .eof ∧ opcode :: bytes = [opcodeEof]) ∨
        ∃ token : RdbToken, item = token.item pendingExpire ∧ opcode :: bytes = token.bytes) := by
  split_ifs with heof hdb
  · refine (takesOnly_pure _).mono ?_
    rintro item bytes ⟨rfl, rfl⟩
    exact .inl ⟨rfl, by rw [heof]⟩
  · refine (takesOnly_readU32.map _).mono ?_
    rintro item bytes ⟨dbId, rfl, rfl⟩
    exact .inr ⟨.selectDb dbId, rfl, by rw [hdb]; rfl⟩
  · refine (takesOnly_bind (takesOnly_readType opcode pendingExpire) fun x =>
      takesOnly_value x.1 x.2).mono ?_
    rintro item bytes ⟨⟨type, t⟩, x, y, ⟨expire, hvalue, hmarker, hnone⟩, hT, rfl⟩
    dsimp only at hvalue hmarker hnone hT
    obtain rfl := hvalue
    right
    rcases hT with ⟨rfl, key, value, rfl, rfl⟩ | ⟨htype, rfl, rfl⟩
    · refine ⟨.record expire key value, rfl, ?_⟩
      rw [← List.cons_append, hmarker]
      simp [RdbToken.bytes]
    · refine ⟨.unknown expire type ⟨htype, fun h => ?_⟩, rfl, ?_⟩
      · obtain ⟨rfl, hexpire⟩ := hnone h
        exact ⟨heof, hdb, hexpire⟩
      · rw [← List.cons_append, hmarker, List.append_nil]
        rfl

theorem takesOnly_readItem (pendingExpire : Int64) :
    TakesOnly (readItem pendingExpire) (fun item bytes => (item = .eof ∧ bytes = [opcodeEof]) ∨
      ∃ token : RdbToken, item = token.item pendingExpire ∧ bytes = token.bytes) := by
  refine (takesOnly_bind takesOnly_readU8 (takesOnly_itemOf · pendingExpire)).mono ?_
  rintro item bytes ⟨opcode, x, y, rfl, hT, rfl⟩
  exact hT

theorem takesOnly_readHeader : TakesOnly readHeader (fun _ bytes =>
    ∃ v : UInt16, v ≤ version ∧ bytes = magic ++ LittleEndian.encode 2 v.toNat) := by
  have hmagic : ∀ bytes : Bytes, TakesOnly (if bytes ≠ magic then
        protoError (ascii "Not a valid Keva RDB file (wrong magic bytes)")
      else do
        let v ← readU16
        if version < v then protoError (ascii "RDB version is newer than this server supports")
        else pure ()) (fun _ rest => bytes = magic ∧
          ∃ v : UInt16, v ≤ version ∧ rest = LittleEndian.encode 2 v.toNat) := by
    intro bytes
    split_ifs with hwrong
    · refine (takesOnly_protoError _).mono ?_
      rintro u rest ⟨⟩
    · have hversion : ∀ v : UInt16, TakesOnly (if version < v then
          protoError (ascii "RDB version is newer than this server supports")
          else pure ()) (fun _ rest => v ≤ version ∧ rest = []) := by
        intro v
        split_ifs with hnewer
        · refine (takesOnly_protoError _).mono ?_
          rintro u rest ⟨⟩
        · refine (takesOnly_pure _).mono ?_
          rintro u rest ⟨-, rfl⟩
          exact ⟨UInt16.not_lt.mp hnewer, rfl⟩
      refine (takesOnly_bind takesOnly_readU16 hversion).mono ?_
      rintro u rest ⟨v, x, y, rfl, ⟨hle, rfl⟩, rfl⟩
      exact ⟨not_not.mp hwrong, v, hle, List.append_nil _⟩
  refine (takesOnly_bind (takesOnly_readBytes 4) hmagic).mono ?_
  rintro u bytes ⟨data, x, y, ⟨rfl, -⟩, ⟨rfl, v, hle, rfl⟩, rfl⟩
  exact ⟨v, hle, rfl⟩

end Keva
