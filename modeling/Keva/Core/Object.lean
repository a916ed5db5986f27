import Keva.Common.Types

/-!
# `KevaObject` and its string encodings

The header word packs the type into bits 0-3, the encoding into bits 4-7 and the LRU clock into
bits 8-31. A `KevaObject` carries the facts that its type bits name a type and that its encoding
bits name the kind of payload that `ptr` holds. `refcount` is never read and is left out.
-/

namespace Keva

inductive ObjectType
  | string
  | list
  | set
  | zset
  | hash
  deriving DecidableEq, Repr

inductive ObjectEncoding
  | raw
  | int
  | embstr
  deriving DecidableEq, Repr

namespace ObjectType

def code : ObjectType → UInt32
  | string => 0
  | list => 1
  | set => 2
  | zset => 3
  | hash => 4

def ofCode (c : UInt32) : Option ObjectType :=
  if c = 0 then some string else if c = 1 then some list else if c = 2 then some set
  else if c = 3 then some zset else if c = 4 then some hash else none

@[simp] theorem ofCode_code (t : ObjectType) : ofCode t.code = some t := by cases t <;> rfl

end ObjectType

namespace ObjectEncoding

def code : ObjectEncoding → UInt32
  | raw => 0
  | int => 1
  | embstr => 2

def ofCode (c : UInt32) : Option ObjectEncoding :=
  if c = 0 then some raw else if c = 1 then some int else if c = 2 then some embstr else none

@[simp] theorem ofCode_code (e : ObjectEncoding) : ofCode e.code = some e := by cases e <;> rfl

end ObjectEncoding

namespace MetaWord

def typeBits (w : UInt32) : UInt32 := w &&& (0xF : UInt32)

def encodingBits (w : UInt32) : UInt32 := (w >>> (4 : UInt32)) &&& (0xF : UInt32)

def lru (w : UInt32) : UInt32 := (w >>> (8 : UInt32)) &&& (0xFFFFFF : UInt32)

def setType (w t : UInt32) : UInt32 := (w &&& ~~~(0xF : UInt32)) ||| (t &&& (0xF : UInt32))

def setEncoding (w e : UInt32) : UInt32 :=
  (w &&& ~~~(0xF0 : UInt32)) ||| ((e &&& (0xF : UInt32)) <<< (4 : UInt32))

def setLru (w v : UInt32) : UInt32 :=
  (w &&& (0xFF : UInt32)) ||| ((v &&& (0xFFFFFF : UInt32)) <<< (8 : UInt32))

theorem mask4 {i : ℕ} (hi : i < 40) : (0xF#32).getLsbD i = decide (i < 4) := by
  have h : ∀ i < 40, (0xF#32).getLsbD i = decide (i < 4) := by decide
  exact h i hi

theorem clear4 {i : ℕ} (hi : i < 40) : (0xFFFFFFF0#32).getLsbD i = decide (4 ≤ i ∧ i < 32) := by
  have h : ∀ i < 40, (0xFFFFFFF0#32).getLsbD i = decide (4 ≤ i ∧ i < 32) := by decide
  exact h i hi

theorem clearF0 {i : ℕ} (hi : i < 40) :
    (0xFFFFFF0F#32).getLsbD i = decide (i < 32 ∧ (i < 4 ∨ 8 ≤ i)) := by
  have h : ∀ i < 40, (0xFFFFFF0F#32).getLsbD i = decide (i < 32 ∧ (i < 4 ∨ 8 ≤ i)) := by decide
  exact h i hi

theorem mask8 {i : ℕ} (hi : i < 40) : (0xFF#32).getLsbD i = decide (i < 8) := by
  have h : ∀ i < 40, (0xFF#32).getLsbD i = decide (i < 8) := by decide
  exact h i hi

theorem mask24 {i : ℕ} (hi : i < 40) : (0xFFFFFF#32).getLsbD i = decide (i < 24) := by
  have h : ∀ i < 40, (0xFFFFFF#32).getLsbD i = decide (i < 24) := by decide
  exact h i hi

theorem ext {w w' : UInt32}
    (h : ∀ i < 32, w.toBitVec.getLsbD i = w'.toBitVec.getLsbD i) : w = w' :=
  UInt32.toBitVec_inj.mp (BitVec.eq_of_getLsbD_eq h)

@[simp] theorem typeBits_setLru (w v : UInt32) : typeBits (setLru w v) = typeBits w := by
  refine ext fun i hi => ?_
  simp [typeBits, setLru, mask4 (hi.trans (by decide)), mask8 (hi.trans (by decide))]
  grind

@[simp] theorem typeBits_setEncoding (w e : UInt32) : typeBits (setEncoding w e) = typeBits w := by
  refine ext fun i hi => ?_
  simp [typeBits, setEncoding, mask4 (hi.trans (by decide)), clearF0 (hi.trans (by decide))]
  grind

theorem typeBits_setType (w t : UInt32) : typeBits (setType w t) = t &&& (0xF : UInt32) := by
  refine ext fun i hi => ?_
  simp [typeBits, setType, mask4 (hi.trans (by decide)), clear4 (hi.trans (by decide))]
  grind

@[simp] theorem encodingBits_setLru (w v : UInt32) :
    encodingBits (setLru w v) = encodingBits w := by
  refine ext fun i hi => ?_
  simp [encodingBits, setLru, mask4 (hi.trans (by decide)), mask8 (i := 4 + i) (by omega)]
  grind

theorem encodingBits_setEncoding (w e : UInt32) :
    encodingBits (setEncoding w e) = e &&& (0xF : UInt32) := by
  refine ext fun i hi => ?_
  simp [encodingBits, setEncoding, mask4 (hi.trans (by decide)), clearF0 (i := 4 + i) (by omega)]
  grind

theorem lru_setLru (w v : UInt32) : lru (setLru w v) = v &&& (0xFFFFFF : UInt32) := by
  refine ext fun i hi => ?_
  simp [lru, setLru, mask24 (hi.trans (by decide)), mask8 (i := 8 + i) (by omega)]
  grind

/-- The header word that a factory function builds, from a zero word. -/
def make (t : ObjectType) (e : ObjectEncoding) (lruClock : UInt32) : UInt32 :=
  setLru (setEncoding (setType 0 t.code) e.code) lruClock

theorem ofCode_typeBits_make (t : ObjectType) (e : ObjectEncoding) (v : UInt32) :
    ObjectType.ofCode (typeBits (make t e v)) = some t := by
  have : t.code &&& (0xF : UInt32) = t.code := by cases t <;> rfl
  rw [make, typeBits_setLru, typeBits_setEncoding, typeBits_setType, this,
    ObjectType.ofCode_code]

theorem ofCode_encodingBits_make (t : ObjectType) (e : ObjectEncoding) (v : UInt32) :
    ObjectEncoding.ofCode (encodingBits (make t e v)) = some e := by
  have : e.code &&& (0xF : UInt32) = e.code := by cases e <;> rfl
  rw [make, encodingBits_setLru, encodingBits_setEncoding, this, ObjectEncoding.ofCode_code]

end MetaWord

/-- What `ptr` holds: a `Buffer` of its own, an integer, or a `Buffer` in the object's block. -/
inductive Payload
  | raw (buf : Bytes)
  | int (n : Int64)
  | embstr (buf : Bytes)
  deriving DecidableEq, Repr

def Payload.encoding : Payload → ObjectEncoding
  | raw _ => .raw
  | int _ => .int
  | embstr _ => .embstr

structure KevaObject where
  metaWord : UInt32
  ptr : Payload
  typed : (ObjectType.ofCode (MetaWord.typeBits metaWord)).isSome
  encoded : ObjectEncoding.ofCode (MetaWord.encodingBits metaWord) = some ptr.encoding

namespace KevaObject

def type (obj : KevaObject) : ObjectType :=
  (ObjectType.ofCode (MetaWord.typeBits obj.metaWord)).get obj.typed

def encoding (obj : KevaObject) : ObjectEncoding :=
  (ObjectEncoding.ofCode (MetaWord.encodingBits obj.metaWord)).get (by simp [obj.encoded])

def lru (obj : KevaObject) : UInt32 := MetaWord.lru obj.metaWord

def allocObject (t : ObjectType) (ptr : Payload) (lruClock : UInt32) : KevaObject where
  metaWord := MetaWord.make t ptr.encoding lruClock
  ptr := ptr
  typed := by rw [MetaWord.ofCode_typeBits_make]; rfl
  encoded := MetaWord.ofCode_encodingBits_make t ptr.encoding lruClock

/-- `touch`: only the LRU bits of the header change. -/
def touch (obj : KevaObject) (lruClock : UInt32) : KevaObject where
  metaWord := MetaWord.setLru obj.metaWord lruClock
  ptr := obj.ptr
  typed := by rw [MetaWord.typeBits_setLru]; exact obj.typed
  encoded := by rw [MetaWord.encodingBits_setLru]; exact obj.encoded

/-- The content of a `Buffer`, if `ptr` points to one. -/
def buffer (obj : KevaObject) : Bytes :=
  match obj.ptr with
  | .raw buf => buf
  | .embstr buf => buf
  | .int _ => []

/-- `ptr` read as an integer. The address of a buffer is never read so. -/
def integerValue (obj : KevaObject) : Int64 :=
  match obj.ptr with
  | .int n => n
  | _ => 0

def stringView (obj : KevaObject) : Bytes :=
  match obj.encoding with
  | .raw => obj.buffer
  | .embstr => obj.buffer
  | .int => []

end KevaObject

namespace Buffer

def tryParseInt (data : Bytes) : Option Int64 :=
  if data.length = 0 ∨ 20 < data.length then none
  else
    match fromChars data with
    | .ok (n, []) => some n
    | _ => none

theorem fromChars_of_tryParseInt {b : Bytes} {n : Int64} (h : tryParseInt b = some n) :
    fromChars b = .ok (n, []) := by
  rw [tryParseInt] at h
  split_ifs at h
  split at h
  · obtain rfl : _ = n := by simpa using h
    assumption
  · cases h

theorem tryParseInt_toChars (n : Int64) : tryParseInt (toChars n) = some n := by
  have hpos : 0 < (toChars n).length := List.length_pos_iff.mpr (toChars_ne_nil n)
  have hle := length_toChars_le n
  rw [tryParseInt, if_neg (by omega), fromChars_toChars_self]

end Buffer

namespace KevaObject

/-- The encoding is chosen by content: an integer, a short string, a long string. -/
def createString (sv : Bytes) (lruClock : UInt32) : KevaObject :=
  match Buffer.tryParseInt sv with
  | some n => allocObject .string (.int n) lruClock
  | none =>
      if sv.length ≤ constants.embstrMaxLen then allocObject .string (.embstr sv) lruClock
      else allocObject .string (.raw sv) lruClock

def createStringFromInt (value : Int64) (lruClock : UInt32) : KevaObject :=
  allocObject .string (.int value) lruClock

/-- `get_string_value`, which every reading command spells out again. -/
def getStringValue (obj : KevaObject) : Bytes :=
  if obj.encoding = .int then toChars obj.integerValue else obj.stringView

theorem encoding_eq (obj : KevaObject) : obj.encoding = obj.ptr.encoding := by
  simp [encoding, obj.encoded]

@[simp] theorem type_allocObject (t : ObjectType) (p : Payload) (v : UInt32) :
    (allocObject t p v).type = t := by
  simp [type, allocObject, MetaWord.ofCode_typeBits_make]

@[simp] theorem ptr_allocObject (t : ObjectType) (p : Payload) (v : UInt32) :
    (allocObject t p v).ptr = p := rfl

@[simp] theorem ptr_touch (obj : KevaObject) (v : UInt32) : (obj.touch v).ptr = obj.ptr := rfl

@[simp] theorem type_touch (obj : KevaObject) (v : UInt32) : (obj.touch v).type = obj.type := by
  simp [type, touch]

theorem getStringValue_eq (obj : KevaObject) :
    obj.getStringValue = match obj.ptr with
      | .raw buf => buf
      | .int n => toChars n
      | .embstr buf => buf := by
  rw [getStringValue, stringView, encoding_eq, buffer, integerValue]
  cases obj.ptr <;> rfl

@[simp] theorem getStringValue_touch (obj : KevaObject) (v : UInt32) :
    (obj.touch v).getStringValue = obj.getStringValue := by
  rw [getStringValue_eq, getStringValue_eq, ptr_touch]

@[simp] theorem getStringValue_createStringFromInt (n : Int64) (v : UInt32) :
    (createStringFromInt n v).getStringValue = toChars n := getStringValue_eq _

theorem getStringValue_createString (s : Bytes) (v : UInt32) :
    (createString s v).getStringValue =
      match Buffer.tryParseInt s with
      | some n => toChars n
      | none => s := by
  rw [createString]
  cases Buffer.tryParseInt s with
  | some n => exact getStringValue_eq _
  | none =>
      dsimp only
      split_ifs <;> exact getStringValue_eq _

/-- What the factory functions build: a string whose buffer, if it has one, is no integer. -/
structure Canonical (obj : KevaObject) : Prop where
  type_eq : obj.type = .string
  parse_raw : ∀ b, obj.ptr = .raw b → Buffer.tryParseInt b = none
  parse_embstr : ∀ b, obj.ptr = .embstr b → Buffer.tryParseInt b = none

theorem canonical_createStringFromInt (n : Int64) (v : UInt32) :
    (createStringFromInt n v).Canonical := by
  refine ⟨type_allocObject .string (.int n) v, fun b hb => ?_, fun b hb => ?_⟩
  all_goals rw [createStringFromInt, ptr_allocObject] at hb; cases hb

theorem canonical_createString (s : Bytes) (v : UInt32) : (createString s v).Canonical := by
  rw [createString]
  cases hp : Buffer.tryParseInt s with
  | some n => exact canonical_createStringFromInt n v
  | none =>
      dsimp only
      split_ifs
      · refine ⟨type_allocObject .string (.embstr s) v, fun b hb => ?_, fun b hb => ?_⟩ <;> cases hb
        exact hp
      · refine ⟨type_allocObject .string (.raw s) v, fun b hb => ?_, fun b hb => ?_⟩ <;> cases hb
        exact hp

theorem Canonical.touch {obj : KevaObject} (h : obj.Canonical) (v : UInt32) :
    (obj.touch v).Canonical :=
  ⟨(type_touch obj v).trans h.type_eq, h.parse_raw, h.parse_embstr⟩

theorem Canonical.getStringValue_createString {obj : KevaObject} (h : obj.Canonical) (v : UInt32) :
    (createString obj.getStringValue v).getStringValue = obj.getStringValue := by
  rw [KevaObject.getStringValue_createString, getStringValue_eq]
  cases hp : obj.ptr with
  | int n => simp only [Buffer.tryParseInt_toChars]
  | raw b => simp only [h.parse_raw b hp]
  | embstr b => simp only [h.parse_embstr b hp]

end KevaObject

namespace LruClock

/-- `current()` at Unix time `secs`. -/
def current (secs : Int64) : UInt32 := secs.toUInt64.toUInt32 &&& constants.lruClockMax

end LruClock

end Keva
