import Keva.Common.Types
import Keva.Lib.Heap
import Keva.Lib.PowerOfTwo

/-!
# Buffers in memory

`Buffer` has a pointer, a size and a capacity. Its functions work on a heap and stop at the first
thing that they must not do, such as a write through a null pointer. `Holds` says that the block of
a buffer begins with given bytes and a zero byte. Every function keeps it, but for `resize(0)`,
which writes the zero byte without asking whether there is a block.
-/

namespace Keva

/-- What ends a call. `std::bit_ceil` is undefined where the power of two does not fit. -/
inductive MemoryFault
  | nullWrite
  | badWrite
  | badRead
  | badDelete
  | bitCeil
  deriving DecidableEq

abbrev Memory (α : Type) : Type := StateT (Heap UInt8) (Except MemoryFault) α

namespace Memory

/-- `new char[n]`, which is taken to succeed. -/
def new (n : ℕ) : Memory ℕ := fun h => .ok (h.alloc n)

/-- `delete[] data`, which does nothing to a null pointer. -/
def delete (data : Option ℕ) : Memory Unit := fun h =>
  match data with
  | none => .ok ((), h)
  | some p =>
      match h.free p with
      | none => .error .badDelete
      | some h' => .ok ((), h')

/-- A write of `xs` to `data + i`. -/
def store (data : Option ℕ) (i : ℕ) (xs : Bytes) : Memory Unit := fun h =>
  match data with
  | none => .error .nullWrite
  | some p =>
      match h.write p i xs with
      | none => .error .badWrite
      | some h' => .ok ((), h')

def load (data : Option ℕ) (n : ℕ) : Memory Bytes := fun h =>
  match data.bind (h.read · n) with
  | none => .error .badRead
  | some bytes => .ok (bytes, h)

def bitCeil (x : ℕ) : Memory ℕ := if x ≤ 2 ^ 63 then pure x.nextPowerOfTwo else throw .bitCeil

variable {α β : Type} {h h' : Heap UInt8} {p : ℕ}

theorem bind_ok {x : Memory α} {a : α} (hx : x h = .ok (a, h')) (f : α → Memory β) :
    (x >>= f) h = f a h' := by
  change (x h >>= fun r => f r.1 r.2) = _
  rw [hx]
  rfl

theorem bind_error {x : Memory α} {e : MemoryFault} (hx : x h = .error e) (f : α → Memory β) :
    (x >>= f) h = .error e := by
  change (x h >>= fun r => f r.1 r.2) = _
  rw [hx]
  rfl

theorem store_eq {bytes xs : Bytes} {back : List (Option UInt8)}
    (hp : h.blocks p = some (bytes.map some ++ back)) (hle : xs.length ≤ back.length) :
    store (some p) bytes.length xs h =
      .ok ((), h.put p (some ((bytes ++ xs).map some ++ back.drop xs.length))) := by
  have hwrite := Heap.write_eq hp hle
  rw [List.length_map] at hwrite
  unfold store
  dsimp only
  rw [hwrite, List.map_append]

theorem store_error {block : List (Option UInt8)} {i : ℕ} {xs : Bytes}
    (hp : h.blocks p = some block) (hlt : block.length < i + xs.length) :
    store (some p) i xs h = .error .badWrite := by
  unfold store
  dsimp only
  rw [Heap.write_eq_none hp hlt]

theorem load_eq {bytes : Bytes} {back : List (Option UInt8)}
    (hp : h.blocks p = some (bytes.map some ++ back)) :
    load (some p) bytes.length h = .ok (bytes, h) := by
  unfold load
  rw [Option.bind_some, Heap.read_eq hp]

end Memory

open Memory

structure Buffer where
  data : Option ℕ
  size : ℕ
  cap : ℕ

/-- Arithmetic of sizes wraps around. -/
def usize (n : ℕ) : ℕ := n % 2 ^ 64

namespace Buffer

/-- A buffer that was constructed without bytes or moved from. -/
def null : Buffer := ⟨none, 0, 0⟩

variable (b : Buffer)

/-- The content goes into the new block, if there is any. -/
def copyTo (newData : ℕ) : Memory Unit :=
  if b.data.isSome && 0 < b.size then do
    let bytes ← load b.data b.size
    store (some newData) 0 bytes
  else pure ()

def grow (required : ℕ) : Memory Buffer :=
  if required ≤ b.cap then pure b
  else do
    let newCap ← bitCeil (if required < 16 then 16 else required)
    let newData ← new (newCap + 1)
    b.copyTo newData
    delete b.data
    store (some newData) b.size [0]
    pure { b with data := some newData, cap := newCap }

/-- Copies `sv` to `data_ + i` and ends the content behind it. -/
def fill (i : ℕ) (sv : Bytes) : Memory Buffer := do
  store b.data i sv
  store b.data (usize (i + sv.length)) [0]
  pure { b with size := usize (i + sv.length) }

/-- The constructors from a string view and from a pointer with a length. -/
def ofBytes (sv : Bytes) : Memory Buffer :=
  if sv.isEmpty then pure null
  else do
    let b ← null.grow sv.length
    b.fill 0 sv

/-- What copy construction and copy assignment do with an empty buffer. -/
def copyFrom (other : Buffer) : Memory Buffer :=
  if other.size = 0 then pure b
  else do
    let b ← b.grow other.size
    let bytes ← load other.data other.size
    b.fill 0 bytes

def copy (other : Buffer) : Memory Buffer := null.copyFrom other

def clear : Memory Buffer :=
  if b.data.isSome then do
    store b.data 0 [0]
    pure { b with size := 0 }
  else pure { b with size := 0 }

/-- Assignment from another buffer. -/
def copyAssign (other : Buffer) : Memory Buffer := do
  let b ← b.clear
  b.copyFrom other

/-- The block of the buffer is freed and that of the other taken over. -/
def moveAssign (other : Buffer) : Memory Buffer := do
  delete b.data
  pure other

def append (sv : Bytes) : Memory Buffer :=
  if sv.isEmpty then pure b
  else do
    let b ← b.grow (usize (b.size + sv.length))
    b.fill b.size sv

def pad (newSize : ℕ) : Memory Unit :=
  if b.size < newSize then store b.data b.size (List.replicate (newSize - b.size) 0) else pure ()

def resize (newSize : ℕ) : Memory Buffer := do
  let b ← if b.cap < newSize then b.grow newSize else pure b
  b.pad newSize
  store b.data newSize [0]
  pure { b with size := newSize }

def reserve (capacity : ℕ) : Memory Buffer := b.grow capacity

/-- The bytes that `view` shows; without any of them nothing is read. -/
def view : Memory Bytes := if b.size = 0 then pure [] else load b.data b.size

structure IsCapacity (cap : ℕ) : Prop where
  isPowerOfTwo : cap.isPowerOfTwo
  min : 16 ≤ cap
  max : cap ≤ 2 ^ 63

/-- The block has one byte more than the capacity says. Behind the content stands a zero byte; the
cells behind that may never have been written. -/
inductive Holds (h : Heap UInt8) : Buffer → Bytes → Prop
  | null : Holds h null []
  | block {p cap : ℕ} {bytes : Bytes} {rest : List (Option UInt8)}
      (hblock : h.blocks p = some (bytes.map some ++ some 0 :: rest))
      (hlength : bytes.length + rest.length = cap) (hcap : IsCapacity cap) :
      Holds h ⟨some p, bytes.length, cap⟩ bytes

variable {b} {h h' : Heap UInt8} {bytes sv : Bytes} {p cap required : ℕ}
  {back : List (Option UInt8)}

theorem Holds.size_eq (hb : b.Holds h bytes) : b.size = bytes.length := by
  cases hb with
  | null => rfl
  | block hblock hlength hcap => rfl

theorem Holds.size_le (hb : b.Holds h bytes) : b.size ≤ b.cap := by
  cases hb with
  | null => exact Nat.le_refl 0
  | block hblock hlength hcap =>
      dsimp only
      omega

theorem Holds.cap_le (hb : b.Holds h bytes) : b.cap ≤ 2 ^ 63 := by
  cases hb with
  | null => exact Nat.zero_le _
  | block hblock hlength hcap => exact hcap.max

theorem Holds.live (hb : b.Holds h bytes) (hp : b.data = some p) : h.blocks p ≠ none := by
  cases hb with
  | null => cases hp
  | block hblock hlength hcap =>
      cases hp
      rw [hblock]
      nofun

theorem Holds.congr (hb : b.Holds h bytes)
    (hsame : ∀ p, b.data = some p → h'.blocks p = h.blocks p) : b.Holds h' bytes := by
  cases hb with
  | null => exact .null
  | block hblock hlength hcap => exact .block ((hsame _ rfl).trans hblock) hlength hcap

theorem Holds.load_eq (hb : b.Holds h bytes) (hsize : b.size ≠ 0) :
    load b.data b.size h = .ok (bytes, h) := by
  cases hb with
  | null => exact absurd rfl hsize
  | block hblock hlength hcap => exact Memory.load_eq hblock

theorem Holds.view_eq (hb : b.Holds h bytes) : b.view h = .ok (bytes, h) := by
  unfold view
  split_ifs with hsize
  · rw [hb.size_eq] at hsize
    rw [List.eq_nil_of_length_eq_zero hsize]
    rfl
  · exact hb.load_eq hsize

/-- The call gives a buffer that holds `bytes` and has one block at most in the place of `old`. -/
def Yields (f : Memory Buffer) (h : Heap UInt8) (old : Option ℕ) (bytes : Bytes) : Prop :=
  ∃ b' h', f h = .ok (b', h') ∧ b'.Holds h' bytes ∧ h.Exchange old h' b'.data

theorem yields_pure (hb : b.Holds h bytes) : Yields (pure b) h b.data bytes :=
  ⟨b, h, rfl, hb, .refl h b.data⟩

theorem store_zero (hblock : h.blocks p = some (bytes.map some ++ back))
    (hlength : bytes.length + back.length = cap + 1) (hle : bytes.length ≤ cap)
    (hcap : IsCapacity cap) :
    ∃ h', store (some p) bytes.length [0] h = .ok ((), h') ∧
      Holds h' ⟨some p, bytes.length, cap⟩ bytes ∧ h.Exchange (some p) h' (some p) := by
  have hroom : [(0 : UInt8)].length ≤ back.length := by
    rw [List.length_singleton]
    omega
  have hrest : bytes.length + (back.drop 1).length = cap := by
    rw [List.length_drop]
    omega
  refine ⟨_, store_eq hblock hroom, .block ?_ hrest hcap, Heap.exchange_put ..⟩
  rw [Heap.blocks_put, List.map_append, List.append_assoc]
  rfl

theorem Yields.bind {α : Type} {x : Memory α} {a : α} {f : α → Memory Buffer}
    {old mid : Option ℕ} (hx : x h = .ok (a, h')) (he : h.Exchange old h' mid)
    (hf : Yields (f a) h' mid bytes) : Yields (x >>= f) h old bytes := by
  obtain ⟨b', h'', hrun, hholds, he'⟩ := hf
  exact ⟨b', h'', (bind_ok hx f).trans hrun, hholds, he.trans he'⟩

theorem yields_store_zero (hblock : h.blocks p = some (bytes.map some ++ back))
    (hlength : bytes.length + back.length = cap + 1) (hle : bytes.length ≤ cap)
    (hcap : IsCapacity cap) :
    Yields (do
        store (some p) bytes.length [0]
        pure ⟨some p, bytes.length, cap⟩) h (some p) bytes := by
  obtain ⟨h', hstore, hholds, he⟩ := store_zero hblock hlength hle hcap
  exact .bind hstore he (yields_pure hholds)

theorem fill_spec (hblock : h.blocks p = some (bytes.map some ++ back))
    (hlength : bytes.length + back.length = cap + 1) (hle : bytes.length + sv.length ≤ cap)
    (hcap : IsCapacity cap) (size : ℕ) :
    Yields (fill ⟨some p, size, cap⟩ bytes.length sv) h (some p) (bytes ++ sv) := by
  have hmax := hcap.max
  have hstore := store_eq hblock (by omega : sv.length ≤ back.length)
  have hsize : usize (bytes.length + sv.length) = (bytes ++ sv).length := by
    rw [List.length_append]
    exact Nat.mod_eq_of_lt (by omega)
  have hrest : (bytes ++ sv).length + (back.drop sv.length).length = cap + 1 := by
    rw [List.length_append, List.length_drop]
    omega
  unfold fill
  dsimp only
  rw [hsize]
  apply Yields.bind hstore (Heap.exchange_put ..)
  apply yields_store_zero (Heap.blocks_put _) hrest _ hcap
  rw [List.length_append]
  exact hle

theorem copyTo_spec {q n : ℕ} (hb : b.Holds h bytes)
    (hq : h.blocks q = some (List.replicate n none)) (hn : bytes.length ≤ n) :
    ∃ h', b.copyTo q h = .ok ((), h') ∧
      h'.blocks q = some (bytes.map some ++ List.replicate (n - bytes.length) none) ∧
      h.Exchange (some q) h' (some q) := by
  unfold copyTo
  split_ifs with hcopy
  · have hsize : b.size ≠ 0 := by
      rw [Bool.and_eq_true, decide_eq_true_iff] at hcopy
      omega
    have hroom : bytes.length ≤ (List.replicate n (none : Option UInt8)).length := by
      rw [List.length_replicate]
      exact hn
    have hblock : h.blocks q = some (([] : Bytes).map some ++ List.replicate n none) := hq
    have hstore := store_eq hblock hroom
    refine ⟨_, (bind_ok (hb.load_eq hsize) _).trans hstore, ?_, Heap.exchange_put ..⟩
    rw [Heap.blocks_put, List.nil_append, List.drop_replicate]
  · have hempty : bytes = [] := by
      cases hb with
      | null => rfl
      | block hblock hlength hcap =>
          rw [Option.isSome_some, Bool.true_and, decide_eq_true_iff] at hcopy
          dsimp only at hcopy
          exact List.eq_nil_of_length_eq_zero (by omega)
    subst hempty
    exact ⟨h, rfl, hq, .refl ..⟩

theorem delete_spec {data : Option ℕ} (hlive : ∀ p, data = some p → h.blocks p ≠ none) :
    ∃ h', delete data h = .ok ((), h') ∧ h.Exchange data h' none := by
  cases data with
  | none => exact ⟨h, rfl, .refl ..⟩
  | some p =>
      obtain ⟨block, hblock⟩ := Option.ne_none_iff_exists'.mp (hlive p rfl)
      refine ⟨h.put p none, ?_, Heap.exchange_free ..⟩
      unfold delete Heap.free
      dsimp only
      rw [hblock]
      rfl

theorem isCapacity_nextPowerOfTwo (hrequired : required ≤ 2 ^ 63) :
    IsCapacity (if required < 16 then 16 else required).nextPowerOfTwo ∧
      required ≤ (if required < 16 then 16 else required).nextPowerOfTwo := by
  have hle := PowerOfTwo.le_nextPowerOfTwo (if required < 16 then 16 else required)
  have hmax := PowerOfTwo.nextPowerOfTwo_le (k := 2 ^ 63)
    (n := if required < 16 then 16 else required) (by split_ifs <;> omega) ⟨63, rfl⟩
    (by split_ifs <;> omega)
  refine ⟨⟨Nat.isPowerOfTwo_nextPowerOfTwo _, ?_, hmax⟩, ?_⟩
  · split_ifs at hle ⊢ <;> omega
  · split_ifs at hle ⊢ <;> omega

theorem grow_spec (hb : b.Holds h bytes) (hrequired : required ≤ 2 ^ 63) :
    ∃ b' h', b.grow required h = .ok (b', h') ∧ b'.Holds h' bytes ∧
      h.Exchange b.data h' b'.data ∧ required ≤ b'.cap := by
  unfold grow
  by_cases hle : required ≤ b.cap
  · rw [if_pos hle]
    exact ⟨b, h, rfl, hb, .refl .., hle⟩
  · rw [if_neg hle]
    obtain ⟨hcap, hroom⟩ := isCapacity_nextPowerOfTwo hrequired
    have hceil : bitCeil (if required < 16 then 16 else required) h =
        .ok ((if required < 16 then 16 else required).nextPowerOfTwo, h) := by
      unfold bitCeil
      rw [if_pos (by split_ifs <;> omega)]
      rfl
    generalize (if required < 16 then 16 else required).nextPowerOfTwo = cap at hcap hroom hceil
    have hnew : new (cap + 1) h = .ok (h.next, (h.alloc (cap + 1)).2) := rfl
    have hsize := hb.size_eq
    have hsizecap := hb.size_le
    have hdata : ∀ p, b.data = some p → p ≠ h.next := by
      rintro p hp rfl
      exact hb.live hp (h.fresh _ (Nat.le_refl _))
    have hb₁ : b.Holds (h.alloc (cap + 1)).2 bytes :=
      hb.congr fun p hp => Heap.blocks_put_of_ne (hdata p hp) _
    obtain ⟨h₂, hcopy, hq₂, he₂⟩ := copyTo_spec hb₁ (Heap.blocks_put _) (by omega)
    have hb₂ : b.Holds h₂ bytes := hb₁.congr fun p hp =>
      he₂.other p (fun hq => hdata p hp (Option.some.inj hq).symm)
        (fun hq => hdata p hp (Option.some.inj hq).symm)
    obtain ⟨h₃, hdelete, he₃⟩ := delete_spec fun p hp => hb₂.live hp
    have hq₃ : h₃.blocks h.next = h₂.blocks h.next :=
      he₃.other _ (fun hq => hdata _ hq rfl) nofun
    obtain ⟨h₄, hzero, hholds, he₄⟩ := store_zero (hq₃.trans hq₂)
      (by rw [List.length_replicate]; omega) (by omega) hcap
    refine ⟨_, h₄, ?_, hholds, ?_, hroom⟩
    · rw [bind_ok hceil, bind_ok hnew, bind_ok hcopy, bind_ok hdelete, hsize,
        bind_ok hzero]
      rfl
    · exact (((Heap.exchange_alloc h _).trans he₂).replace he₃).trans he₄

theorem Holds.fill (hb : b.Holds h bytes) (hpos : 0 < b.cap)
    (hle : bytes.length + sv.length ≤ b.cap) :
    Yields (b.fill bytes.length sv) h b.data (bytes ++ sv) := by
  cases hb with
  | null => exact absurd hpos (Nat.lt_irrefl 0)
  | block hblock hlength hcap =>
      refine fill_spec hblock ?_ hle hcap _
      dsimp only [List.length_cons]
      omega

theorem append_spec (hb : b.Holds h bytes) (hle : bytes.length + sv.length ≤ 2 ^ 63) :
    Yields (b.append sv) h b.data (bytes ++ sv) := by
  unfold append
  split_ifs with hempty
  · rw [List.isEmpty_iff.mp hempty, List.append_nil]
    exact yields_pure hb
  · have hpos := List.length_pos_iff.mpr (mt List.isEmpty_iff.mpr hempty)
    have hrequired : usize (b.size + sv.length) = bytes.length + sv.length := by
      rw [hb.size_eq]
      exact Nat.mod_eq_of_lt (by omega)
    obtain ⟨b', h', hgrow, hb', he, hcap⟩ := grow_spec hb hle
    rw [hrequired]
    refine .bind hgrow he ?_
    rw [hb'.size_eq]
    exact hb'.fill (by omega) hcap

theorem ofBytes_spec (h : Heap UInt8) (hle : sv.length ≤ 2 ^ 63) :
    Yields (ofBytes sv) h none sv := by
  unfold ofBytes
  split_ifs with hempty
  · rw [List.isEmpty_iff.mp hempty]
    exact yields_pure .null
  · have hpos := List.length_pos_iff.mpr (mt List.isEmpty_iff.mpr hempty)
    obtain ⟨b', h', hgrow, hb', he, hcap⟩ := grow_spec (.null : null.Holds h []) hle
    have hfill := @Holds.fill b' h' [] sv hb' (by omega) (by rw [List.length_nil]; omega)
    exact .bind hgrow he hfill

theorem Holds.of_exchange {other : Buffer} {old new : Option ℕ} (hother : other.Holds h bytes)
    (he : h.Exchange old h' new) (hne : ∀ p, other.data = some p → old ≠ some p) :
    other.Holds h' bytes ∧ ∀ p, other.data = some p → new ≠ some p := by
  have hnew : ∀ p, other.data = some p → new ≠ some p := by
    intro p hp hnew
    rcases he.fresh p hnew with hold | hdead
    · exact hne p hp hold
    · exact hother.live hp hdead
  exact ⟨hother.congr fun p hp => he.other p (hne p hp) (hnew p hp), hnew⟩

theorem copyFrom_spec {other : Buffer} (hb : b.Holds h []) (hother : other.Holds h bytes)
    (hne : ∀ p, other.data = some p → b.data ≠ some p) :
    Yields (b.copyFrom other) h b.data bytes := by
  have hsize := hother.size_eq
  unfold copyFrom
  split_ifs with hempty
  · rw [List.eq_nil_of_length_eq_zero (hsize.symm.trans hempty)]
    exact yields_pure hb
  · obtain ⟨b', h', hgrow, hb', he, hcap⟩ := grow_spec hb (hother.size_le.trans hother.cap_le)
    have hload := (hother.of_exchange he hne).1.load_eq hempty
    have hfill := @Holds.fill b' h' [] bytes hb' (by omega) (by rw [List.length_nil]; omega)
    exact .bind hgrow he (.bind hload (.refl ..) hfill)

theorem clear_spec (hb : b.Holds h bytes) : Yields b.clear h b.data [] := by
  unfold clear
  cases hb with
  | null => exact yields_pure .null
  | block hblock hlength hcap =>
      rename_i p cap rest
      have hall : ([] : Bytes).length + (bytes.map some ++ some 0 :: rest).length = cap + 1 := by
        rw [List.length_nil, List.length_append, List.length_map, List.length_cons]
        omega
      exact @yields_store_zero h [] p cap _ hblock hall (Nat.zero_le _) hcap

theorem copyAssign_spec {other : Buffer} {bytes' : Bytes} (hb : b.Holds h bytes)
    (hother : other.Holds h bytes') (hne : ∀ p, other.data = some p → b.data ≠ some p) :
    Yields (b.copyAssign other) h b.data bytes' := by
  obtain ⟨b', h', hclear, hb', he⟩ := clear_spec hb
  obtain ⟨hother', hne'⟩ := hother.of_exchange he hne
  exact .bind hclear he (copyFrom_spec hb' hother' hne')

theorem pad_spec {newSize : ℕ} (hb : b.Holds h bytes) (hroom : newSize ≤ b.cap)
    (hdata : b.data ≠ none) :
    Yields (do
        b.pad newSize
        store b.data newSize [0]
        pure { b with size := newSize }) h b.data (VectorOps.resize 0 bytes newSize) := by
  cases hb with
  | null => exact absurd rfl hdata
  | block hblock hlength hcap =>
      rename_i p cap rest
      have hlen := @VectorOps.length_resize UInt8 0 bytes newSize
      dsimp only at hroom
      have hzero : ∀ {h : Heap UInt8} (back : List (Option UInt8)),
          h.blocks p = some ((VectorOps.resize 0 bytes newSize).map some ++ back) →
          newSize + back.length = cap + 1 →
          Yields (do
            store (some p) newSize [0]
            pure ⟨some p, newSize, cap⟩) h (some p) (VectorOps.resize 0 bytes newSize) := by
        intro h back hblock hback
        have hyields := yields_store_zero hblock (by omega) (by omega) hcap
        rwa [hlen] at hyields
      unfold pad
      dsimp only
      split_ifs with hlt
      · have hfits : (List.replicate (newSize - bytes.length) (0 : UInt8)).length ≤
            (some 0 :: rest).length := by
          rw [List.length_replicate, List.length_cons]
          omega
        have hresize : bytes ++ List.replicate (newSize - bytes.length) 0 =
            VectorOps.resize 0 bytes newSize := by
          rw [VectorOps.resize, List.take_of_length_le hlt.le]
        have hstore := store_eq hblock hfits
        rw [hresize] at hstore
        refine .bind hstore (Heap.exchange_put ..) (hzero _ (Heap.blocks_put _) ?_)
        rw [List.length_drop, List.length_replicate, List.length_cons]
        omega
      · have hresize : VectorOps.resize 0 bytes newSize = bytes.take newSize := by
          have hnone : newSize - bytes.length = 0 := by omega
          rw [VectorOps.resize, hnone, List.replicate_zero, List.append_nil]
        refine .bind (h := h) rfl (.refl ..)
          (hzero ((bytes.drop newSize).map some ++ some 0 :: rest) ?_ ?_)
        · rw [hblock, hresize, ← List.append_assoc, ← List.map_append, List.take_append_drop]
        · rw [List.length_append, List.length_map, List.length_drop, List.length_cons]
          omega

theorem resize_spec {newSize : ℕ} (hb : b.Holds h bytes) (hle : newSize ≤ 2 ^ 63)
    (hnull : newSize = 0 → b.data ≠ none) :
    Yields (b.resize newSize) h b.data (VectorOps.resize 0 bytes newSize) := by
  unfold resize
  split_ifs with hgrows
  · obtain ⟨b', h', hgrow, hb', he, hcap⟩ := grow_spec hb hle
    have hdata : b'.data ≠ none := by
      cases hb' with
      | null => exact absurd hgrows (by rw [Nat.le_zero.mp hcap]; exact Nat.not_lt_zero _)
      | block hblock hlength hcap => nofun
    exact .bind hgrow he (pad_spec hb' hcap hdata)
  · have hdata : b.data ≠ none := by
      cases hb with
      | null => exact hnull (Nat.le_zero.mp (Nat.le_of_not_lt hgrows))
      | block hblock hlength hcap => nofun
    exact .bind (h := h) rfl (.refl ..) (pad_spec hb (Nat.le_of_not_lt hgrows) hdata)

theorem reserve_spec (hb : b.Holds h bytes) (hle : required ≤ 2 ^ 63) :
    Yields (b.reserve required) h b.data bytes := by
  obtain ⟨b', h', hgrow, hb', he, -⟩ := grow_spec hb hle
  exact ⟨b', h', hgrow, hb', he⟩

theorem grow_error (hb : b.Holds h bytes) (hlt : 2 ^ 63 < required) :
    b.grow required h = .error .bitCeil := by
  have hcap := hb.cap_le
  have hceil : bitCeil (if required < 16 then 16 else required) h = .error .bitCeil := by
    unfold bitCeil
    rw [if_neg (by split_ifs <;> omega)]
    rfl
  unfold grow
  rw [if_neg (by omega), bind_error hceil]

theorem ofBytes_error (h : Heap UInt8) (hlt : 2 ^ 63 < sv.length) :
    ofBytes sv h = .error .bitCeil := by
  have hempty : ¬ sv.isEmpty = true := by
    intro hnil
    rw [List.isEmpty_iff.mp hnil, List.length_nil] at hlt
    omega
  unfold ofBytes
  rw [if_neg hempty, bind_error (grow_error (.null : null.Holds h []) hlt)]

theorem append_error (hb : b.Holds h bytes) (hsv : sv ≠ [])
    (hlt : 2 ^ 63 < bytes.length + sv.length) : ∃ e, b.append sv h = .error e := by
  unfold append
  rw [if_neg (mt List.isEmpty_iff.mp hsv)]
  by_cases hwrap : 2 ^ 63 < usize (b.size + sv.length)
  · exact ⟨.bitCeil, bind_error (grow_error hb hwrap) _⟩
  · obtain ⟨b', h', hgrow, hb', he, hcap⟩ := grow_spec hb (Nat.le_of_not_lt hwrap)
    rw [bind_ok hgrow]
    cases hb' with
    | null => exact ⟨.nullWrite, rfl⟩
    | block hblock hlength hcap' =>
        have hmax := hcap'.max
        refine ⟨.badWrite, bind_error (store_error hblock ?_) _⟩
        rw [hb.size_eq] at hwrap
        unfold usize at hwrap
        rw [List.length_append, List.length_map, List.length_cons]
        dsimp only
        omega

theorem resize_error {newSize : ℕ} (hb : b.Holds h bytes) (hlt : 2 ^ 63 < newSize) :
    b.resize newSize h = .error .bitCeil := by
  have hcap := hb.cap_le
  unfold resize
  rw [if_pos (by omega), bind_error (grow_error hb hlt)]

theorem resize_zero_error (hb : b.Holds h bytes) (hdata : b.data = none) :
    b.resize 0 h = .error .nullWrite := by
  cases hb with
  | null => rfl
  | block hblock hlength hcap => cases hdata

end Buffer

end Keva
