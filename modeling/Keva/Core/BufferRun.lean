import Keva.Core.Buffer
import Keva.Lib.Run

/-!
# Programs with buffers

Any number of buffers are constructed, changed, copied, moved and destroyed over one heap. The
abstract side has a byte string in place of each buffer. A program runs without a fault just if it
asks for no more than 2^63 bytes and does not resize a buffer without a block to 0, and then every
buffer shows its byte string.
-/

namespace Keva

open Memory

inductive BufferCall (ι : Type)
  | construct (n : ι)
  | ofBytes (n : ι) (sv : Bytes)
  | copy (n m : ι)
  | move (n m : ι)
  | append (n : ι) (sv : Bytes)
  | resize (n : ι) (newSize : ℕ)
  | reserve (n : ι) (capacity : ℕ)
  | clear (n : ι)
  | copyAssign (n m : ι)
  | moveAssign (n m : ι)
  | destroy (n : ι)

/-- The buffers that there are, by name, and the heap that they share. -/
structure BufferObjects (ι : Type) where
  heap : Heap UInt8
  object : ι → Option Buffer

variable {ι : Type}

section

variable [DecidableEq ι]

namespace BufferObjects

def empty : BufferObjects ι := ⟨.empty, fun _ => none⟩

/-- A call on a buffer. If there is no such buffer, then there is no such call. -/
def onObject (s : BufferObjects ι) (n : ι) (f : Buffer → Memory Buffer) :
    Except MemoryFault (BufferObjects ι) :=
  match s.object n with
  | none => .ok s
  | some b => do
      let (b', heap) ← f b s.heap
      .ok ⟨heap, Function.update s.object n (some b')⟩

/-- A construction, under a name that is not in use. -/
def build (s : BufferObjects ι) (n : ι) (f : Memory Buffer) :
    Except MemoryFault (BufferObjects ι) :=
  match s.object n with
  | some _ => .ok s
  | none => do
      let (b, heap) ← f s.heap
      .ok ⟨heap, Function.update s.object n (some b)⟩

def destroy (s : BufferObjects ι) (n : ι) : Except MemoryFault (BufferObjects ι) :=
  match s.object n with
  | none => .ok s
  | some b => do
      let (_, heap) ← delete b.data s.heap
      .ok ⟨heap, Function.update s.object n none⟩

/-- `other` loses its block to `b`, the buffer that is to have the name `n`. -/
def takeOver (s : BufferObjects ι) (n m : ι) (b : Buffer) : BufferObjects ι :=
  { s with object := Function.update (Function.update s.object m (some .null)) n (some b) }

def step (s : BufferObjects ι) : BufferCall ι → Except MemoryFault (BufferObjects ι)
  | .construct n => s.build n (pure .null)
  | .ofBytes n sv => s.build n (Buffer.ofBytes sv)
  | .copy n m =>
      match s.object m with
      | none => .ok s
      | some other => s.build n (Buffer.copy other)
  | .move n m =>
      match s.object n, s.object m with
      | none, some other => .ok (s.takeOver n m other)
      | _, _ => .ok s
  | .append n sv => s.onObject n fun b => b.append sv
  | .resize n newSize => s.onObject n fun b => b.resize newSize
  | .reserve n capacity => s.onObject n fun b => b.reserve capacity
  | .clear n => s.onObject n Buffer.clear
  | .copyAssign n m =>
      if n = m then .ok s
      else
        match s.object m with
        | none => .ok s
        | some other => s.onObject n fun b => b.copyAssign other
  | .moveAssign n m =>
      if n = m then .ok s
      else
        match s.object n, s.object m with
        | some b, some other => do
            let (b', heap) ← b.moveAssign other s.heap
            .ok (takeOver { s with heap := heap } n m b')
        | _, _ => .ok s
  | .destroy n => s.destroy n

end BufferObjects

/-- The byte string of each buffer that there is. -/
abbrev ByteStrings (ι : Type) : Type := ι → Option Bytes

namespace ByteStrings

def onString (v : ByteStrings ι) (n : ι) (f : Bytes → Bytes) : ByteStrings ι :=
  match v n with
  | none => v
  | some bytes => Function.update v n (some (f bytes))

theorem onString_self {v : ByteStrings ι} {n : ι} {bytes : Bytes} {f : Bytes → Bytes}
    (hv : v n = some bytes) (hf : f bytes = bytes) : v.onString n f = v := by
  unfold onString
  rw [hv]
  dsimp only
  rw [hf]
  exact Function.update_eq_self_iff.mpr hv.symm

def build (v : ByteStrings ι) (n : ι) (bytes : Bytes) : ByteStrings ι :=
  match v n with
  | some _ => v
  | none => Function.update v n (some bytes)

def takeOver (v : ByteStrings ι) (n m : ι) (bytes : Bytes) : ByteStrings ι :=
  Function.update (Function.update v m (some [])) n (some bytes)

def effect (v : ByteStrings ι) : BufferCall ι → ByteStrings ι
  | .construct n => v.build n []
  | .ofBytes n sv => v.build n sv
  | .copy n m =>
      match v m with
      | none => v
      | some bytes => v.build n bytes
  | .move n m =>
      match v n, v m with
      | none, some bytes => v.takeOver n m bytes
      | _, _ => v
  | .append n sv => v.onString n fun bytes => bytes ++ sv
  | .resize n newSize =>
      v.onString n fun bytes =>
        bytes.take newSize ++ List.replicate (newSize - bytes.length) 0
  | .reserve _ _ => v
  | .clear n => v.onString n fun _ => []
  | .copyAssign n m =>
      match v m with
      | none => v
      | some bytes => v.onString n fun _ => bytes
  | .moveAssign n m =>
      if n = m then v
      else
        match v n, v m with
        | some _, some bytes => v.takeOver n m bytes
        | _, _ => v
  | .destroy n => Function.update v n none

end ByteStrings

end

structure Buffer.Sound (h : Heap UInt8) (b : Buffer) (bytes : Bytes) : Prop where
  view : b.view h = .ok (bytes, h)
  size_eq : b.size = bytes.length
  size_le : b.size ≤ b.cap
  cap : b.cap = 0 ∨ 16 ≤ b.cap ∧ b.cap.isPowerOfTwo
  data : b.data = none ↔ b.cap = 0
  sentinel : ∀ p, b.data = some p → ∃ block, h.blocks p = some block ∧
    block.length = b.cap + 1 ∧ block[b.size]? = some (some 0)

theorem Buffer.Holds.sound {h : Heap UInt8} {b : Buffer} {bytes : Bytes} (hb : b.Holds h bytes) :
    b.Sound h bytes := by
  refine ⟨hb.view_eq, hb.size_eq, hb.size_le, ?_, ?_, ?_⟩
  · cases hb with
    | null => exact .inl rfl
    | block hblock hlength hcap => exact .inr ⟨hcap.min, hcap.isPowerOfTwo⟩
  · cases hb with
    | null => exact ⟨fun _ => rfl, fun _ => rfl⟩
    | block hblock hlength hcap =>
        have hmin := hcap.min
        exact ⟨nofun, fun hzero => by dsimp only at hzero; omega⟩
  · intro p hp
    cases hb with
    | null => cases hp
    | block hblock hlength hcap =>
        cases hp
        refine ⟨_, hblock, ?_, ?_⟩
        · rw [List.length_append, List.length_map, List.length_cons]
          dsimp only
          omega
        · rw [List.getElem?_append_right (List.length_map some).le, List.length_map, Nat.sub_self]
          rfl

namespace BufferObjects

/-- The block of the buffer with the name `n`. -/
def data (s : BufferObjects ι) (n : ι) : Option ℕ := (s.object n).bind Buffer.data

/-- Each buffer holds its byte string, in a block of its own, and there are no other blocks. -/
structure Represents (s : BufferObjects ι) (v : ByteStrings ι) : Prop where
  holds : ∀ n, Option.Rel (Buffer.Holds s.heap) (s.object n) (v n)
  owned : s.heap.Owned s.data

theorem represents_empty : (empty : BufferObjects ι).Represents fun _ => none :=
  ⟨fun _ => .none, Heap.owned_empty⟩

theorem Represents.cases {s : BufferObjects ι} {v : ByteStrings ι} (hr : s.Represents v)
    (n : ι) :
    s.object n = none ∧ v n = none ∨
      ∃ b bytes, s.object n = some b ∧ v n = some bytes ∧ b.Holds s.heap bytes ∧
        s.data n = b.data := by
  have hn := hr.holds n
  unfold data
  generalize s.object n = b, v n = bytes at hn
  cases hn with
  | none => exact .inl ⟨rfl, rfl⟩
  | some hb => exact .inr ⟨_, _, rfl, rfl, hb, rfl⟩

theorem Represents.data_ne {s : BufferObjects ι} {v : ByteStrings ι} (hr : s.Represents v)
    {n m : ι} (hne : n ≠ m) {b other : Buffer} (hb : s.object n = some b)
    (ho : s.object m = some other) (p : ℕ) (hp : other.data = some p) : b.data ≠ some p := by
  intro hbp
  have hn : s.data n = some p := by
    rw [data, hb]
    exact hbp
  have hm : s.data m = some p := by
    rw [data, ho]
    exact hp
  exact hne (hr.owned.inj n m p hn hm)

end BufferObjects

variable [DecidableEq ι]

namespace BufferCall

/-- The program runs without a fault, and in the end each buffer shows its byte string. -/
def Behaves (ops : List (BufferCall ι)) : Prop :=
  ∃ s, ops.foldlM BufferObjects.step .empty = .ok s ∧
    ∀ n, Option.Rel (Buffer.Sound s.heap) (s.object n)
      (ops.foldl ByteStrings.effect (fun _ => none) n)

/-- No more than 2^63 bytes are asked for, and no buffer without a block is resized to 0. -/
def Defined (s : BufferObjects ι) : BufferCall ι → Prop
  | ofBytes n sv => s.object n = none → sv.length ≤ 2 ^ 63
  | append n sv => ∀ b, s.object n = some b → sv ≠ [] → b.size + sv.length ≤ 2 ^ 63
  | resize n newSize => ∀ b, s.object n = some b →
      newSize ≤ 2 ^ 63 ∧ (newSize = 0 → b.data ≠ none)
  | reserve n capacity => ∀ b, s.object n = some b → capacity ≤ 2 ^ 63
  | _ => True

end BufferCall

theorem rel_imp {α β : Type} {r r' : α → β → Prop} {a : Option α} {b : Option β}
    (h : Option.Rel r a b) (himp : ∀ x y, a = some x → b = some y → r x y → r' x y) :
    Option.Rel r' a b := by
  cases h with
  | some h => exact .some (himp _ _ rfl rfl h)
  | none => exact .none

namespace BufferObjects

variable {s : BufferObjects ι} {v : ByteStrings ι} {n m : ι} {h' : Heap UInt8}

theorem data_update (object : ι → Option Buffer) (n : ι) (b : Option Buffer) (h : Heap UInt8) :
    data ⟨h, Function.update object n b⟩ =
      Function.update (data ⟨h, object⟩) n (b.bind Buffer.data) :=
  Function.comp_update (fun b : Option Buffer => b.bind Buffer.data) object n b

theorem Represents.update (hr : s.Represents v) (b' : Option Buffer) {bytes' : Option Bytes}
    (he : s.heap.Exchange (s.data n) h' (b'.bind Buffer.data))
    (hb' : Option.Rel (Buffer.Holds h') b' bytes') :
    Represents ⟨h', Function.update s.object n b'⟩ (Function.update v n bytes') := by
  constructor
  · intro m
    dsimp only
    by_cases hm : m = n
    · subst hm
      rw [Function.update_self, Function.update_self]
      exact hb'
    · rw [Function.update_of_ne hm, Function.update_of_ne hm]
      refine rel_imp (hr.holds m) fun other bytes ho _ hother => ?_
      refine hother.congr fun p hp => (hr.owned.blocks_eq he hm ?_).2
      rw [data, ho]
      exact hp
  · rw [data_update]
    refine hr.owned.exchange he fun p hp => ?_
    cases hb' with
    | none => cases hp
    | some hb' => exact hb'.live hp

theorem Represents.onObject (hr : s.Represents v) {f : Buffer → Memory Buffer} {g : Bytes → Bytes}
    (hf : ∀ b bytes, s.object n = some b → b.Holds s.heap bytes →
      Buffer.Yields (f b) s.heap b.data (g bytes)) :
    ∃ s', s.onObject n f = .ok s' ∧ s'.Represents (v.onString n g) := by
  unfold BufferObjects.onObject ByteStrings.onString
  rcases hr.cases n with ⟨ho, hv⟩ | ⟨b, bytes, ho, hv, hb, hdata⟩
  · rw [ho, hv]
    exact ⟨s, rfl, hr⟩
  · obtain ⟨b', h', hrun, hb', he⟩ := hf b bytes ho hb
    rw [ho, hv]
    dsimp only
    rw [hrun]
    rw [← hdata] at he
    exact ⟨_, rfl, hr.update (some b') he (.some hb')⟩

theorem Represents.build (hr : s.Represents v) {f : Memory Buffer} {bytes : Bytes}
    (hf : s.object n = none → Buffer.Yields f s.heap none bytes) :
    ∃ s', s.build n f = .ok s' ∧ s'.Represents (v.build n bytes) := by
  unfold BufferObjects.build ByteStrings.build
  rcases hr.cases n with ⟨ho, hv⟩ | ⟨b, bytes, ho, hv, -, -⟩
  · obtain ⟨b', h', hrun, hb', he⟩ := hf ho
    have hdata : s.data n = none := by
      rw [data, ho]
      rfl
    rw [ho, hv]
    dsimp only
    rw [hrun]
    rw [← hdata] at he
    exact ⟨_, rfl, hr.update (some b') he (.some hb')⟩
  · rw [ho, hv]
    exact ⟨s, rfl, hr⟩

theorem Represents.destroy (hr : s.Represents v) (n : ι) :
    ∃ s', s.destroy n = .ok s' ∧ s'.Represents (Function.update v n none) := by
  unfold BufferObjects.destroy
  rcases hr.cases n with ⟨ho, hv⟩ | ⟨b, bytes, ho, hv, hb, hdata⟩
  · rw [ho, ← hv, Function.update_eq_self]
    exact ⟨s, rfl, hr⟩
  · obtain ⟨h', hdelete, he⟩ := Buffer.delete_spec fun p hp => hb.live hp
    rw [ho]
    dsimp only
    rw [hdelete]
    rw [← hdata] at he
    exact ⟨_, rfl, hr.update none he .none⟩

theorem Represents.takeOver (hr : s.Represents v) {other : Buffer} {bytes : Bytes}
    (hn : s.data n = none) (hne : n ≠ m) (ho : s.object m = some other)
    (hv : v m = some bytes) : (s.takeOver n m other).Represents (v.takeOver n m bytes) := by
  have hm := hr.holds m
  have hdata : data (s.takeOver n m other) =
      Function.update (Function.update s.data m none) n (s.data m) := by
    have hmdata : s.data m = (some other).bind Buffer.data := by rw [data, ho]
    rw [hmdata, BufferObjects.takeOver, data_update, data_update]
    rfl
  rw [ho, hv] at hm
  constructor
  · intro k
    unfold BufferObjects.takeOver ByteStrings.takeOver
    dsimp only
    by_cases hkn : k = n
    · subst hkn
      rw [Function.update_self, Function.update_self]
      exact hm
    · rw [Function.update_of_ne hkn, Function.update_of_ne hkn]
      by_cases hkm : k = m
      · subst hkm
        rw [Function.update_self, Function.update_self]
        exact .some .null
      · rw [Function.update_of_ne hkm, Function.update_of_ne hkm]
        exact hr.holds k
  · rw [hdata]
    exact hr.owned.transfer hn hne

theorem Represents.moveAssign (hr : s.Represents v) {b other : Buffer} {bytes : Bytes}
    (hne : n ≠ m) (hb : s.object n = some b) (ho : s.object m = some other)
    (hv : v m = some bytes) :
    ∃ h', b.moveAssign other s.heap = .ok (other, h') ∧
      (BufferObjects.takeOver ⟨h', s.object⟩ n m other).Represents (v.takeOver n m bytes) := by
  obtain ⟨b', bytes', hb', -, hholds, hdata⟩ := (hr.cases n).resolve_left fun h => by
    rw [hb] at h
    cases h.1
  obtain rfl := Option.some.inj (hb.symm.trans hb')
  obtain ⟨h', hdelete, he⟩ := Buffer.delete_spec fun p hp => hholds.live hp
  rw [← hdata] at he
  have hfreed := hr.update (some .null) he (.some .null)
  have hnull : data ⟨h', Function.update s.object n (some .null)⟩ n = none := by
    rw [data_update, Function.update_self]
    rfl
  have hmoved := hfreed.takeOver hnull hne
    ((Function.update_of_ne hne.symm _ _).trans ho) ((Function.update_of_ne hne.symm _ _).trans hv)
  refine ⟨h', bind_ok hdelete _, ?_⟩
  unfold BufferObjects.takeOver ByteStrings.takeOver at hmoved
  dsimp only at hmoved
  rw [Function.update_comm hne, Function.update_idem, Function.update_comm hne,
    Function.update_idem] at hmoved
  exact hmoved

theorem Represents.step_copy (hr : s.Represents v) (n m : ι) :
    ∃ s', s.step (.copy n m) = .ok s' ∧ s'.Represents (v.effect (.copy n m)) := by
  unfold BufferObjects.step ByteStrings.effect
  dsimp only
  rcases hr.cases m with ⟨ho, hv⟩ | ⟨other, bytes, ho, hv, hother, -⟩
  · rw [ho, hv]
    exact ⟨s, rfl, hr⟩
  · rw [ho, hv]
    exact hr.build fun _ => Buffer.copyFrom_spec .null hother nofun

theorem Represents.step_move (hr : s.Represents v) (n m : ι) :
    ∃ s', s.step (.move n m) = .ok s' ∧ s'.Represents (v.effect (.move n m)) := by
  unfold BufferObjects.step ByteStrings.effect
  dsimp only
  rcases hr.cases n with ⟨hn, hvn⟩ | ⟨b, bytes, hn, hvn, -, -⟩
  · rcases hr.cases m with ⟨ho, hv⟩ | ⟨other, bytes, ho, hv, -, -⟩
    · rw [hn, hvn, ho, hv]
      exact ⟨s, rfl, hr⟩
    · have hne : n ≠ m := by
        rintro rfl
        rw [hn] at ho
        cases ho
      have hdata : s.data n = none := by
        rw [data, hn]
        rfl
      rw [hn, hvn, ho, hv]
      exact ⟨_, rfl, hr.takeOver hdata hne ho hv⟩
  · rw [hn, hvn]
    exact ⟨s, rfl, hr⟩

theorem Represents.step_copyAssign (hr : s.Represents v) (n m : ι) :
    ∃ s', s.step (.copyAssign n m) = .ok s' ∧ s'.Represents (v.effect (.copyAssign n m)) := by
  unfold BufferObjects.step ByteStrings.effect
  dsimp only
  rcases hr.cases m with ⟨ho, hv⟩ | ⟨other, bytes, ho, hv, hother, -⟩
  · rw [ho, hv, ite_self]
    exact ⟨s, rfl, hr⟩
  · rw [ho, hv]
    by_cases hne : n = m
    · subst hne
      rw [if_pos rfl]
      dsimp only
      rw [ByteStrings.onString_self hv rfl]
      exact ⟨s, rfl, hr⟩
    · rw [if_neg hne]
      exact hr.onObject fun b _ hb hholds =>
        Buffer.copyAssign_spec hholds hother (hr.data_ne hne hb ho)

theorem Represents.step_moveAssign (hr : s.Represents v) (n m : ι) :
    ∃ s', s.step (.moveAssign n m) = .ok s' ∧ s'.Represents (v.effect (.moveAssign n m)) := by
  unfold BufferObjects.step ByteStrings.effect
  dsimp only
  split_ifs with hne
  · exact ⟨s, rfl, hr⟩
  · rcases hr.cases n with ⟨hn, hvn⟩ | ⟨b, bytes, hn, hvn, -, -⟩
    · rw [hn, hvn]
      exact ⟨s, rfl, hr⟩
    · rcases hr.cases m with ⟨ho, hv⟩ | ⟨other, bytes, ho, hv, -, -⟩
      · rw [hn, hvn, ho, hv]
        exact ⟨s, rfl, hr⟩
      · obtain ⟨h', hrun, hr'⟩ := hr.moveAssign hne hn ho hv
        rw [hn, hvn, ho, hv]
        dsimp only
        rw [hrun]
        exact ⟨_, rfl, hr'⟩

theorem Represents.step_append (hr : s.Represents v) {sv : Bytes}
    (hd : (BufferCall.append n sv).Defined s) :
    ∃ s', s.step (.append n sv) = .ok s' ∧ s'.Represents (v.effect (.append n sv)) := by
  refine hr.onObject fun b bytes hb hholds => ?_
  by_cases hsv : sv = []
  · subst hsv
    rw [List.append_nil]
    exact Buffer.yields_pure hholds
  · have hle := hd b hb hsv
    rw [hholds.size_eq] at hle
    exact Buffer.append_spec hholds hle

theorem Represents.step_reserve (hr : s.Represents v) {capacity : ℕ}
    (hd : (BufferCall.reserve n capacity).Defined s) :
    ∃ s', s.step (.reserve n capacity) = .ok s' ∧ s'.Represents v := by
  obtain ⟨s', hstep, hr'⟩ := hr.onObject (g := id) (f := fun b => b.reserve capacity)
    fun b bytes hb hholds => Buffer.reserve_spec hholds (hd b hb)
  refine ⟨s', hstep, ?_⟩
  cases hv : v n with
  | none =>
      unfold ByteStrings.onString at hr'
      rw [hv] at hr'
      exact hr'
  | some bytes => exact ByteStrings.onString_self hv (id_eq bytes) ▸ hr'

/-- A step that meets the condition succeeds, and does to the buffers what the abstract step does to
the byte strings. -/
theorem Represents.step (hr : s.Represents v) {op : BufferCall ι} (hd : op.Defined s) :
    ∃ s', s.step op = .ok s' ∧ s'.Represents (v.effect op) := by
  cases op with
  | construct n => exact hr.build fun _ => Buffer.yields_pure .null
  | ofBytes n sv => exact hr.build fun hnew => Buffer.ofBytes_spec s.heap (hd hnew)
  | copy n m => exact hr.step_copy n m
  | move n m => exact hr.step_move n m
  | append n sv => exact hr.step_append hd
  | resize n newSize =>
      exact hr.onObject fun b bytes hb hholds =>
        Buffer.resize_spec hholds (hd b hb).1 (hd b hb).2
  | reserve n capacity => exact hr.step_reserve hd
  | clear n => exact hr.onObject fun b bytes _ hholds => Buffer.clear_spec hholds
  | copyAssign n m => exact hr.step_copyAssign n m
  | moveAssign n m => exact hr.step_moveAssign n m
  | destroy n => exact hr.destroy n

theorem onObject_error {b : Buffer} {f : Buffer → Memory Buffer} {e : MemoryFault}
    (hb : s.object n = some b) (hf : f b s.heap = .error e) : s.onObject n f = .error e := by
  unfold onObject
  rw [hb]
  dsimp only
  rw [hf]
  rfl

theorem Represents.step_error (hr : s.Represents v) {op : BufferCall ι} (hd : ¬ op.Defined s) :
    ∃ e, s.step op = .error e := by
  have hholds : ∀ {n b}, s.object n = some b → ∃ bytes, b.Holds s.heap bytes := by
    intro n b hb
    rcases hr.cases n with ⟨hnone, -⟩ | ⟨b', bytes, hb', -, hholds, -⟩
    · rw [hb] at hnone
      cases hnone
    · exact ⟨bytes, Option.some.inj (hb'.symm.trans hb) ▸ hholds⟩
  cases op with
  | ofBytes n sv =>
      obtain ⟨hnew, hlt⟩ := Classical.not_imp.mp hd
      refine ⟨.bitCeil, ?_⟩
      unfold BufferObjects.step BufferObjects.build
      dsimp only
      rw [hnew, Buffer.ofBytes_error s.heap (Nat.lt_of_not_le hlt)]
      rfl
  | append n sv =>
      obtain ⟨b, hnot⟩ := not_forall.mp hd
      obtain ⟨hb, hrest⟩ := Classical.not_imp.mp hnot
      obtain ⟨hsv, hlt⟩ := Classical.not_imp.mp hrest
      obtain ⟨bytes, hbytes⟩ := hholds hb
      rw [hbytes.size_eq] at hlt
      obtain ⟨e, he⟩ := Buffer.append_error hbytes hsv (Nat.lt_of_not_le hlt)
      exact ⟨e, onObject_error hb he⟩
  | resize n newSize =>
      obtain ⟨b, hnot⟩ := not_forall.mp hd
      obtain ⟨hb, hrest⟩ := Classical.not_imp.mp hnot
      obtain ⟨bytes, hbytes⟩ := hholds hb
      by_cases hle : newSize ≤ 2 ^ 63
      · obtain ⟨rfl, hdata⟩ := Classical.not_imp.mp fun h => hrest ⟨hle, h⟩
        exact ⟨_, onObject_error hb (Buffer.resize_zero_error hbytes (not_not.mp hdata))⟩
      · exact ⟨_, onObject_error hb (Buffer.resize_error hbytes (Nat.lt_of_not_le hle))⟩
  | reserve n capacity =>
      obtain ⟨b, hnot⟩ := not_forall.mp hd
      obtain ⟨hb, hlt⟩ := Classical.not_imp.mp hnot
      obtain ⟨bytes, hbytes⟩ := hholds hb
      exact ⟨_, onObject_error hb (Buffer.grow_error hbytes (Nat.lt_of_not_le hlt))⟩
  | construct n | copy n m | move n m | clear n | copyAssign n m | moveAssign n m | destroy n =>
      exact absurd trivial hd

end BufferObjects

namespace BufferCall

open BufferObjects

/-- Every step of the program meets the condition in the state that it is taken in. -/
def AllDefined (ops : List (BufferCall ι)) : Prop :=
  Run.Meets step (fun s op => Defined s op) .empty ops

theorem allDefined_iff_behaves (ops : List (BufferCall ι)) : AllDefined ops ↔ Behaves ops := by
  have hok : ∀ (s : BufferObjects ι) v op, s.Represents v → Defined s op →
      ∃ s', s.step op = .ok s' ∧ s'.Represents (ByteStrings.effect v op) :=
    fun _ _ _ hr hd => hr.step hd
  have herror : ∀ (s : BufferObjects ι) v op, s.Represents v → ¬ Defined s op →
      ∃ e, s.step op = .error e := fun _ _ _ hr hd => hr.step_error hd
  rw [AllDefined, Run.meets_iff_foldlM_ok hok herror ops represents_empty]
  constructor
  · rintro ⟨s, hrun⟩
    have hr := Run.rel_of_foldlM_ok hok herror represents_empty hrun
    exact ⟨s, hrun, fun n => rel_imp (hr.holds n) fun _ _ _ _ hb => hb.sound⟩
  · rintro ⟨s, hrun, -⟩
    exact ⟨s, hrun⟩

/-- Just the programs whose steps all meet the condition run without a fault, with buffers that
show their byte strings, from the first step to the last. -/
theorem allDefined_iff_behaves_throughout (ops : List (BufferCall ι)) :
    AllDefined ops ↔ ∀ before, before <+: ops → Behaves before := by
  constructor
  · rintro h before ⟨after, rfl⟩
    exact (allDefined_iff_behaves before).mp (Run.Meets.of_append h)
  · intro h
    exact (allDefined_iff_behaves ops).mpr (h ops (List.prefix_refl ops))

/-- A new buffer resized to 0. -/
theorem not_behaves_resize_zero : ¬ ∀ ops : List (BufferCall Unit), Behaves ops := by
  intro h
  obtain ⟨s, hrun, -⟩ := h [.construct (), .resize () 0]
  have hfault : [construct (), resize () 0].foldlM step .empty = .error .nullWrite := rfl
  rw [hfault] at hrun
  cases hrun

end BufferCall

end Keva
