import Keva.Core.Buffer
import Keva.Lib.Amortized

/-!
# What the growth of a buffer costs

`grow` rounds the capacity up to a power of two, so each new block has at least twice the size of
the one before. Over any run of appends the blocks are few, and what is copied from one to the next
is no more than twice what has been appended.
-/

namespace Keva

open Memory

inductive BufferChange
  | append (sv : Bytes)
  | resize (newSize : ℕ)
  | reserve (capacity : ℕ)
  | clear

namespace Buffer

variable {b b' : Buffer} {h h' : Heap UInt8} {bytes sv : Bytes} {required : ℕ}

/-- The bytes that `grow` copies to a new block. -/
def growCopies (b : Buffer) (required : ℕ) : ℕ :=
  if required ≤ b.cap then 0
  else if b.data.isSome && 0 < b.size then b.size
  else 0

/-- The blocks that `grow` allocates. -/
def growAllocates (b : Buffer) (required : ℕ) : ℕ := if required ≤ b.cap then 0 else 1

def growCap (b : Buffer) (required : ℕ) : ℕ :=
  if required ≤ b.cap then b.cap else (if required < 16 then 16 else required).nextPowerOfTwo

theorem copyTo_eq (hlt : b.cap < required) (newData : ℕ) : b.copyTo newData =
    if b.growCopies required = 0 then pure ()
    else load b.data (b.growCopies required) >>= store (some newData) 0 := by
  unfold copyTo growCopies
  rw [if_neg (Nat.not_le.mpr hlt)]
  split_ifs with hcontent hzero hzero
  · rw [Bool.and_eq_true, decide_eq_true_eq] at hcontent
    omega
  · rfl
  · rfl
  · exact absurd rfl hzero

theorem of_bind_ok {α β : Type} {x : Memory α} {f : α → Memory β} {c : β}
    (hrun : (x >>= f) h = .ok (c, h')) : ∃ a h₁, x h = .ok (a, h₁) ∧ f a h₁ = .ok (c, h') := by
  cases hx : x h with
  | error e =>
      rw [bind_error hx] at hrun
      cases hrun
  | ok r =>
      rw [bind_ok hx] at hrun
      exact ⟨r.1, r.2, rfl, hrun⟩

theorem next_load {data : Option ℕ} {n : ℕ} {xs : Bytes} (hrun : load data n h = .ok (xs, h')) :
    h'.next = h.next := by
  unfold load at hrun
  split at hrun
  · cases hrun
  · cases hrun
    rfl

theorem next_store {data : Option ℕ} {i : ℕ} {xs : Bytes}
    (hrun : store data i xs h = .ok ((), h')) : h'.next = h.next := by
  unfold store at hrun
  split at hrun
  · cases hrun
  · split at hrun
    · cases hrun
    · rename_i h₁ hwrite
      cases hrun
      exact Heap.next_write hwrite

theorem next_delete {data : Option ℕ} (hrun : delete data h = .ok ((), h')) :
    h'.next = h.next := by
  unfold delete at hrun
  split at hrun
  · cases hrun
    rfl
  · split at hrun
    · cases hrun
    · rename_i h₁ hfree
      cases hrun
      exact Heap.next_free hfree

theorem next_bitCeil {x cap : ℕ} (hrun : bitCeil x h = .ok (cap, h')) : h'.next = h.next := by
  unfold bitCeil at hrun
  by_cases hle : x ≤ 2 ^ 63
  · rw [if_pos hle] at hrun
    cases hrun
    rfl
  · rw [if_neg hle] at hrun
    cases hrun

theorem next_copyTo {newData : ℕ} (hrun : b.copyTo newData h = .ok ((), h')) :
    h'.next = h.next := by
  unfold copyTo at hrun
  split_ifs at hrun
  · obtain ⟨xs, h₁, hload, hrun⟩ := of_bind_ok hrun
    rw [next_store hrun, next_load hload]
  · cases hrun
    rfl

theorem next_grow (hrun : b.grow required h = .ok (b', h')) :
    h'.next = h.next + b.growAllocates required := by
  unfold grow at hrun
  unfold growAllocates
  by_cases hle : required ≤ b.cap
  · rw [if_pos hle] at hrun
    rw [if_pos hle]
    cases hrun
    rfl
  · rw [if_neg hle] at hrun
    rw [if_neg hle]
    obtain ⟨newCap, h₁, hceil, hrun⟩ := of_bind_ok hrun
    obtain ⟨newData, h₂, hnew, hrun⟩ := of_bind_ok hrun
    obtain ⟨_, h₃, hcopy, hrun⟩ := of_bind_ok hrun
    obtain ⟨_, h₄, hdelete, hrun⟩ := of_bind_ok hrun
    obtain ⟨_, h₅, hstore, hrun⟩ := of_bind_ok hrun
    cases hrun
    have hnext : h₂.next = h₁.next + 1 := by
      cases hnew
      exact Nat.max_eq_right (Nat.le_succ _)
    rw [next_store hstore, next_delete hdelete, next_copyTo hcopy, hnext, next_bitCeil hceil]

theorem next_fill {i : ℕ} (hrun : b.fill i sv h = .ok (b', h')) : h'.next = h.next := by
  unfold fill at hrun
  obtain ⟨_, h₁, hcontent, hrun⟩ := of_bind_ok hrun
  obtain ⟨_, h₂, hzero, hrun⟩ := of_bind_ok hrun
  cases hrun
  rw [next_store hzero, next_store hcontent]

theorem next_pad {newSize : ℕ} (hrun : b.pad newSize h = .ok ((), h')) : h'.next = h.next := by
  unfold pad at hrun
  split_ifs at hrun
  · exact next_store hrun
  · cases hrun
    rfl

theorem cap_grow (hrun : b.grow required h = .ok (b', h')) : b'.cap = b.growCap required := by
  unfold grow at hrun
  unfold growCap
  by_cases hle : required ≤ b.cap
  · rw [if_pos hle] at hrun
    rw [if_pos hle]
    cases hrun
    rfl
  · rw [if_neg hle] at hrun
    rw [if_neg hle]
    obtain ⟨newCap, h₁, hceil, hrun⟩ := of_bind_ok hrun
    obtain ⟨newData, h₂, -, hrun⟩ := of_bind_ok hrun
    obtain ⟨-, h₃, -, hrun⟩ := of_bind_ok hrun
    obtain ⟨-, h₄, -, hrun⟩ := of_bind_ok hrun
    obtain ⟨-, h₅, -, hrun⟩ := of_bind_ok hrun
    cases hrun
    unfold bitCeil at hceil
    by_cases hmax : (if required < 16 then 16 else required) ≤ 2 ^ 63
    · rw [if_pos hmax] at hceil
      cases hceil
      rfl
    · rw [if_neg hmax] at hceil
      cases hceil

theorem cap_fill {i : ℕ} (hrun : b.fill i sv h = .ok (b', h')) : b'.cap = b.cap := by
  unfold fill at hrun
  obtain ⟨-, h₁, -, hrun⟩ := of_bind_ok hrun
  obtain ⟨-, h₂, -, hrun⟩ := of_bind_ok hrun
  cases hrun
  rfl

theorem cap_append (hrun : b.append sv h = .ok (b', h')) :
    b'.cap = b.growCap (if sv.isEmpty then 0 else usize (b.size + sv.length)) := by
  unfold append at hrun
  split_ifs at hrun ⊢
  · cases hrun
    exact (if_pos (Nat.zero_le _)).symm
  · obtain ⟨b₁, h₁, hgrow, hrun⟩ := of_bind_ok hrun
    rw [cap_fill hrun, cap_grow hgrow]

theorem cap_resize {newSize : ℕ} (hrun : b.resize newSize h = .ok (b', h')) :
    b'.cap = b.growCap newSize := by
  have hrest : ∀ {b₁ : Buffer} {h₁ : Heap UInt8}, (do
      b₁.pad newSize
      store b₁.data newSize [0]
      pure { b₁ with size := newSize } : Memory Buffer) h₁ = .ok (b', h') → b'.cap = b₁.cap := by
    intro b₁ h₁ hrun
    obtain ⟨-, h₂, -, hrun⟩ := of_bind_ok hrun
    obtain ⟨-, h₃, -, hrun⟩ := of_bind_ok hrun
    cases hrun
    rfl
  unfold resize at hrun
  split_ifs at hrun with hlt
  · obtain ⟨b₁, h₁, hgrow, hrun⟩ := of_bind_ok hrun
    rw [hrest hrun, cap_grow hgrow]
  · obtain ⟨b₁, h₁, hsame, hrun⟩ := of_bind_ok hrun
    cases hsame
    rw [hrest hrun]
    exact (if_pos (Nat.le_of_not_lt hlt)).symm

theorem cap_clear (hrun : b.clear h = .ok (b', h')) : b'.cap = b.cap := by
  unfold clear at hrun
  split_ifs at hrun
  · obtain ⟨-, h₁, -, hrun⟩ := of_bind_ok hrun
    cases hrun
    rfl
  · cases hrun
    rfl

theorem Holds.growCap_spec (hb : b.Holds h bytes) (hlt : b.cap < required) :
    2 * b.cap ≤ b.growCap required ∧ required ≤ b.growCap required ∧
      16 ≤ b.growCap required ∧ b.growCap required < 2 * max 16 required := by
  have hleast : 0 < if required < 16 then 16 else required := by split_ifs <;> omega
  have hroom := PowerOfTwo.le_nextPowerOfTwo (if required < 16 then 16 else required)
  have htight := PowerOfTwo.nextPowerOfTwo_lt hleast
  have hdouble : 2 * b.cap ≤ (if required < 16 then 16 else required).nextPowerOfTwo := by
    cases hb with
    | null => exact Nat.zero_le _
    | block hblock hlength hcap =>
        refine PowerOfTwo.two_mul_le hcap.isPowerOfTwo (Nat.isPowerOfTwo_nextPowerOfTwo _) ?_
        dsimp only at hlt ⊢
        split_ifs at hroom ⊢ <;> omega
  unfold growCap
  rw [if_neg (Nat.not_le.mpr hlt)]
  generalize (if required < 16 then 16 else required).nextPowerOfTwo = cap at *
  split_ifs at hroom htight <;> omega

end Buffer

namespace BufferChange

variable {b b' : Buffer} {h h' : Heap UInt8} {bytes : Bytes}

def apply (b : Buffer) : BufferChange → Memory Buffer
  | append sv => b.append sv
  | resize newSize => b.resize newSize
  | reserve capacity => b.reserve capacity
  | clear => b.clear

/-- The capacity that the call asks `grow` for, or 0 if it does not need one. -/
def required (b : Buffer) : BufferChange → ℕ
  | append sv => if sv.isEmpty then 0 else usize (b.size + sv.length)
  | resize newSize => newSize
  | reserve capacity => capacity
  | clear => 0

/-- A call on a buffer in memory. The run ends where a call must not be made. -/
def step (s : Buffer × Heap UInt8) (change : BufferChange) : Option (Buffer × Heap UInt8) :=
  (change.apply s.1 s.2).toOption

def copies (s : Buffer × Heap UInt8) (change : BufferChange) : ℕ :=
  s.1.growCopies (change.required s.1)

def allocates (s : Buffer × Heap UInt8) (change : BufferChange) : ℕ :=
  s.1.growAllocates (change.required s.1)

/-- The blocks of a call are those that the heap has made for it. -/
theorem next_apply {change : BufferChange} (hrun : change.apply b h = .ok (b', h')) :
    h'.next = h.next + allocates (b, h) change := by
  unfold allocates
  cases change with
  | append sv =>
      change b.append sv h = _ at hrun
      unfold Buffer.append at hrun
      change h'.next = h.next +
        b.growAllocates (if sv.isEmpty then 0 else usize (b.size + sv.length))
      split_ifs at hrun ⊢
      · cases hrun
        rw [Buffer.growAllocates, if_pos (Nat.zero_le _), Nat.add_zero]
      · obtain ⟨b₁, h₁, hgrow, hrun⟩ := Buffer.of_bind_ok hrun
        rw [Buffer.next_fill hrun, Buffer.next_grow hgrow]
  | resize newSize =>
      change b.resize newSize h = _ at hrun
      unfold Buffer.resize at hrun
      have hrest : ∀ {b₁ : Buffer} {h₁ : Heap UInt8}, (do
          b₁.pad newSize
          store b₁.data newSize [0]
          pure { b₁ with size := newSize } : Memory Buffer) h₁ = .ok (b', h') →
          h'.next = h₁.next := by
        intro b₁ h₁ hrun
        obtain ⟨_, h₂, hpad, hrun⟩ := Buffer.of_bind_ok hrun
        obtain ⟨_, h₃, hstore, hrun⟩ := Buffer.of_bind_ok hrun
        cases hrun
        rw [Buffer.next_store hstore, Buffer.next_pad hpad]
      change h'.next = h.next + b.growAllocates newSize
      split_ifs at hrun with hlt
      · obtain ⟨b₁, h₁, hgrow, hrun⟩ := Buffer.of_bind_ok hrun
        rw [hrest hrun, Buffer.next_grow hgrow]
      · obtain ⟨b₁, h₁, hsame, hrun⟩ := Buffer.of_bind_ok hrun
        cases hsame
        rw [hrest hrun, Buffer.growAllocates, if_pos (Nat.le_of_not_lt hlt), Nat.add_zero]
  | reserve capacity => exact Buffer.next_grow hrun
  | clear =>
      change b.clear h = _ at hrun
      unfold Buffer.clear at hrun
      have hnone : b.growAllocates 0 = 0 := if_pos (Nat.zero_le _)
      change h'.next = h.next + b.growAllocates 0
      rw [hnone]
      split_ifs at hrun
      · obtain ⟨_, h₁, hstore, hrun⟩ := Buffer.of_bind_ok hrun
        cases hrun
        exact Buffer.next_store hstore
      · cases hrun
        rfl

/-- By how much the call asks for more than there is content. -/
def asked (s : Buffer × Heap UInt8) (change : BufferChange) : ℕ :=
  change.required s.1 - s.1.size

/-- What has been stored since the last time that the content was copied. -/
def potential (s : Buffer × Heap UInt8) : ℕ := 2 * s.1.size - s.1.cap

def Sound (s : Buffer × Heap UInt8) : Prop := ∃ bytes, s.1.Holds s.2 bytes

/-- What a call does to the buffer's content, size and capacity. -/
structure Changed (b : Buffer) (change : BufferChange) (b' : Buffer) (h' : Heap UInt8) : Prop where
  sound : Sound (b', h')
  size_le : b'.size ≤ max b.size (change.required b)
  cap : b'.cap = b.growCap (change.required b)

theorem holds_of_yields {f : Memory Buffer} {old : Option ℕ} (hf : Buffer.Yields f h old bytes)
    (hrun : f h = .ok (b', h')) : b'.Holds h' bytes := by
  obtain ⟨b₁, h₁, hok, hb₁, -⟩ := hf
  rw [hrun] at hok
  cases hok
  exact hb₁

theorem changed (hb : b.Holds h bytes) {change : BufferChange}
    (hrun : change.apply b h = .ok (b', h')) : Changed b change b' h' := by
  have hsize := hb.size_eq
  cases change with
  | append sv =>
      have hcap := Buffer.cap_append hrun
      by_cases hsv : sv = []
      · subst hsv
        cases hrun
        exact ⟨⟨bytes, hb⟩, le_max_left _ _, hcap⟩
      · by_cases hle : bytes.length + sv.length ≤ 2 ^ 63
        · have hb' := holds_of_yields (Buffer.append_spec hb hle) hrun
          refine ⟨⟨_, hb'⟩, ?_, hcap⟩
          have hrequired : usize (b.size + sv.length) = bytes.length + sv.length := by
            rw [hsize]
            exact Nat.mod_eq_of_lt (by omega)
          rw [required, if_neg (mt List.isEmpty_iff.mp hsv), hrequired, hb'.size_eq,
            List.length_append]
          exact le_max_right _ _
        · obtain ⟨e, he⟩ := Buffer.append_error hb hsv (Nat.lt_of_not_le hle)
          cases hrun.symm.trans he
  | resize newSize =>
      have hcap := Buffer.cap_resize hrun
      by_cases hle : newSize ≤ 2 ^ 63
      · by_cases hzero : newSize = 0 ∧ b.data = none
        · obtain ⟨rfl, hdata⟩ := hzero
          cases hrun.symm.trans (Buffer.resize_zero_error hb hdata)
        · have hb' := holds_of_yields
            (Buffer.resize_spec hb hle fun h hdata => hzero ⟨h, hdata⟩) hrun
          refine ⟨⟨_, hb'⟩, ?_, hcap⟩
          rw [hb'.size_eq, VectorOps.length_resize]
          exact le_max_right _ _
      · cases hrun.symm.trans (Buffer.resize_error hb (Nat.lt_of_not_le hle))
  | reserve capacity =>
      by_cases hle : capacity ≤ 2 ^ 63
      · have hb' := holds_of_yields (Buffer.reserve_spec hb hle) hrun
        refine ⟨⟨_, hb'⟩, ?_, Buffer.cap_grow hrun⟩
        rw [hb'.size_eq, hsize]
        exact le_max_left _ _
      · cases hrun.symm.trans (Buffer.grow_error hb (Nat.lt_of_not_le hle))
  | clear =>
      have hb' := holds_of_yields (Buffer.clear_spec hb) hrun
      refine ⟨⟨_, hb'⟩, ?_, (Buffer.cap_clear hrun).trans (if_pos (Nat.zero_le _)).symm⟩
      rw [hb'.size_eq]
      exact Nat.zero_le _

theorem ok_of_step {s s' : Buffer × Heap UInt8} {change : BufferChange}
    (hstep : step s change = some s') : change.apply s.1 s.2 = .ok (s'.1, s'.2) := by
  unfold step at hstep
  cases hrun : change.apply s.1 s.2 with
  | error e =>
      rw [hrun] at hstep
      cases hstep
  | ok r =>
      rw [hrun] at hstep
      cases hstep
      rfl

theorem sound_step {s s' : Buffer × Heap UInt8} {change : BufferChange} (hs : Sound s)
    (hstep : step s change = some s') : Sound s' := by
  obtain ⟨bytes, hb⟩ := hs
  exact (changed hb (ok_of_step hstep)).sound

theorem pays : Amortized.Pays step Sound potential copies fun s change => 2 * asked s change where
  keeps := sound_step
  pays := by
    rintro ⟨b, h⟩ ⟨b', h'⟩ change ⟨bytes, hb⟩ hstep
    change b.Holds h bytes at hb
    obtain ⟨-, hsize, hcap⟩ := changed hb (ok_of_step hstep)
    have hle := hb.size_le
    unfold copies potential asked
    dsimp only at hsize hcap hle ⊢
    generalize change.required b = required at hsize hcap ⊢
    by_cases hroom : required ≤ b.cap
    · have hcopies : b.growCopies required = 0 := if_pos hroom
      have hsame : b.growCap required = b.cap := if_pos hroom
      omega
    · have hcopies : b.growCopies required ≤ b.size := by
        unfold Buffer.growCopies
        split_ifs <;> omega
      obtain ⟨hdouble, hfits, -, -⟩ := hb.growCap_spec (Nat.lt_of_not_le hroom)
      omega

theorem doubles {s s' : Buffer × Heap UInt8} {change : BufferChange} (hs : Sound s)
    (hstep : step s change = some s') :
    2 ^ allocates s change * max 8 s.1.cap ≤ max 8 s'.1.cap := by
  obtain ⟨bytes, hb⟩ := hs
  obtain ⟨-, -, hcap⟩ := changed hb (ok_of_step hstep)
  rw [hcap]
  unfold allocates Buffer.growAllocates
  by_cases hroom : change.required s.1 ≤ s.1.cap
  · have hsame : s.1.growCap (change.required s.1) = s.1.cap := if_pos hroom
    rw [if_pos hroom, hsame, pow_zero, Nat.one_mul]
  · obtain ⟨hdouble, -, hmin, -⟩ := hb.growCap_spec (Nat.lt_of_not_le hroom)
    rw [if_neg hroom, pow_one]
    omega

/-- The buffer holds what has been appended, and its capacity is not more than twice that. -/
def Appended (h : Heap UInt8) (b : Buffer) (bytes : Bytes) : Prop :=
  b.Holds h bytes ∧ b.cap < 2 * max 16 bytes.length

theorem step_append (hb : Appended h b bytes) (sv : Bytes)
    (hle : bytes.length + sv.length ≤ 2 ^ 63) :
    ∃ b' h', step (b, h) (.append sv) = some (b', h') ∧ Appended h' b' (bytes ++ sv) ∧
      asked (b, h) (.append sv) ≤ sv.length := by
  obtain ⟨hholds, hcap⟩ := hb
  obtain ⟨b', h', hrun, hb', -⟩ := Buffer.append_spec hholds hle
  have hsize := hholds.size_eq
  have hrequired : (append sv).required b ≤ bytes.length + sv.length := by
    rw [required, hsize]
    split_ifs
    · exact Nat.zero_le _
    · exact Nat.mod_le _ _
  have hbound : b'.cap < 2 * max 16 (bytes.length + sv.length) := by
    have happly : (append sv).apply b h = .ok (b', h') := hrun
    obtain ⟨-, -, hcap'⟩ := changed hholds happly
    by_cases hroom : (append sv).required b ≤ b.cap
    · have hsame : b.growCap ((append sv).required b) = b.cap := if_pos hroom
      omega
    · obtain ⟨-, -, -, htight⟩ := hholds.growCap_spec (Nat.lt_of_not_le hroom)
      omega
  refine ⟨b', h', congrArg Except.toOption hrun, ⟨hb', ?_⟩, ?_⟩
  · rwa [List.length_append]
  · unfold asked
    dsimp only
    omega

theorem run_append (svs : List Bytes) (hb : Appended h b bytes)
    (hle : bytes.length + svs.flatten.length ≤ 2 ^ 63) :
    ∃ b' h', (svs.map append).foldlM step (b, h) = some (b', h') ∧
      Appended h' b' (bytes ++ svs.flatten) ∧
      Amortized.total step asked (b, h) (svs.map append) ≤ svs.flatten.length := by
  induction svs generalizing b h bytes with
  | nil => exact ⟨b, h, rfl, by rwa [List.flatten_nil, List.append_nil], Nat.zero_le _⟩
  | cons sv svs ih =>
      rw [List.flatten_cons, List.length_append] at hle
      obtain ⟨b₁, h₁, hstep, hb₁, hasked⟩ := step_append hb sv (by omega)
      obtain ⟨b', h', hrun, hb', htotal⟩ := ih hb₁ (by rw [List.length_append]; omega)
      refine ⟨b', h', ?_, ?_, ?_⟩
      · rw [List.map_cons, List.foldlM_cons, hstep]
        exact hrun
      · rwa [List.flatten_cons, ← List.append_assoc]
      · rw [List.map_cons, Amortized.total_cons_of_some hstep, List.flatten_cons,
          List.length_append]
        omega

/-- A buffer that is filled by appending `N` bytes altogether, in whatever pieces, copies no more
than `2 * N` bytes from block to block, and `4 * 2 ^ r` is less than `N`, or than 16, for the number
`r` of its blocks. -/
theorem append_amortized (h : Heap UInt8) (svs : List Bytes)
    (hle : svs.flatten.length ≤ 2 ^ 63) :
    ∃ b h', (svs.map append).foldlM step (.null, h) = some (b, h') ∧ b.Holds h' svs.flatten ∧
      Amortized.total step copies (.null, h) (svs.map append) ≤ 2 * svs.flatten.length ∧
      4 * 2 ^ Amortized.total step allocates (.null, h) (svs.map append) <
        max 16 svs.flatten.length := by
  have hnull : Appended h .null [] := ⟨.null, by decide⟩
  obtain ⟨b, h', hrun, ⟨hb, hcap⟩, hasked⟩ :=
    run_append svs hnull (by rwa [List.length_nil, Nat.zero_add])
  rw [List.nil_append] at hb hcap
  have hcopies := pays.total_le (svs.map append) (s := (.null, h)) ⟨[], .null⟩
  have hstart : potential (.null, h) = 0 := rfl
  rw [hstart, Nat.zero_add, Amortized.total_mul] at hcopies
  have hblocks : 2 ^ Amortized.total step allocates (.null, h) (svs.map append) *
      max 8 Buffer.null.cap ≤ max 8 b.cap :=
    Amortized.two_pow_total_mul_le (fun s => max 8 s.1.cap) sound_step doubles ⟨[], .null⟩ hrun
  refine ⟨b, h', hrun, hb, hcopies.trans (Nat.mul_le_mul_left 2 hasked), ?_⟩
  have hfirst : max 8 Buffer.null.cap = 8 := rfl
  rw [hfirst] at hblocks
  omega

/-- Three appends of 20 bytes take two blocks, and the second one takes over 20 bytes. -/
theorem append_amortized_three :
    Amortized.total step copies (.null, .empty)
      ((List.replicate 3 (List.replicate 20 7)).map append) ≤ 120 := by
  obtain ⟨-, -, -, -, hcopies, -⟩ :=
    append_amortized .empty (List.replicate 3 (List.replicate 20 7)) (by decide)
  exact hcopies

end BufferChange

end Keva
