import Keva.Core.DictLoad
import Keva.Core.DictRun

/-!
# A migration ends

Every `set`, `get`, `del` and every `rehash_step` for at least one bucket moves the cursor of a
migration on, and no other operation moves it back. The cursor stays inside the first table, so the
number of its buckets bounds the number of calls.
-/

namespace Keva

/-- The number of buckets that the operation asks its opening `rehash_step` for. -/
def DictOp.opens {V : Type} : DictOp V → Option ℤ
  | .set _ _ | .get _ | .del _ => some 1
  | .rehashStep n => some n
  | _ => none

/-- The operation opens with a `rehash_step` for at least one bucket. -/
def DictOp.advances {V : Type} (op : DictOp V) : Bool :=
  match op.opens with
  | some n => 0 < n
  | none => false

namespace Dict

variable {V : Type} {d : Dict V} {op : DictOp V}

def step (d : Dict V) (op : DictOp V) : Dict V := (d.perform op).2

/-- The `Dict` behind the opening `rehash_step` of the operation. `clear` drops both tables, and
with them the migration. -/
def opened (d : Dict V) (op : DictOp V) : Dict V :=
  match op with
  | .clear => d.clear
  | op =>
      match op.opens with
      | some n => (d.rehashStep n).2
      | none => d

/-- What an operation does to the numbers behind its opening `rehash_step`. -/
def settle (d : Dict V) : DictOp V → Load → Load
  | .set k _, L => if (d.toMap k).isSome then L else L.insert d.params
  | .del k, L => if (d.toMap k).isSome then L.remove d.params else L
  | _, L => L

theorem stepIfRehashing_eq (d : Dict V) : d.stepIfRehashing = (d.rehashStep 1).2 := by
  cases hr : d.isRehashing with
  | true => rw [stepIfRehashing, if_pos hr]
  | false => rw [stepIfRehashing, hr, if_neg Bool.false_ne_true, rehashStep, hr]; rfl

theorem load_step (hd : d.Sound) (op : DictOp V) :
    (d.step op).load = d.settle op (d.opened op).load := by
  cases op with
  | set k v =>
      change (d.set k v).2.load = _
      rw [load_set hd, stepIfRehashing_eq]
      rfl
  | del k =>
      change (d.del k).2.load = _
      rw [load_del hd, stepIfRehashing_eq]
      rfl
  | get k => exact congrArg load (stepIfRehashing_eq d)
  | _ => rfl

theorem sound_step (hd : d.Sound) (op : DictOp V) : (d.step op).Sound :=
  (perform_represents d _ op ⟨hd, rfl⟩).2.1

theorem regular_step (hd : d.Sound) (h : d.load.Regular) (op : DictOp V) :
    (d.step op).load.Regular := by
  cases op with
  | set k v => exact regular_set hd h k v
  | del k => exact regular_del hd h k
  | get k => exact regular_stepIfRehashing hd h
  | rehashStep n => exact regular_rehashStep hd h n
  | clear =>
      change d.clear.load.Regular
      rw [load_clear]
      exact Load.regular_initial
  | _ => exact h

theorem reached (P : DictParams) (ops : List (DictOp V)) :
    (ops.foldl step (empty P)).Sound ∧ (ops.foldl step (empty P)).load.Regular := by
  have hempty : (empty P : Dict V).load.Regular := by
    rw [load_empty]
    exact Load.regular_initial
  have hrun : ∀ {d : Dict V}, d.Sound ∧ d.load.Regular →
      (ops.foldl step d).Sound ∧ (ops.foldl step d).load.Regular := by
    induction ops with
    | nil => exact id
    | cons op ops ih => exact fun h => ih ⟨sound_step h.1 op, regular_step h.1 h.2 op⟩
  exact hrun ⟨sound_empty P, hempty⟩

/-- The migration from `buckets` to `target` buckets goes on, with the cursor at `cursor` or
behind. -/
def Migrating (buckets target cursor : ℕ) (d : Dict V) : Prop :=
  d.Sound ∧ ∃ stored cursor', d.load = .moving buckets target stored cursor' ∧
    cursor ≤ cursor' ∧ cursor' < buckets

variable {buckets target cursor : ℕ}

theorem settle_moving (d : Dict V) (op : DictOp V) (buckets target stored cursor : ℕ) :
    ∃ stored', d.settle op (.moving buckets target stored cursor) =
      .moving buckets target stored' cursor := by
  cases op with
  | set k v =>
      rw [settle]
      split_ifs
      · exact ⟨stored, rfl⟩
      · exact ⟨stored + 1, rfl⟩
  | del k =>
      rw [settle]
      split_ifs
      · exact ⟨stored - 1, rfl⟩
      · exact ⟨stored, rfl⟩
  | _ => exact ⟨stored, rfl⟩

theorem Migrating.step (h : d.Migrating buckets target cursor)
    (hmoving : (d.opened op).isRehashing = true) :
    (d.step op).Migrating buckets target (cursor + if op.advances then 1 else 0) := by
  obtain ⟨hd, stored, cursor', hload, hle, hlt⟩ := h
  have hopened : ∃ stored' i, (d.opened op).load = .moving buckets target stored' i ∧
      cursor + (if op.advances then 1 else 0) ≤ i ∧ i < buckets := by
    have hadvance : ∀ n, Load.Advances n d.load (d.rehashStep n).2.load →
        (d.rehashStep n).2.isRehashing = true →
        ∃ i, (d.rehashStep n).2.load = .moving buckets target stored i ∧
          cursor' ≤ i ∧ (0 < n → cursor' < i) ∧ i < buckets := by
      intro n hn hr
      rw [← isMoving_load] at hr
      rw [hload] at hn
      generalize (d.rehashStep n).2.load = L at hn hr ⊢
      cases hn with
      | goesOn hle hlt hin => exact ⟨_, rfl, hle, hlt, hin⟩
      | completes => cases hr
    cases op with
    | set k v | get k | del k =>
        obtain ⟨i, hi, hle', hlt', hin⟩ := hadvance 1 (load_rehashStep hd 1) hmoving
        exact ⟨stored, i, hi, Nat.lt_of_le_of_lt hle (hlt' one_pos), hin⟩
    | rehashStep n =>
        obtain ⟨i, hi, hle', hlt', hin⟩ := hadvance n (load_rehashStep hd n) hmoving
        refine ⟨stored, i, hi, ?_, hin⟩
        by_cases hn : 0 < n
        · have := hlt' hn
          simp only [DictOp.advances, DictOp.opens, hn, decide_true, if_true]
          omega
        · simp only [DictOp.advances, DictOp.opens, hn, decide_false, Bool.false_eq_true, if_false]
          omega
    | clear => cases hmoving
    | _ => exact ⟨stored, cursor', hload, hle, hlt⟩
  obtain ⟨stored', i, hi, hcursor, hin⟩ := hopened
  obtain ⟨stored'', hsettle⟩ := settle_moving d op buckets target stored' i
  refine ⟨sound_step hd op, stored'', i, ?_, hcursor, hin⟩
  rw [load_step hd, hi, hsettle]

/-- As long as no operation completes the migration, each one that advances it pays with a
bucket. -/
theorem Migrating.run {ops : List (DictOp V)} (h : d.Migrating buckets target cursor)
    (hmoving : Run.Along Dict.step (fun d op => (d.opened op).isRehashing = true) d ops) :
    (ops.foldl Dict.step d).Migrating buckets target (cursor + ops.countP DictOp.advances) := by
  induction ops generalizing d cursor with
  | nil => exact h
  | cons op ops ih =>
      have hrest := ih (h.step hmoving.1) hmoving.2
      rw [List.countP_cons, Nat.add_comm (List.countP _ _), ← Nat.add_assoc]
      exact hrest

/-- One call of `rehash_step` on a `Dict` with the cursor at `cursor`: whatever its limit on empty
buckets, it stays inside the bucket array; it completes the migration or moves the cursor on inside
the same table. -/
structure StepsOn (d : Dict V) (steps : ℤ) (cursor : ℕ) : Prop where
  inBounds : ∀ limit d', rehashLoop steps.toNat limit d ≠ .outOfBounds d'
  progress : (d.rehashStep steps).2.rehashidx = none ∨
    ∃ cursor', (d.rehashStep steps).2.rehashidx = some cursor' ∧ cursor < cursor' ∧
      cursor' ≤ (d.rehashStep steps).2.ht0.size ∧ (d.rehashStep steps).2.ht0.size = d.ht0.size

theorem stepsOn (hd : d.Sound) (hcursor : d.rehashidx = some cursor) {steps : ℤ}
    (hsteps : 1 ≤ steps) : d.StepsOn steps cursor where
  inBounds limit d' ho := by
    have hloop := rehashLoop_spec steps.toNat limit hd hcursor
    rw [ho] at hloop
    exact hloop
  progress := by
    have hadvance := load_rehashStep hd steps
    have hload := load_of_moving hcursor
    cases hr : (d.rehashStep steps).2.rehashidx with
    | none => exact .inl rfl
    | some cursor' =>
        rw [hload, load_of_moving hr] at hadvance
        generalize (d.rehashStep steps).2.ht0.size = n at hadvance ⊢
        generalize (d.rehashStep steps).2.ht1.size = m at hadvance
        generalize (d.rehashStep steps).2.size = k at hadvance
        cases hadvance with
        | goesOn hle hlt hin => exact .inr ⟨cursor', rfl, hlt hsteps, hin.le, rfl⟩

/-- One of the operations completes the migration of `d`, or drops it, and before it there are fewer
that advance the migration than there are buckets left. Until then the same migration goes on. -/
def EndsWithin (d : Dict V) (cursor : ℕ) (ops : List (DictOp V)) : Prop :=
  ∃ before op after, ops = before ++ op :: after ∧
    before.countP DictOp.advances < d.ht0.size - cursor ∧
    ((before.foldl step d).opened op).isRehashing = false ∧
    ∀ first, first <+: before → ∃ cursor', (first.foldl step d).rehashidx = some cursor' ∧
      cursor + first.countP DictOp.advances ≤ cursor' ∧
      (first.foldl step d).ht0.size = d.ht0.size ∧ (first.foldl step d).ht1.size = d.ht1.size

theorem Migrating.rehashidx (h : d.Migrating buckets target cursor) :
    ∃ cursor', d.rehashidx = some cursor' ∧ d.ht0.size = buckets ∧ d.ht1.size = target ∧
      cursor ≤ cursor' ∧ cursor' < buckets := by
  obtain ⟨-, stored, cursor', hload, hle, hlt⟩ := h
  cases hr : d.rehashidx with
  | none =>
      rw [load_of_idle hr] at hload
      cases hload
  | some i =>
      rw [load_of_moving hr] at hload
      cases hload
      exact ⟨_, rfl, rfl, rfl, hle, hlt⟩

/-- In every `Dict` that operations reach and that is rehashing: the cursor is inside the first
table; every call of `rehash_step` stays in bounds and gets on; and of any further operations no
more than there are buckets left advance the migration until it ends. -/
theorem rehash_ends (P : DictParams) (ops : List (DictOp V)) :
    let d := ops.foldl step (empty P)
    ∀ cursor, d.rehashidx = some cursor →
      cursor < d.ht0.size ∧ (∀ steps, 1 ≤ steps → d.StepsOn steps cursor) ∧
      ∀ more : List (DictOp V), d.ht0.size - cursor ≤ more.countP DictOp.advances →
        d.EndsWithin cursor more := by
  intro d cursor hcursor
  obtain ⟨hd, hregular⟩ := reached P ops
  have hload := load_of_moving hcursor
  have hlt : cursor < d.ht0.size := by
    rw [hload] at hregular
    exact hregular.2.2
  have hmigrating : d.Migrating d.ht0.size d.ht1.size cursor :=
    ⟨hd, d.size, cursor, hload, le_rfl, hlt⟩
  refine ⟨hlt, fun steps hsteps => stepsOn hd hcursor hsteps, fun more hmore => ?_⟩
  have hleaves : ¬ Run.Along step (fun d op => (d.opened op).isRehashing = true) d more := by
    intro halong
    obtain ⟨cursor', -, -, -, hle, hlt'⟩ := (hmigrating.run halong).rehashidx
    omega
  obtain ⟨before, op, after, hsplit, hbefore, hends⟩ := Run.exists_of_not_along hleaves
  obtain ⟨cursor', -, -, -, hle, hlt'⟩ := (hmigrating.run hbefore).rehashidx
  refine ⟨before, op, after, hsplit, by omega, by simpa using hends, fun first hfirst => ?_⟩
  obtain ⟨rest, rfl⟩ := hfirst
  obtain ⟨i, hi, h0, h1, hle, -⟩ := (hmigrating.run (Run.along_append.mp hbefore).1).rehashidx
  exact ⟨i, hi, hle, h0, h1⟩

/-- The fifth key starts a migration of four buckets, and four lookups are enough to end it. -/
theorem rehash_ends_four :
    EndsWithin (([0, 1, 2, 3, 4].map fun n => DictOp.set [n] n).foldl step
      (empty (DictParams.exact fun _ => 0))) 0 (List.replicate 4 (.get [7])) :=
  (rehash_ends (DictParams.exact fun _ => 0) ([0, 1, 2, 3, 4].map fun n => DictOp.set [n] n) 0
    rfl).2.2 (List.replicate 4 (.get [7])) (by decide)

end Dict

end Keva
