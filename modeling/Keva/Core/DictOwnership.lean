import Keva.Core.DictRun

/-!
# Who frees the values

The values of a `Dict` are pointers and `value_deleter_` frees them. Every pointer that a `Dict` was
given is stored in one entry or has been freed once, wherever its entry has been moved meanwhile.
-/

open scoped List

namespace Keva

/-- The pointers that the operation hands over. -/
def DictOp.given {V : Type} : DictOp V → List V
  | .set _ v => [v]
  | _ => []

/-- `freed` is what the operation has to free when the map holds `m`. -/
def FiniteMap.Frees {V : Type} (m : Bytes → Option V) (freed : List V) : DictOp V → Prop
  | .set k _ | .del k => freed = (m k).toList
  | .clear => ∀ v, v ∈ freed ↔ ∃ k, m k = some v
  | _ => freed = []

namespace Dict

variable {V : Type} {d d' : Dict V} {ptrs : List V}

/-- The values of the entries of both tables. -/
def values (d : Dict V) : List V := d.records.map DictEntry.value

/-- What the destructor has freed in the end. -/
def destroy (d : Dict V) : List V :=
  d.released ++ (d.ht0.entries ++ d.ht1.entries).map DictEntry.value

theorem SameRecords.values_perm (h : SameRecords d d') : d'.values ~ d.values :=
  h.perm.map DictEntry.value

theorem mem_values_iff (hd : d.Sound) {v : V} : v ∈ d.values ↔ ∃ k, d.toMap k = some v := by
  rw [values, List.mem_map]
  constructor
  · rintro ⟨e, he, rfl⟩
    exact ⟨e.key, (toMap_eq_some_iff hd).mpr ⟨e, he, rfl, rfl⟩⟩
  · rintro ⟨k, hk⟩
    obtain ⟨e, he, -, hv⟩ := (toMap_eq_some_iff hd).mp hk
    exact ⟨e, he, hv⟩

theorem value_of_perm (hd : d.Sound) {e : DictEntry V} {rest : List (DictEntry V)}
    (hp : d.records ~ e :: rest) : d.toMap e.key = some e.value :=
  (toMap_eq_some_iff hd).mpr ⟨e, hp.mem_iff.mpr List.mem_cons_self, rfl, rfl⟩

/-- What an operation does to the pointers: those it frees come behind those that were freed, and
the others are stored, together with those it was given. -/
structure Moves (d d' : Dict V) (given freed : List V) : Prop where
  released : d'.released = d.released ++ freed
  stored : d'.values ++ freed ~ d.values ++ given

theorem SameRecords.moves (h : SameRecords d d') : Moves d d' [] [] where
  released := by rw [h.released, List.append_nil]
  stored := by
    rw [List.append_nil, List.append_nil]
    exact h.values_perm

theorem moves_set (hd : d.Sound) (k : Bytes) (v : V) :
    Moves d (d.set k v).2 [v] (d.toMap k).toList := by
  rcases (set_spec hd k v).2 with ⟨old, hold, -, ⟨-, e, rest, hk, hp, hp'⟩, hrel⟩ |
    ⟨hnone, -, -, hrel, hp⟩
  · have hvalue := value_of_perm hd hp
    rw [hk, hold] at hvalue
    obtain rfl := Option.some.inj hvalue
    rw [hold]
    refine ⟨hrel, ?_⟩
    calc
      _ ~ (v :: rest.map DictEntry.value) ++ [e.value] :=
        (hp'.map DictEntry.value).append_right _
      _ ~ e.value :: (v :: rest.map DictEntry.value) := List.perm_append_singleton _ _
      _ ~ v :: (e.value :: rest.map DictEntry.value) := List.Perm.swap _ _ _
      _ ~ (e.value :: rest.map DictEntry.value) ++ [v] := (List.perm_append_singleton _ _).symm
      _ ~ d.values ++ [v] := (hp.map DictEntry.value).symm.append_right _
  · rw [hnone]
    refine ⟨by rw [hrel]; exact (List.append_nil _).symm, ?_⟩
    calc
      _ = (d.set k v).2.values := List.append_nil _
      _ ~ v :: d.values := hp.map DictEntry.value
      _ ~ d.values ++ [v] := (List.perm_append_singleton _ _).symm

theorem moves_del (hd : d.Sound) (k : Bytes) : Moves d (d.del k).2 [] (d.toMap k).toList := by
  rcases (del_spec hd k).2.2 with ⟨e, rfl, -, hp, hrel⟩ | ⟨hnone, -, hsame⟩
  · rw [value_of_perm hd hp]
    refine ⟨hrel, ?_⟩
    calc
      _ ~ e.value :: (d.del e.key).2.values := List.perm_append_singleton _ _
      _ ~ d.values := (hp.map DictEntry.value).symm
      _ = d.values ++ [] := (List.append_nil _).symm
  · rw [hnone]
    exact hsame.moves

theorem moves_clear (d : Dict V) : Moves d d.clear [] d.values where
  released := rfl
  stored := by
    have hempty : d.clear.values = [] := by simp [values, records, clear]
    rw [hempty, List.append_nil, List.nil_append]

theorem moves_perform (hd : d.Sound) (op : DictOp V) :
    ∃ freed, FiniteMap.Frees d.toMap freed op ∧ Moves d (d.perform op).2 op.given freed := by
  cases op with
  | set k v => exact ⟨_, rfl, moves_set hd k v⟩
  | del k => exact ⟨_, rfl, moves_del hd k⟩
  | clear => exact ⟨_, fun v => mem_values_iff hd, moves_clear d⟩
  | get k => exact ⟨[], rfl, (get_spec hd k).2.2.moves⟩
  | rehashStep n => exact ⟨[], rfl, (rehashStep_spec hd n).2.moves⟩
  | getConst k | «exists» k | size | forEach => exact ⟨[], rfl, (SameRecords.refl d).moves⟩

theorem Moves.owned {given freed : List V} (h : Moves d d' given freed)
    (hptrs : d.values ++ d.released ~ ptrs) : d'.values ++ d'.released ~ ptrs ++ given := by
  rw [h.released]
  calc
    _ ~ d'.values ++ (freed ++ d.released) := List.perm_append_comm.append_left _
    _ = (d'.values ++ freed) ++ d.released := (List.append_assoc ..).symm
    _ ~ (d.values ++ given) ++ d.released := h.stored.append_right _
    _ = d.values ++ (given ++ d.released) := List.append_assoc ..
    _ ~ d.values ++ (d.released ++ given) := List.perm_append_comm.append_left _
    _ = (d.values ++ d.released) ++ given := (List.append_assoc ..).symm
    _ ~ ptrs ++ given := hptrs.append_right _

theorem owned_run (P : DictParams) (ops : List (DictOp V)) :
    let d := (Run.run perform (empty P) ops).2
    d.Represents (ops.foldl FiniteMap.effect fun _ => none) ∧
      d.values ++ d.released ~ ops.flatMap DictOp.given := by
  have hstep : ∀ (d : Dict V) (ptrs : List V) (op : DictOp V),
      d.Sound ∧ d.values ++ d.released ~ ptrs →
      True ∧ (d.perform op).2.Sound ∧
        (d.perform op).2.values ++ (d.perform op).2.released ~ ptrs ++ op.given := by
    rintro d ptrs op ⟨hd, hptrs⟩
    obtain ⟨freed, -, hmoves⟩ := moves_perform hd op
    exact ⟨trivial, (perform_represents d _ op ⟨hd, rfl⟩).2.1, hmoves.owned hptrs⟩
  have hempty : (empty P : Dict V).values ++ (empty P : Dict V).released ~ [] := by
    simp [values, records, empty]
  have hrun := (@Run.run_refines _ _ _ _ perform _ (fun _ _ _ => True) _ hstep ops _ _
    ⟨sound_empty P, hempty⟩).2.2
  rw [← List.flatMap_eq_foldl] at hrun
  exact ⟨(Run.run_refines perform_represents ops ⟨sound_empty P, toMap_empty P⟩).2, hrun⟩

/-- The pointers are those that are stored and those that have been freed, each of them once. What
has been freed cannot be reached any more. -/
structure OwnsOnce (d : Dict V) (ptrs : List V) : Prop where
  split : ptrs ~ d.values ++ d.released
  nodup : (d.values ++ d.released).Nodup
  unreachable : ∀ v ∈ d.released, (∀ k, (d.get k).1 ≠ some v) ∧ (∀ k, d.getConst k ≠ some v) ∧
    ∀ p ∈ d.forEach, p.2 ≠ v

theorem ownsOnce_of_perm (hd : d.Sound) (hp : ptrs ~ d.values ++ d.released)
    (hfresh : ptrs.Nodup) : d.OwnsOnce ptrs := by
  have hnodup := hp.nodup_iff.mp hfresh
  have hgone : ∀ v ∈ d.released, ∀ k, d.toMap k ≠ some v := fun v hv k hk =>
    (List.nodup_append.mp hnodup).2.2 v ((mem_values_iff hd).mpr ⟨k, hk⟩) v hv rfl
  refine ⟨hp, hnodup, fun v hv => ⟨fun k => ?_, fun k => ?_, ?_⟩⟩
  · rw [(get_spec hd k).1]
    exact hgone v hv k
  · rw [getConst_eq hd]
    exact hgone v hv k
  · rintro ⟨k, v'⟩ hmem rfl
    exact hgone v' hv k ((mem_forEach_iff hd).mp hmem)

/-- After any operations with fresh pointers, each pointer is stored or freed once; the next
operation frees what it overwrites, deletes or clears; and in the end the destructor frees what is
left. -/
theorem values_owned_once (P : DictParams) (ops : List (DictOp V))
    (hfresh : (ops.flatMap DictOp.given).Nodup) :
    let d := (Run.run perform (empty P) ops).2
    d.OwnsOnce (ops.flatMap DictOp.given) ∧
      (∀ op, ∃ freed, (d.perform op).2.released = d.released ++ freed ∧
        FiniteMap.Frees (ops.foldl FiniteMap.effect fun _ => none) freed op) ∧
      d.destroy ~ ops.flatMap DictOp.given ∧ d.destroy.Nodup := by
  intro d
  obtain ⟨⟨hd, hmap⟩, hptrs⟩ := owned_run P ops
  have hdestroy : d.destroy ~ ops.flatMap DictOp.given :=
    List.perm_append_comm.trans hptrs
  refine ⟨ownsOnce_of_perm hd hptrs.symm hfresh, fun op => ?_, hdestroy,
    hdestroy.nodup_iff.mpr hfresh⟩
  obtain ⟨freed, hfrees, hmoves⟩ := moves_perform hd op
  exact ⟨freed, hmoves.released, hmap ▸ hfrees⟩

/-- Pointer 1 is overwritten, pointer 2 is deleted and pointer 3 is still stored. -/
theorem values_owned_once_overwrite :
    (Run.run perform (empty (DictParams.exact fun _ => 0))
      [.set [1] 1, .set [1] 2, .del [1], .set [2] 3]).2.OwnsOnce [1, 2, 3] :=
  (values_owned_once (DictParams.exact fun _ => 0)
    [.set [1] 1, .set [1] 2, .del [1], .set [2] 3] (by decide)).1

end Dict

end Keva
