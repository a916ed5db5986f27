import Keva.Core.DictMap
import Keva.Lib.Run

/-!
# Sequences of `Dict` operations answer as a finite map

`FiniteMap.effect` and `FiniteMap.Answers` say what a finite map from keys to values does with each
operation. A `Dict` that starts empty gives the same answers, whatever the hash function, however
the load-factor comparisons round, and wherever the migration cursor stands.
-/

namespace Keva

inductive DictOp (V : Type)
  | set (key : Bytes) (value : V)
  | get (key : Bytes)
  | getConst (key : Bytes)
  | del (key : Bytes)
  | exists (key : Bytes)
  | rehashStep (steps : ℤ)
  | clear
  | size
  | forEach

inductive DictReply (V : Type)
  | flag (b : Bool)
  | value (v : Option V)
  | count (n : ℕ)
  | entries (l : List (Bytes × V))
  | done

namespace Dict

variable {V : Type}

def perform (d : Dict V) : DictOp V → DictReply V × Dict V
  | .set k v => (.flag (d.set k v).1, (d.set k v).2)
  | .get k => (.value (d.get k).1, (d.get k).2)
  | .getConst k => (.value (d.getConst k), d)
  | .del k => (.flag (d.del k).1, (d.del k).2)
  | .exists k => (.flag (d.exists k), d)
  | .rehashStep n => (.flag (d.rehashStep n).1, (d.rehashStep n).2)
  | .clear => (.done, d.clear)
  | .size => (.count d.size, d)
  | .forEach => (.entries d.forEach, d)

end Dict

namespace FiniteMap

variable {V : Type}

def effect (m : Bytes → Option V) : DictOp V → Bytes → Option V
  | .set k v => Function.update m k (some v)
  | .del k => Function.update m k none
  | .clear => fun _ => none
  | _ => m

/-- The replies of a finite map. What `rehash_step` replies is about the migration, not the map. -/
def Answers (m : Bytes → Option V) : DictOp V → DictReply V → Prop
  | .set k _, .flag b => b = (m k).isNone
  | .get k, .value o => o = m k
  | .getConst k, .value o => o = m k
  | .del k, .flag b => b = (m k).isSome
  | .exists k, .flag b => b = (m k).isSome
  | .rehashStep _, .flag _ => True
  | .clear, .done => True
  | .size, .count n => n = {k | m k ≠ none}.ncard
  | .forEach, .entries l => (l.map Prod.fst).Nodup ∧ ∀ k v, (k, v) ∈ l ↔ m k = some v
  | _, _ => False

end FiniteMap

namespace Dict

variable {V : Type}

/-- The sound `Dict` `d` stands for the map `m`. -/
def Represents (d : Dict V) (m : Bytes → Option V) : Prop := d.Sound ∧ d.toMap = m

theorem perform_represents (d : Dict V) (m : Bytes → Option V) (op : DictOp V)
    (h : d.Represents m) :
    FiniteMap.Answers m op (d.perform op).1 ∧
      (d.perform op).2.Represents (FiniteMap.effect m op) := by
  obtain ⟨hd, rfl⟩ := h
  cases op with
  | set k v => exact ⟨set_fst hd k v, (set_spec hd k v).1, toMap_set hd k v⟩
  | get k =>
      obtain ⟨hval, hs, hsame⟩ := get_spec hd k
      exact ⟨hval, hs, hsame.toMap_eq hd⟩
  | getConst k => exact ⟨getConst_eq hd k, hd, rfl⟩
  | del k => exact ⟨del_fst hd k, (del_spec hd k).1, toMap_del hd k⟩
  | «exists» k => exact ⟨exists_eq hd k, hd, rfl⟩
  | rehashStep n =>
      obtain ⟨hs, hsame⟩ := rehashStep_spec hd n
      exact ⟨trivial, hs, hsame.toMap_eq hd⟩
  | clear => exact ⟨trivial, sound_clear d, toMap_clear d⟩
  | size => exact ⟨size_eq_ncard hd, hd, rfl⟩
  | forEach => exact ⟨⟨nodup_forEach hd, fun _ _ => mem_forEach_iff hd⟩, hd, rfl⟩

/-- From the empty `Dict`, every sequence of operations is answered as a finite map answers it. -/
theorem run_answers_as_finiteMap (P : DictParams) (ops : List (DictOp V)) :
    Run.Allows FiniteMap.effect FiniteMap.Answers (fun _ => none) ops
      (Run.run perform (empty P) ops).1 :=
  (Run.run_refines perform_represents ops ⟨sound_empty P, toMap_empty P⟩).1

end Dict

end Keva
