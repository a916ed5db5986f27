import Mathlib.Data.List.Basic

/-!
# A queue of messages that is read one at a time

Messages are put at the end of a queue, unless it is full. The reader takes the first one whenever
it looks, and some messages make it stop. A message is read once the reader has looked as often as
there are messages up to it, whatever is put behind it.
-/

namespace Mailbox

variable {M : Type*}

structure State (M : Type*) where
  running : Bool
  queue : List M

inductive Op (M : Type*)
  | put (m : M)
  | take

def Op.isTake : Op M → Bool
  | put _ => false
  | take => true

/-- `room` is the number of messages that the queue takes. -/
def step (room : ℕ) (stops : M → Bool) (s : State M) : Op M → State M
  | .put m => if s.queue.length < room then { s with queue := s.queue ++ [m] } else s
  | .take =>
      match s.queue with
      | [] => s
      | m :: queue => ⟨s.running && !stops m, queue⟩

def after (room : ℕ) (stops : M → Bool) (s : State M) (ops : List (Op M)) : State M :=
  ops.foldl (step room stops) s

/-- How often the reader looks. -/
def takes (ops : List (Op M)) : ℕ := ops.countP Op.isTake

variable {room : ℕ} {stops : M → Bool} {s : State M} {ops : List (Op M)}

theorem after_append (s : State M) (ops ops' : List (Op M)) :
    after room stops s (ops ++ ops') = after room stops (after room stops s ops) ops' :=
  List.foldl_append

theorem takes_append (ops ops' : List (Op M)) : takes (ops ++ ops') = takes ops + takes ops' :=
  List.countP_append

theorem running_step_of_stopped (h : s.running = false) (op : Op M) :
    (step room stops s op).running = false := by
  cases op with
  | put m =>
      rw [step]
      split_ifs <;> exact h
  | take =>
      rw [step]
      split
      · exact h
      · rw [h, Bool.false_and]

theorem running_after_of_stopped (h : s.running = false) (ops : List (Op M)) :
    (after room stops s ops).running = false := by
  induction ops generalizing s with
  | nil => exact h
  | cons op ops ih => exact ih (running_step_of_stopped h op)

theorem stopped_of_takes {before behind : List M} {m : M} (hm : stops m = true)
    (hqueue : s.queue = before ++ m :: behind) (htakes : before.length < takes ops) :
    (after room stops s ops).running = false := by
  induction ops generalizing s before behind with
  | nil => exact absurd htakes (Nat.not_lt_zero _)
  | cons op ops ih =>
      rw [takes, List.countP_cons] at htakes
      cases op with
      | put m' =>
          rw [after, List.foldl_cons, step]
          split_ifs
          · have hput : s.queue ++ [m'] = before ++ m :: (behind ++ [m']) := by
              rw [hqueue, List.append_assoc, List.cons_append]
            exact ih hput htakes
          · exact ih hqueue htakes
      | take =>
          rw [after, List.foldl_cons, step, hqueue]
          cases before with
          | nil =>
              apply running_after_of_stopped
              rw [List.nil_append]
              dsimp only
              rw [hm, Bool.not_true, Bool.and_false]
          | cons m' before =>
              rw [List.length_cons] at htakes
              exact ih rfl (Nat.lt_of_succ_lt_succ htakes)

theorem stopped {m : M} (hm : stops m = true) (hmem : m ∈ s.queue)
    (htakes : s.queue.length ≤ takes ops) : (after room stops s ops).running = false := by
  obtain ⟨before, behind, hqueue⟩ := List.append_of_mem hmem
  apply stopped_of_takes hm hqueue
  rw [hqueue, List.length_append, List.length_cons] at htakes
  omega

/-- No message stops the reader. -/
structure Calm (stops : M → Bool) (s : State M) : Prop where
  running : s.running = true
  queue : ∀ m ∈ s.queue, stops m = false

theorem Calm.step (h : Calm stops s) {op : Op M} (hop : ∀ m, op = .put m → stops m = false) :
    Calm stops (step room stops s op) := by
  cases op with
  | put m =>
      rw [Mailbox.step]
      split_ifs
      · refine ⟨h.running, fun m' hm' => ?_⟩
        rcases List.mem_append.mp hm' with hm' | hm'
        · exact h.queue m' hm'
        · rw [List.mem_singleton.mp hm']
          exact hop m rfl
      · exact h
  | take =>
      rw [Mailbox.step]
      split
      · exact h
      · rename_i m queue hqueue
        have hm := h.queue
        rw [hqueue] at hm
        refine ⟨?_, fun m' hm' => hm m' (.tail m hm')⟩
        rw [h.running, hm m List.mem_cons_self]
        rfl

theorem Calm.after (h : Calm stops s) (hops : ∀ m, .put m ∈ ops → stops m = false) :
    Calm stops (after room stops s ops) := by
  induction ops generalizing s with
  | nil => exact h
  | cons op ops ih =>
      apply ih (h.step fun m hm => hops m (hm ▸ List.mem_cons_self))
      exact fun m hm => hops m (.tail op hm)

end Mailbox
