import Keva.Command.Replies

/-!
# Which frames reach a handler

Dispatch looks at the type of a frame's first element only; the other elements are handed to the
handlers, which read their `str` member whatever they are.
-/

namespace Keva

/-- A non-empty array of bulk strings. -/
def RespValue.WellFormed (frame : RespValue) : Prop :=
  ∃ es, frame = .array es ∧ es ≠ [] ∧ ∀ e ∈ es, e.isBulkString = true

/-- The frame gets an error for an answer and leaves the database and the counter of changes as
they were. -/
def Refused (env : ℕ → World) (s : Session) (frame : RespValue) : Prop :=
  ∃ message, (replyStep env s frame).1 = RespEncoder.error message ∧
    (replyStep env s frame).2.db = s.db ∧
    (replyStep env s frame).2.server.dirtyKeys = s.server.dirtyKeys

/-- The name and the number of elements are those of a command, but an element after the name is no
bulk string. -/
def Misshapen (frame : RespValue) : Prop :=
  ∃ name rest entry, frame = .array (.bulkString name :: rest) ∧
    findCommand (name.map toUpper) = some entry ∧
    entry.admits (.bulkString name :: rest) = true ∧ ∃ e ∈ rest, e.isBulkString = false

variable {env : ℕ → World} {s : Session} {frame : RespValue}

theorem Misshapen.frameCommand (h : Misshapen frame) :
    ¬ frame.WellFormed ∧ (frameCommand frame).isSome = true := by
  obtain ⟨name, rest, entry, rfl, hfind, hadmits, e, he, hbulk⟩ := h
  constructor
  · rintro ⟨es, heq, -, hall⟩
    obtain rfl := RespValue.array.inj heq
    rw [hall e (List.mem_cons_of_mem _ he)] at hbulk
    cases hbulk
  · have hname : findCommand ((RespValue.bulkString name).str.map toUpper) = some entry := hfind
    unfold Keva.frameCommand
    simp only [RespValue.elements, RespValue.isBulkString, Bool.not_true, Bool.false_eq_true,
      if_false, hname, hadmits, if_true, Option.isSome_some]

theorem wellFormed_of_frameCommand {c : CommandEntry × List RespValue}
    (h : frameCommand frame = some c) (hshape : ¬ Misshapen frame) : frame.WellFormed := by
  obtain ⟨entry, args⟩ := c
  obtain ⟨name, rest, hframe, rfl, hc, ha⟩ := frameCommand_shape h
  refine ⟨.bulkString name :: rest, hframe, List.cons_ne_nil _ _, fun e he => ?_⟩
  rcases List.mem_cons.mp he with rfl | hrest
  · rfl
  · by_contra hbulk
    exact hshape ⟨name, rest, entry, hframe, hc, ha, e, hrest, by simpa using hbulk⟩

theorem refused_of_none (h : frameCommand frame = none) : Refused env s frame := by
  obtain ⟨message, -, heq⟩ := executeFrame_rejects h
  have hexec : (Session.exec env (executeFrame frame) s).2.output =
        s.output ++ RespEncoder.error message ∧
      (Session.exec env (executeFrame frame) s).2.db = s.db ∧
      (Session.exec env (executeFrame frame) s).2.server.dirtyKeys = s.server.dirtyKeys := by
    rcases heq with heq | heq
    · rw [heq]
      exact ⟨rfl, rfl, rfl⟩
    · rw [heq]
      exact ⟨rfl, rfl, rfl⟩
  exact ⟨message, replyStep_fst hexec.1, hexec.2⟩

/-- A handler runs only on a well-formed frame, and every other frame is refused, unless the frame
has the name and the length of a command and a later element of another type. -/
theorem only_wellFormed_iff (env : ℕ → World) (s : Session) (frame : RespValue) :
    ((∀ entry args, frameCommand frame = some (entry, args) → frame.WellFormed) ∧
      (¬ frame.WellFormed → Refused env s frame)) ↔ ¬ Misshapen frame := by
  constructor
  · rintro ⟨hruns, -⟩ hmis
    obtain ⟨hill, hsome⟩ := hmis.frameCommand
    obtain ⟨c, hc⟩ := Option.isSome_iff_exists.mp hsome
    exact hill (hruns c.1 c.2 hc)
  · intro hshape
    refine ⟨fun entry args hc => wellFormed_of_frameCommand hc hshape, fun hill => ?_⟩
    apply refused_of_none
    by_contra hc
    obtain ⟨c, hc⟩ := Option.ne_none_iff_exists'.mp hc
    exact hill (wellFormed_of_frameCommand hc hshape)

/-- DEL with an integer for its key runs, and counts as a change. -/
theorem del_of_integer_runs :
    let frame := RespValue.array [.bulkString (ascii "DEL"), .integer 5]
    let s := Session.initial (.exact fun _ => 0) (.exact fun _ => 0) (.init ⟨6379, 10, true⟩ 0)
    let r := replyStep (fun _ => World.still 10 0) s frame
    ¬ frame.WellFormed ∧ (frameCommand frame).isSome ∧
      r.1 = RespEncoder.integer 0 ∧ r.2.server.dirtyKeys = 1 := by
  intro frame s r
  refine ⟨?_, rfl, by decide +kernel, by decide +kernel⟩
  rintro ⟨es, heq, -, hall⟩
  obtain rfl := RespValue.array.inj heq
  exact absurd (hall (.integer 5) (by simp)) Bool.false_ne_true

end Keva
