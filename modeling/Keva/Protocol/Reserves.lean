import Keva.Protocol.RespCursor

/-!
# What the parser reserves

`parse_array` passes the count of an array header on to `elements.reserve` before it has seen any
element. The calls that a parse makes are those of the array headers it reaches, so what it asks for
depends on the numbers in the input alone. How much of that the memory has is not part of the model:
of the two exceptions of `reserve` it has `std::length_error`, and memory is taken to suffice.
-/

namespace Keva

open Framing RespParser

/-- The parse of the input comes to an array header and makes the call. Before the element of an
array that holds the header, there are `ps`. -/
inductive ReachesReserve : Bytes → Reserve → Prop
  | here {line rest : Bytes} {n : ℕ} (hline : ¬ crlf <:+: line) (h : TakenHeader line (.array n)) :
      ReachesReserve (line ++ crlf ++ rest) ⟨n, rest.length⟩
  | element {line rest : Bytes} {ps : List (Bytes × RespValue)} {n : ℕ} {r : Reserve}
      (hline : ¬ crlf <:+: line) (h : TakenHeader line (.array n)) (hmax : n ≤ maxElements)
      (hlt : ps.length < n) (hps : ∀ q ∈ ps, Frame TakenHeader q.1 q.2)
      (hrest : ReachesReserve rest r) :
      ReachesReserve (line ++ crlf ++ (ps.flatMap Prod.fst ++ rest)) r

variable {s line : Bytes} {r : Reserve} {depth : ℕ}

theorem TakenHeader.exists_array {n : ℕ} (h : TakenHeader line (.array n)) :
    ∃ l, line = 42 :: l ∧ takenSize .array l = some (.array n) := by
  cases h with
  | @intro pfx l _ h =>
      have hbulk : ∀ l : Bytes, takenSize .bulkString l ≠ some (.array n) := by
        intro l hl
        rw [takenSize] at hl
        cases hf : fromChars l with
        | error e => rw [hf] at hl; cases hl
        | ok r =>
            rw [hf] at hl
            dsimp only at hl
            split_ifs at hl <;> cases hl
      have hinteger : ∀ l : Bytes, takenInteger l ≠ some (.array n) := by
        intro l hl
        rw [takenInteger] at hl
        cases hf : fromChars l with
        | error e => rw [hf] at hl; cases hl
        | ok r => rw [hf] at hl; cases hl
      rw [takenHeader] at h
      split_ifs at h with h43 h45 h58 h36 h42
      · cases h
      · cases h
      · exact absurd h (hinteger l)
      · exact absurd h (hbulk l)
      · exact ⟨l, by rw [h42], h⟩

theorem reachesReserve_of_reached (h : RespCursor.reached depth s r) : ReachesReserve s r := by
  induction depth generalizing s r with
  | zero => exact h.elim
  | succ depth ih =>
      obtain ⟨l, rest, rfl, hl, h⟩ := h
      have hline : ¬ crlf <:+: 42 :: l := fun hin =>
        hl ((crlf_infix_typeByte_cons (by decide)).mp hin)
      change ReachesReserve (42 :: l ++ crlf ++ rest) r
      cases hx : takenSize .array l with
      | none => rw [hx] at h; exact h.elim
      | some x =>
          have htaken : TakenHeader (42 :: l) x := .intro hx
          rw [hx] at h
          cases x with
          | value v => exact h.elim
          | bulkString n => exact h.elim
          | array n =>
              rcases h with rfl | ⟨hmax, h⟩
              · exact .here hline htaken
              · obtain ⟨ps, t, hlt, rfl, hps, ht⟩ :=
                  exists_of_notedBy (fun _ _ _ => frame_of_parseValue) h
                exact .element hline htaken hmax hlt hps (ih ht)

theorem reached_of_reachesReserve (h : ReachesReserve s r) (hs : s.length < depth) :
    RespCursor.reached depth s r := by
  induction h generalizing depth with
  | @here line rest n hline h =>
      obtain ⟨d, rfl, -⟩ := exists_depth hs
      obtain ⟨l, rfl, hx⟩ := h.exists_array
      have hl : ¬ crlf <:+: l := fun hin =>
        hline ((crlf_infix_typeByte_cons (by decide)).mpr hin)
      refine ⟨l, rest, rfl, hl, ?_⟩
      rw [hx]
      exact .inl rfl
  | @element line rest ps n r hline h hmax hlt hps hrest ih =>
      obtain ⟨d, rfl, hroom⟩ := exists_depth hs
      rw [List.length_append] at hroom
      obtain ⟨l, rfl, hx⟩ := h.exists_array
      have hl : ¬ crlf <:+: l := fun hin =>
        hline ((crlf_infix_typeByte_cons (by decide)).mpr hin)
      refine ⟨l, _, rfl, hl, ?_⟩
      rw [hx]
      have helements := parseValue_of_mem hps (show (ps.flatMap Prod.fst).length < d by omega)
      have hnoted := ih (show rest.length < d by omega)
      exact .inr ⟨hmax, notedBy_append helements hlt hnoted⟩

theorem mem_reserves_iff (input : StringView) :
    r ∈ (RespCursor.parse input).2.reserves ↔ ReachesReserve input.bytes r := by
  rw [RespCursor.mem_reserves_parse]
  exact ⟨reachesReserve_of_reached, fun h => reached_of_reachesReserve h (Nat.lt_succ_self _)⟩

theorem exists_of_lengthError (h : parseValue depth s = .error .lengthError) :
    ∃ r, ReachesReserve s r ∧ maxElements < r.count := by
  induction depth generalizing s with
  | zero => cases h
  | succ depth ih =>
      rcases parseValue_cases (by rw [h]; exact fun hinc => by cases hinc) with
        ⟨herror, -⟩ | ⟨line, x, mid, rfl, hline, htaken, hread⟩
      · rw [herror] at h
        cases h
      · rw [hread] at h
        cases x with
        | value v => cases h
        | bulkString n => cases (parsePayload_eq_error h).1
        | array n =>
            rcases parseElements_eq_error (fun _ _ _ => frame_of_parseValue) h with
              ⟨hmax, -⟩ | ⟨ps, t, hlt, hmax, rfl, hps, ht⟩
            · exact ⟨_, .here hline htaken, hmax⟩
            · obtain ⟨r, hr, hcount⟩ := ih ht
              exact ⟨r, .element hline htaken hmax hlt hps hr, hcount⟩

theorem lengthError_of_reachesReserve (h : ReachesReserve s r) (hcount : maxElements < r.count)
    (hs : s.length < depth) : parseValue depth s = .error .lengthError := by
  induction h generalizing depth with
  | here hline h =>
      obtain ⟨d, rfl, -⟩ := exists_depth hs
      rw [parseValue_of_taken hline h, parseContents, parseElements, if_pos hcount]
      rfl
  | @element line rest ps n r hline h hmax hlt hps hrest ih =>
      obtain ⟨d, rfl, hroom⟩ := exists_depth hs
      rw [List.length_append] at hroom
      have helements := parseValue_of_mem hps (show (ps.flatMap Prod.fst).length < d by omega)
      have herror := ih hcount (show rest.length < d by omega)
      have hes := Parser.replicate_append_of_error helements hlt herror
      rw [parseValue_of_taken hline h, parseContents, parseElements, if_neg (not_lt.mpr hmax)]
      exact Parser.bind_of_error hes

theorem parse_eq_lengthError_iff :
    parse s = .error .lengthError ↔ ∃ r, ReachesReserve s r ∧ maxElements < r.count := by
  constructor
  · exact exists_of_lengthError
  · rintro ⟨r, hr, hcount⟩
    exact lengthError_of_reachesReserve hr hcount (Nat.lt_succ_self _)

/-- `parse` returns one of its results. -/
inductive ReturnsResult (input : StringView) : Prop
  | complete {v : RespValue} (h : (RespCursor.parse input).1 = .ok v)
  | incomplete (h : (RespCursor.parse input).1 = .error .incomplete)
  | error (h : (RespCursor.parse input).1 = .error .error)

/-- `parse` returns, and no count that it reserves for exceeds the number of bytes left. -/
structure ReservesSafely (input : StringView) : Prop where
  returns : ReturnsResult input
  reserves : ∀ r ∈ (RespCursor.parse input).2.reserves, r.count ≤ r.left

theorem returnsResult_iff_ne (input : StringView) :
    ReturnsResult input ↔ parse input.bytes ≠ .error .lengthError := by
  have hparse := (RespCursor.parse_spec input).1
  constructor
  · intro h heq
    rw [heq] at hparse
    cases h with
    | complete h => rw [hparse] at h; cases h
    | incomplete h => rw [hparse] at h; cases h
    | error h => rw [hparse] at h; cases h
  · intro hne
    cases heq : parse input.bytes with
    | complete v rest => rw [heq] at hparse; exact .complete hparse
    | incomplete => rw [heq] at hparse; exact .incomplete hparse
    | error e =>
        cases e with
        | protocolError => rw [heq] at hparse; exact .error hparse
        | lengthError => exact absurd heq hne

theorem returnsResult_iff (input : StringView) :
    ReturnsResult input ↔ ∀ r, ReachesReserve input.bytes r → r.count ≤ maxElements := by
  rw [returnsResult_iff_ne, Ne, parse_eq_lengthError_iff]
  simp only [not_exists, not_and, not_lt]

/-- The parser returns, and never reserves for more elements than there are bytes left, on the
inputs whose array headers, as far as it reaches them, announce no more elements than there are
bytes behind them and than a vector can have. -/
theorem reservesSafely_iff (input : StringView) :
    ReservesSafely input ↔
      ∀ r, ReachesReserve input.bytes r → r.count ≤ maxElements ∧ r.count ≤ r.left := by
  constructor
  · intro h r hr
    have hreturns := (returnsResult_iff input).mp h.returns
    exact ⟨hreturns r hr, h.reserves r ((mem_reserves_iff input).mpr hr)⟩
  · intro h
    refine ⟨(returnsResult_iff input).mpr fun r hr => (h r hr).1, fun r hr => ?_⟩
    exact (h r ((mem_reserves_iff input).mp hr)).2

theorem array_header_throws :
    ¬ ReservesSafely ⟨ascii "*9223372036854775807\r\n", by decide⟩ := by
  intro h
  have hreturns := (returnsResult_iff_ne _).mp h.returns
  exact hreturns rfl

end Keva
