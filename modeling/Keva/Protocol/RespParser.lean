import Keva.Protocol.RespTypes
import Keva.Lib.Framing

/-!
# The incremental RESP2 parser

The parser keeps nothing between calls: it starts over at the front of the unconsumed input, and
`out_consumed` is what the verdict's rest leaves out. `pos` only moves forward, so each function
here takes the input from `pos` on. `parseValue` recurses once for every nested array; the length of
the input bounds that depth.
-/

namespace Keva

open Framing

/-- Why parsing stops for good: `ParseResult::Error`, or the `std::length_error` that
`elements.reserve` throws for a count that no vector can have. Memory is taken to suffice for
smaller counts, so `std::bad_alloc`, its other exception, is left out. -/
inductive ParseFault
  | protocolError
  | lengthError
  deriving DecidableEq, Repr

abbrev RespParser (α : Type) : Type := Parser ParseFault UInt8 α

namespace RespParser

open Framing.Parser

/-- `parse_line`, which looks for the end of the line with `find_crlf`. -/
def parseLine : RespParser Bytes := line 13 10

def parseSimple (pfx : UInt8) : RespParser RespValue := do
  let l ← parseLine
  if pfx = 43 then pure (.simpleString l)
  else if pfx = 45 then pure (.error l)
  else if pfx = 58 then
    match fromChars l with
    | .error _ => fail .protocolError
    | .ok (value, _) => pure (.integer value)
  else fail .protocolError

/-- The payload and the line break after it arrive together or not at all. -/
def parsePayload (length : ℕ) : RespParser RespValue := do
  let block ← take (length + 2)
  if block.drop length = crlf then pure (.bulkString (block.take length))
  else fail .protocolError

def parseBulkString : RespParser RespValue := do
  let lenStr ← parseLine
  match fromChars lenStr with
  | .error _ => fail .protocolError
  | .ok (length, _) =>
      if length = -1 then pure .nil
      else if length < 0 then fail .protocolError
      else parsePayload length.toInt.toNat

def parseElements (parseValue : RespParser RespValue) (count : ℕ) : RespParser RespValue :=
  if maxElements < count then fail .lengthError
  else do
    let elements ← replicate parseValue count
    pure (.array elements)

def parseArray (parseValue : RespParser RespValue) : RespParser RespValue := do
  let countStr ← parseLine
  match fromChars countStr with
  | .error _ => fail .protocolError
  | .ok (count, _) =>
      if count = -1 then pure .nil
      else if count < 0 then fail .protocolError
      else parseElements parseValue count.toInt.toNat

/-- The switch of `parse_value`, after the prefix byte has been read. -/
def parseBody (parseValue : RespParser RespValue) (pfx : UInt8) : RespParser RespValue :=
  if pfx = 43 ∨ pfx = 45 ∨ pfx = 58 then parseSimple pfx
  else if pfx = 36 then parseBulkString
  else if pfx = 42 then parseArray parseValue
  else fail .protocolError

def parseValue : ℕ → RespParser RespValue
  | 0 => starve
  | depth + 1 => do
      let pfx ← next
      parseBody (parseValue depth) pfx

def parse : RespParser RespValue := fun input => parseValue (input.length + 1) input

/-- What `parse` stores in `out_consumed`. -/
def outConsumed (input : Bytes) : ℕ :=
  match parse input with
  | .complete _ rest => input.length - rest.length
  | .incomplete => 0
  | .error _ => 0

theorem incremental_parseSimple (pfx : UInt8) : (parseSimple pfx).Incremental := by
  refine incremental_bind (incremental_line 13 10) fun l => ?_
  split_ifs
  · exact incremental_pure _
  · exact incremental_pure _
  · cases fromChars l with
    | error e => exact incremental_fail _
    | ok r => exact incremental_pure _
  · exact incremental_fail _

theorem incremental_parsePayload (n : ℕ) : (parsePayload n).Incremental := by
  refine incremental_bind (incremental_take _) fun block => ?_
  split_ifs
  · exact incremental_pure _
  · exact incremental_fail _

theorem incremental_parseBulkString : parseBulkString.Incremental := by
  refine incremental_bind (incremental_line 13 10) fun l => ?_
  cases fromChars l with
  | error e => exact incremental_fail _
  | ok r =>
      dsimp only
      split_ifs
      · exact incremental_pure _
      · exact incremental_fail _
      · exact incremental_parsePayload _

theorem incremental_parseArray {p : RespParser RespValue} (hp : p.Incremental) :
    (parseArray p).Incremental := by
  refine incremental_bind (incremental_line 13 10) fun l => ?_
  cases fromChars l with
  | error e => exact incremental_fail _
  | ok r =>
      dsimp only
      rw [parseElements]
      split_ifs
      · exact incremental_pure _
      · exact incremental_fail _
      · exact incremental_fail _
      · exact incremental_bind (incremental_replicate hp _) (fun es => incremental_pure _)

theorem incremental_parseBody {p : RespParser RespValue} (hp : p.Incremental) (pfx : UInt8) :
    (parseBody p pfx).Incremental := by
  rw [parseBody]
  split_ifs
  · exact incremental_parseSimple pfx
  · exact incremental_parseBulkString
  · exact incremental_parseArray hp
  · exact incremental_fail _

theorem incremental_parseValue (depth : ℕ) : (parseValue depth).Incremental := by
  induction depth with
  | zero => exact incremental_starve
  | succ depth ih => exact incremental_bind incremental_next (incremental_parseBody ih)

theorem advances_parseValue (depth : ℕ) : (parseValue depth).Advances := by
  cases depth with
  | zero => intro s a rest h; cases h
  | succ depth =>
      exact advances_bind advances_next
        (fun pfx => (incremental_parseBody (incremental_parseValue depth) pfx).reads)

theorem parseBody_congr {p q : RespParser RespValue} (hp : p.Reads) {n : ℕ}
    (h : ∀ s, s.length ≤ n → p s = q s) (pfx : UInt8) {s : Bytes} (hs : s.length ≤ n) :
    parseBody p pfx s = parseBody q pfx s := by
  have harray : parseArray p s = parseArray q s := by
    refine bind_congr_right fun l rest hl => ?_
    have hrest : rest.length ≤ n := by
      obtain ⟨u, rfl⟩ := reads_line 13 10 s l rest hl
      rw [List.length_append] at hs
      omega
    cases fromChars l with
    | error e => rfl
    | ok r =>
        dsimp only
        rw [parseElements, parseElements]
        split_ifs
        · rfl
        · rfl
        · rfl
        · exact bind_congr_left (replicate_congr hp h _ hrest)
  rw [parseBody, parseBody]
  split_ifs
  · rfl
  · rfl
  · exact harray
  · rfl

theorem parseValue_congr {m n : ℕ} {s : Bytes} (hm : s.length < m) (hn : s.length < n) :
    parseValue m s = parseValue n s := by
  induction m generalizing n s with
  | zero => omega
  | succ m ih =>
      cases n with
      | zero => omega
      | succ n =>
          refine bind_congr_right fun pfx rest hpfx => ?_
          have hlt := advances_next.length_lt hpfx
          exact parseBody_congr (incremental_parseValue m).reads
            (n := rest.length) (fun u hu => ih (by omega) (by omega)) pfx le_rfl

theorem parse_eq {s : Bytes} {depth : ℕ} (h : s.length < depth) : parse s = parseValue depth s :=
  parseValue_congr (Nat.lt_succ_self _) h

theorem stable_parse : parse.Stable := by
  intro s
  have hext : ∀ t, parse (s ++ t) = parseValue ((s ++ t).length + 1) (s ++ t) := fun t => rfl
  have hnow : ∀ t : Bytes, parse s = parseValue ((s ++ t).length + 1) s := fun t =>
    parse_eq (by rw [List.length_append]; omega)
  refine ⟨fun v rest h t => ?_, fun e h t => ?_⟩
  · rw [hext]
    exact ((incremental_parseValue _).stable s).complete v rest (hnow t ▸ h) t
  · rw [hext]
    exact ((incremental_parseValue _).stable s).error e (hnow t ▸ h) t

theorem advances_parse : parse.Advances := fun s => advances_parseValue (s.length + 1) s

theorem parse_nil : parse [] = .incomplete := rfl

theorem parseLine_append {l : Bytes} (hl : ¬ crlf <:+: l) (rest : Bytes) :
    parseLine (l ++ crlf ++ rest) = .complete l rest := by
  rw [List.append_assoc]
  exact line_append (by decide) hl rest

theorem count_checks {n : ℕ} (hn : n ≤ maxSize) :
    Int64.ofNat n ≠ -1 ∧ ¬ Int64.ofNat n < 0 ∧ (Int64.ofNat n).toInt.toNat = n := by
  have hint := (fromChars_toChars_ofNat hn).2
  refine ⟨fun h => ?_, ?_, by rw [hint, Int.toNat_natCast]⟩
  · rw [h] at hint
    have : (-1 : Int64).toInt = -1 := by decide
    omega
  · rw [Int64.lt_iff_toInt_lt, hint]
    have : (0 : Int64).toInt = 0 := by decide
    omega

end RespParser

end Keva
