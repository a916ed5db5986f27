import Keva.Protocol.Resp2
import Keva.Lib.Cursor

/-!
# The cursor of the parser

`RespParser` above takes the input from the cursor on. Here the functions are written as the code
has them: the whole view is passed along with the cursor `pos`, a `usize`, and every access to the
view says what happens outside of it. `elements.reserve` is noted with the count that it is given
and the number of bytes that are left then. `simulates_parseValue` connects the two: the code stops
as the parser does, its cursor never leaves the view and never wraps.
-/

namespace Keva

open Framing

/-- `std::string_view::max_size()`. -/
def maxViewSize : ℕ := (2 ^ 64 - 1 - 2 * 8) / 4

structure StringView where
  bytes : Bytes
  size_le : bytes.length ≤ maxViewSize

/-- What ends the parsing other than a value: a `ParseResult`, the exception of `substr` or of
`reserve`, or the bound on the recursion that the functions here are given. -/
inductive ParseStop
  | incomplete
  | error
  | outOfRange
  | lengthError
  | outOfDepth
  deriving DecidableEq

/-- A call of `elements.reserve`. -/
structure Reserve where
  count : ℕ
  left : ℕ
  deriving DecidableEq

structure Cursor where
  pos : UInt64
  reserves : List Reserve

abbrev CursorParser (α : Type) : Type := ExceptT ParseStop (StateM Cursor) α

namespace RespCursor

variable (input : StringView)

/-- `if (pos >= input.size()) return ParseResult::Incomplete`. -/
def requireByte : CursorParser Unit := do
  let c ← get
  if input.bytes.length ≤ c.pos.toNat then throw .incomplete

/-- `input[i]`. -/
def byteAt (i : UInt64) : CursorParser UInt8 :=
  match input.bytes[i.toNat]? with
  | some b => pure b
  | none => throw .outOfRange

/-- `input.substr(i, n)`. -/
def substr (i n : UInt64) : CursorParser Bytes :=
  if input.bytes.length < i.toNat then throw .outOfRange
  else pure ((input.bytes.drop i.toNat).take n.toNat)

def advance (n : UInt64) : CursorParser Unit :=
  modify fun c => { c with pos := c.pos + n }

def findCrlf : Bytes → Option ℕ
  | a :: b :: rest =>
      if a = 13 ∧ b = 10 then some 0 else (findCrlf (b :: rest)).map (· + 1)
  | _ => none

/-- `std::string_view::npos`. -/
def npos : UInt64 := -1

def parseLine : CursorParser Bytes := do
  let c ← get
  let remaining ← substr input c.pos npos
  match findCrlf remaining with
  | none => throw .incomplete
  | some crlf => do
      advance (UInt64.ofNat crlf + 2)
      pure (remaining.take crlf)

def parseSimple : CursorParser RespValue := do
  requireByte input
  let c ← get
  let pfx ← byteAt input c.pos
  advance 1
  let line ← parseLine input
  if pfx = 43 then pure (.simpleString line)
  else if pfx = 45 then pure (.error line)
  else if pfx = 58 then
    match fromChars line with
    | .error _ => throw .error
    | .ok (value, _) => pure (.integer value)
  else throw .error

/-- The part of `parse_bulk_string` behind its sign checks. -/
def parsePayload (length : Int64) : CursorParser RespValue := do
  let c ← get
  let payloadEnd := c.pos + length.toUInt64 + 2
  if input.bytes.length < payloadEnd.toNat then throw .incomplete
  else do
    let payload ← substr input c.pos length.toUInt64
    let cr ← byteAt input (c.pos + length.toUInt64)
    let lf ← byteAt input (c.pos + length.toUInt64 + 1)
    if cr ≠ 13 ∨ lf ≠ 10 then throw .error
    else do
      advance (length.toUInt64 + 2)
      pure (.bulkString payload)

def parseBulkString : CursorParser RespValue := do
  requireByte input
  advance 1
  let lenStr ← parseLine input
  match fromChars lenStr with
  | .error _ => throw .error
  | .ok (length, _) =>
      if length = -1 then pure .nil
      else if length < 0 then throw .error
      else parsePayload input length

/-- `elements.reserve(count)`, where memory suffices for as many elements as a vector can have. -/
def reserve (count : UInt64) : CursorParser Unit := do
  modify fun c =>
    { c with reserves := c.reserves ++ [⟨count.toNat, input.bytes.length - c.pos.toNat⟩] }
  if maxElements < count.toNat then throw .lengthError

def parseElements (parseValue : CursorParser RespValue) (count : Int64) :
    CursorParser RespValue := do
  reserve input count.toUInt64
  let elements ← collect parseValue count.toUInt64.toNat
  pure (.array elements)

def parseArray (parseValue : CursorParser RespValue) : CursorParser RespValue := do
  requireByte input
  advance 1
  let countStr ← parseLine input
  match fromChars countStr with
  | .error _ => throw .error
  | .ok (count, _) =>
      if count = -1 then pure .nil
      else if count < 0 then throw .error
      else parseElements input parseValue count

def parseValue : ℕ → CursorParser RespValue
  | 0 => throw .outOfDepth
  | depth + 1 => do
      requireByte input
      let c ← get
      let pfx ← byteAt input c.pos
      if pfx = 43 ∨ pfx = 45 ∨ pfx = 58 then parseSimple input
      else if pfx = 36 then parseBulkString input
      else if pfx = 42 then parseArray input (parseValue depth)
      else throw .error

/-- `parse`, with the cursor that it leaves. -/
def parse : Except ParseStop RespValue × Cursor :=
  parseValue input (input.bytes.length + 1) ⟨0, []⟩

variable {input}

def view (input : StringView) : CursorView Cursor UInt8 Reserve where
  input := input.bytes
  pos c := c.pos.toNat
  notes := Cursor.reserves

def stop : Option ParseFault → ParseStop
  | none => .incomplete
  | some .protocolError => .error
  | some .lengthError => .lengthError

variable {c : Cursor} {s : Bytes} {b : UInt8}

theorem getElem?_of_at (hat : (view input).At c s) (i : ℕ) :
    input.bytes[c.pos.toNat + i]? = s[i]? := by
  rw [← List.getElem?_drop, ← hat.drop_eq]
  rfl

theorem toNat_add_of_le (input : StringView) {p : UInt64} {n : ℕ}
    (h : p.toNat + n ≤ input.bytes.length) : (p + UInt64.ofNat n).toNat = p.toNat + n := by
  have hsize := input.size_le
  have hmax : maxViewSize < 2 ^ 64 := by decide
  rw [UInt64.toNat_add, UInt64.toNat_ofNat']
  omega

theorem toNat_toUInt64 {n : Int64} (h : ¬ n < 0) : n.toUInt64.toNat = n.toInt.toNat := by
  rw [Int64.lt_iff_toInt_lt] at h
  have h0 : (0 : Int64).toInt = 0 := by decide
  have hint : n.toInt = n.toBitVec.toInt := rfl
  have hnat : n.toUInt64.toNat = n.toBitVec.toNat := rfl
  rw [h0, not_lt, hint] at h
  have hmsb : n.toBitVec.msb = false := by
    rw [← Bool.not_eq_true, BitVec.msb_eq_toInt]
    simpa using h
  rw [hint, hnat, BitVec.toInt_eq_toNat_of_msb hmsb, Int.toNat_natCast]

theorem requireByte_of_at (hat : (view input).At c (b :: s)) :
    requireByte input c = (.ok (), c) := by
  have hlength := hat.length_eq
  have hlt : ¬ input.bytes.length ≤ c.pos.toNat := by
    rw [List.length_cons] at hlength
    change s.length + 1 = input.bytes.length - c.pos.toNat at hlength
    omega
  change (if _ then _ else _ : CursorParser Unit) c = _
  rw [if_neg hlt]
  rfl

theorem requireByte_of_at_nil (hat : (view input).At c []) :
    requireByte input c = (.error .incomplete, c) := by
  have hlength := hat.length_eq
  have hle : input.bytes.length ≤ c.pos.toNat := by
    change 0 = input.bytes.length - c.pos.toNat at hlength
    omega
  change (if _ then _ else _ : CursorParser Unit) c = _
  rw [if_pos hle]
  rfl

theorem byteAt_of_at {p : UInt64} {i : ℕ} (hat : (view input).At c s)
    (hp : p.toNat = c.pos.toNat + i) (hb : s[i]? = some b) : byteAt input p = pure b := by
  rw [byteAt, hp, getElem?_of_at hat, hb]

theorem simulates_advance {α : Type} {u rest : Bytes} {n : UInt64} {f : Unit → CursorParser α}
    {v : Verdict ParseFault UInt8 α} {L : Reserve → Prop} (hat : (view input).At c (u ++ rest))
    (hn : n = UInt64.ofNat u.length)
    (h : ∀ c', (view input).At c' rest → Simulates (view input) stop c' (f ()) v L) :
    Simulates (view input) stop c (advance n >>= f) v L := by
  have hlength := hat.length_eq
  have hle := hat.pos_le
  change c.pos.toNat ≤ input.bytes.length at hle
  change (u ++ rest).length = input.bytes.length - c.pos.toNat at hlength
  rw [List.length_append] at hlength
  have hpos : (c.pos + n).toNat = c.pos.toNat + u.length := by
    rw [hn]
    exact toNat_add_of_le input (by omega)
  have hat' : (view input).At { c with pos := c.pos + n } rest := hat.move hpos
  have hmove : c.pos.toNat ≤ (c.pos + n).toNat := by omega
  exact .of_step (k := f ()) rfl hmove rfl (h _ hat')

theorem line_eq_findCrlf (s : Bytes) :
    RespParser.parseLine s =
      match findCrlf s with
      | none => .incomplete
      | some i => .complete (s.take i) (s.drop (i + 2)) := by
  unfold RespParser.parseLine
  induction s with
  | nil => rfl
  | cons x s ih =>
      cases s with
      | nil => rfl
      | cons y s =>
          by_cases hxy : x = 13 ∧ y = 10
          · rw [Parser.line, findCrlf, if_pos hxy, if_pos hxy]
            rfl
          · rw [Parser.line_cons_cons hxy, findCrlf, if_neg hxy]
            cases hf : findCrlf (y :: s) with
            | none =>
                rw [hf] at ih
                exact Parser.bind_of_incomplete ih
            | some i =>
                rw [hf] at ih
                rw [Parser.bind_of_complete ih]
                rfl

theorem findCrlf_lt {s : Bytes} {i : ℕ} (h : findCrlf s = some i) : i + 2 ≤ s.length := by
  induction s generalizing i with
  | nil => cases h
  | cons x s ih =>
      cases s with
      | nil => cases h
      | cons y s =>
          rw [findCrlf] at h
          split_ifs at h
          · cases h
            simp
          · obtain ⟨j, hj, rfl⟩ := Option.map_eq_some_iff.mp h
            have := ih hj
            rw [List.length_cons]
            omega

theorem substr_of_at (hat : (view input).At c s) (n : UInt64) :
    substr input c.pos n = pure (s.take n.toNat) := by
  have hle := hat.pos_le
  have hdrop : input.bytes.drop c.pos.toNat = s := hat.drop_eq
  change c.pos.toNat ≤ input.bytes.length at hle
  rw [substr, if_neg (not_lt.mpr hle), hdrop]

theorem simulates_parseLine (hat : (view input).At c s) :
    Simulates (view input) stop c (parseLine input) (RespParser.parseLine s) Nothing := by
  have hlength := hat.length_eq
  change s.length = input.bytes.length - c.pos.toNat at hlength
  have hall : s.take npos.toNat = s := by
    have hsize := input.size_le
    have hmax : maxViewSize ≤ npos.toNat := by decide
    exact List.take_of_length_le (by omega)
  have hrun : parseLine input c = (match findCrlf s with
      | none => throw .incomplete
      | some crlf => do
          advance (UInt64.ofNat crlf + 2)
          pure (s.take crlf) : CursorParser Bytes) c := by
    change ((substr input c.pos npos >>= fun remaining => _ : CursorParser Bytes) c) = _
    rw [substr_of_at hat, hall]
    rfl
  refine .of_step hrun le_rfl rfl ?_
  rw [line_eq_findCrlf]
  cases hf : findCrlf s with
  | none => exact .throw_incomplete hat.pos_le
  | some i =>
      have hi := findCrlf_lt hf
      have hpos : UInt64.ofNat i + 2 = UInt64.ofNat (s.take (i + 2)).length := by
        rw [List.length_take_of_le hi, UInt64.ofNat_add]
        rfl
      rw [← List.take_append_drop (i + 2) s] at hat
      exact simulates_advance hat hpos fun c' hat' => .pure hat' _

theorem exists_payload {n : ℕ} (h : n + 2 ≤ s.length) :
    ∃ (t : Bytes) (cr lf : UInt8) (rest : Bytes), t.length = n ∧ s = t ++ [cr, lf] ++ rest := by
  have hdrop : 2 ≤ (s.drop n).length := by
    rw [List.length_drop]
    omega
  obtain ⟨cr, lf, rest, hrest⟩ : ∃ cr lf rest, s.drop n = cr :: lf :: rest := by
    match hs : s.drop n with
    | [] => rw [hs] at hdrop; cases hdrop
    | [x] => rw [hs] at hdrop; cases hdrop with | step h => cases h
    | cr :: lf :: rest => exact ⟨cr, lf, rest, rfl⟩
  refine ⟨s.take n, cr, lf, rest, List.length_take_of_le (by omega), ?_⟩
  rw [List.append_assoc, List.cons_append, List.cons_append, List.nil_append, ← hrest,
    List.take_append_drop]

theorem simulates_parsePayload {length : Int64} (hnn : ¬ length < 0)
    (hat : (view input).At c s) :
    Simulates (view input) stop c (parsePayload input length)
      (RespParser.parsePayload length.toInt.toNat s) Nothing := by
  have hlength := hat.length_eq
  have hle := hat.pos_le
  change s.length = input.bytes.length - c.pos.toNat at hlength
  change c.pos.toNat ≤ input.bytes.length at hle
  have hsize := input.size_le
  have hview : maxViewSize < 2 ^ 62 := by decide
  have hn := toNat_toUInt64 hnn
  have hnlt : length.toInt.toNat < 2 ^ 63 := by
    have := Int64.toInt_lt length
    omega
  -- The sum that gives `payload_end` does not wrap.
  have hone : (c.pos + length.toUInt64).toNat = c.pos.toNat + length.toInt.toNat := by
    rw [UInt64.toNat_add, hn]
    omega
  have hend : (c.pos + length.toUInt64 + 2).toNat = c.pos.toNat + length.toInt.toNat + 2 := by
    have h2 : (2 : UInt64).toNat = 2 := rfl
    rw [UInt64.toNat_add, hone, h2]
    omega
  generalize hlen : length.toInt.toNat = n at *
  change Simulates (view input) stop c (get >>= fun c : Cursor => if input.bytes.length <
    (c.pos + length.toUInt64 + 2).toNat then throw .incomplete else _) _ _
  by_cases hshort : s.length < n + 2
  · have hrun : RespParser.parsePayload n s = .incomplete := by
      refine Parser.bind_of_incomplete ?_
      rw [Parser.take, if_pos hshort]
    rw [hrun]
    refine .of_step (k := throw .incomplete) ?_ le_rfl rfl (.throw_incomplete hle)
    change (if _ then _ else _ : CursorParser RespValue) c = _
    rw [if_pos (by omega)]
  · obtain ⟨t, cr, lf, rest, ht, rfl⟩ := exists_payload (not_lt.mp hshort)
    have hcr : byteAt input (c.pos + length.toUInt64) = pure cr :=
      byteAt_of_at hat hone (by simp [← ht])
    have hlf : byteAt input (c.pos + length.toUInt64 + 1) = pure lf := by
      refine byteAt_of_at hat (i := n + 1) ?_ (by simp [← ht])
      have h1 : (1 : UInt64).toNat = 1 := rfl
      rw [UInt64.toNat_add, hone, h1]
      omega
    have hsub : substr input c.pos length.toUInt64 = pure t := by
      rw [substr_of_at hat, hn, ← ht, List.append_assoc, List.take_left]
    have hcode : parsePayload input length c = (if cr ≠ 13 ∨ lf ≠ 10 then throw .error else do
        advance (length.toUInt64 + 2)
        pure (.bulkString t) : CursorParser RespValue) c := by
      change (if _ then _ else _ : CursorParser RespValue) c = _
      rw [if_neg (by omega), hsub, hcr, hlf]
      rfl
    by_cases hcrlf : [cr, lf] = crlf
    · obtain ⟨rfl, rfl⟩ : cr = 13 ∧ lf = 10 := by simpa [crlf] using hcrlf
      have hrun := RespParser.parsePayload_append t rest
      rw [ht] at hrun
      have hmove : length.toUInt64 + 2 = UInt64.ofNat (t ++ [13, 10]).length := by
        rw [List.length_append, ht, UInt64.ofNat_add, ← hn, UInt64.ofNat_toNat]
        rfl
      rw [if_neg (by decide)] at hcode
      refine .of_step hcode le_rfl rfl ?_
      rw [← crlf, hrun]
      exact simulates_advance hat hmove fun c' hat' => .pure hat' _
    · have hblock : (t ++ [cr, lf]).length = n + 2 := by simp [ht]
      have hdrop : (t ++ [cr, lf]).drop n ≠ crlf := by rwa [← ht, List.drop_left]
      have hrun := RespParser.parsePayload_append_of_ne hblock hdrop rest
      rw [if_pos (by simpa [crlf, imp_iff_not_or] using hcrlf)] at hcode
      refine .of_step hcode le_rfl rfl ?_
      rw [hrun]
      exact .throw_error (V := view input) hle ParseFault.protocolError

variable {pfx : UInt8}

theorem simulates_typeByte {α : Type} {f : Unit → CursorParser α} {v : Verdict ParseFault UInt8 α}
    {L : Reserve → Prop} (hat : (view input).At c (pfx :: s))
    (h : ∀ c', (view input).At c' s → Simulates (view input) stop c' (f ()) v L) :
    Simulates (view input) stop c (requireByte input >>= fun _ => advance 1 >>= f) v L := by
  have hstep : (requireByte input >>= fun _ => advance 1 >>= f) c = (advance 1 >>= f) c :=
    Simulates.bind_ok (requireByte_of_at hat)
  exact .of_step hstep le_rfl rfl (simulates_advance (u := [pfx]) hat rfl h)

theorem simulates_parseSimple (hat : (view input).At c (pfx :: s)) :
    Simulates (view input) stop c (parseSimple input) (RespParser.parseSimple pfx s) Nothing := by
  have hbyte : byteAt input c.pos = pure pfx := byteAt_of_at (i := 0) hat rfl rfl
  have hcode : parseSimple input c = (requireByte input >>= fun _ => advance 1 >>= fun _ =>
      parseLine input >>= fun line => if pfx = 43 then pure (.simpleString line)
        else if pfx = 45 then pure (.error line)
        else if pfx = 58 then
          match fromChars line with
          | .error _ => throw .error
          | .ok (value, _) => pure (.integer value)
        else throw .error : CursorParser RespValue) c := by
    rw [Simulates.bind_ok (requireByte_of_at hat), parseSimple,
      Simulates.bind_ok (requireByte_of_at hat)]
    change (byteAt input c.pos >>= fun pfx => _ : CursorParser RespValue) c = _
    rw [hbyte]
    rfl
  refine .of_step hcode le_rfl rfl (simulates_typeByte hat fun c' hat' => ?_)
  refine (Simulates.bind (M := fun _ _ => Nothing) (simulates_parseLine hat')
    fun line rest c'' _ hat'' _ => ?_).congr (by simp [Nothing])
  split_ifs
  · exact .pure hat'' _
  · exact .pure hat'' _
  · cases fromChars line with
    | error e => exact .throw_error hat''.pos_le ParseFault.protocolError
    | ok r => exact .pure hat'' _
  · exact .throw_error hat''.pos_le ParseFault.protocolError

theorem simulates_parseBulkString (hat : (view input).At c (pfx :: s)) :
    Simulates (view input) stop c (parseBulkString input) (RespParser.parseBulkString s)
      Nothing := by
  refine simulates_typeByte hat fun c' hat' => ?_
  refine (Simulates.bind (M := fun _ _ => Nothing) (simulates_parseLine hat')
    fun line rest c'' _ hat'' _ => ?_).congr (by simp [Nothing])
  cases fromChars line with
  | error e => exact .throw_error hat''.pos_le ParseFault.protocolError
  | ok r =>
      dsimp only
      split_ifs with hnull hneg
      · exact .pure hat'' _
      · exact .throw_error hat''.pos_le ParseFault.protocolError
      · exact simulates_parsePayload hneg hat''

/-- What is noted behind a header line, if `L` says it of the elements. -/
def notedBehind (p : RespParser RespValue) (L : Bytes → Reserve → Prop) :
    Option Header → Bytes → Reserve → Prop
  | some (.array n), rest, r => r = ⟨n, rest.length⟩ ∨ n ≤ maxElements ∧ NotedBy p L n rest r
  | _, _, _ => False

theorem simulates_parseElements {m : CursorParser RespValue} {p : RespParser RespValue}
    {L : Bytes → Reserve → Prop} {bound : ℕ} {count : Int64} (hnn : ¬ count < 0)
    (hm : ∀ c s, (view input).At c s → s.length < bound →
      Simulates (view input) stop c m (p s) (L s))
    (hat : (view input).At c s) (hs : s.length < bound) :
    Simulates (view input) stop c (parseElements input m count)
      (RespParser.parseElements p count.toInt.toNat s)
      (notedBehind p L (some (.array count.toInt.toNat)) s) := by
  have hlength := hat.length_eq
  change s.length = input.bytes.length - c.pos.toNat at hlength
  have hcount := toNat_toUInt64 hnn
  generalize count.toInt.toNat = n at hcount ⊢
  let c' : Cursor := { c with reserves := c.reserves ++ [⟨n, s.length⟩] }
  have hat' : (view input).At c' s := ⟨hat.pos_le, hat.drop_eq⟩
  have hstep : parseElements input m count c = (if maxElements < n then throw .lengthError else
      collect m n >>= fun es => pure (.array es) : CursorParser RespValue) c' := by
    rw [parseElements, reserve, hcount]
    change ((if maxElements < n then throw .lengthError else pure () : CursorParser Unit) >>=
      fun _ => collect m n >>= fun es => pure (.array es) : CursorParser RespValue)
      { c with reserves := c.reserves ++ [⟨n, input.bytes.length - c.pos.toNat⟩] } = _
    rw [← hlength]
    split_ifs <;> rfl
  have hnote : ∀ r, r ∈ c'.reserves ↔ r ∈ c.reserves ∨ r = ⟨n, s.length⟩ := fun r => by simp [c']
  rw [RespParser.parseElements]
  by_cases hmax : maxElements < n
  · rw [if_pos hmax] at hstep
    rw [if_pos hmax]
    refine (Simulates.of_note hstep le_rfl hnote
      (.throw_error hat'.pos_le ParseFault.lengthError)).congr fun r => ?_
    simp [notedBehind, Nothing, not_le.mpr hmax]
  · rw [if_neg hmax] at hstep
    rw [if_neg hmax]
    have helements := Simulates.bind (M := fun _ _ => Nothing) (Simulates.collect hm hat' hs n)
      fun es rest c'' _ hat'' _ => .pure hat'' (RespValue.array es)
    refine (Simulates.of_note hstep le_rfl hnote helements).congr fun r => ?_
    simp [notedBehind, Nothing, not_lt.mp hmax]

theorem simulates_parseArray {m : CursorParser RespValue} {p : RespParser RespValue}
    {L : Bytes → Reserve → Prop} {bound : ℕ}
    (hm : ∀ c s, (view input).At c s → s.length < bound →
      Simulates (view input) stop c m (p s) (L s))
    (hat : (view input).At c (pfx :: s)) (hs : s.length < bound) :
    Simulates (view input) stop c (parseArray input m) (RespParser.parseArray p s) fun r =>
      ∃ l rest, RespParser.parseLine s = .complete l rest ∧
        notedBehind p L (takenSize .array l) rest r := by
  refine simulates_typeByte hat fun c' hat' => ?_
  refine (Simulates.bind (M := fun l => notedBehind p L (takenSize .array l))
    (simulates_parseLine hat') fun line rest c'' _ hat'' hle => ?_).congr (by simp [Nothing])
  rw [takenSize]
  cases fromChars line with
  | error e => exact .throw_error hat''.pos_le ParseFault.protocolError
  | ok r =>
      dsimp only
      split_ifs with hnull hneg
      · exact .pure hat'' _
      · exact .throw_error hat''.pos_le ParseFault.protocolError
      · exact simulates_parseElements hneg hm hat'' ((hat'.length_le hat'' hle).trans_lt hs)

/-- The calls that `parse_value` makes, down to a depth. -/
def reached : ℕ → Bytes → Reserve → Prop
  | 0, _, _ => False
  | depth + 1, s, r => ∃ l rest, s = 42 :: (l ++ crlf ++ rest) ∧ ¬ crlf <:+: l ∧
      notedBehind (RespParser.parseValue depth) (reached depth) (takenSize .array l) rest r

theorem reached_array_iff {depth : ℕ} {r : Reserve} :
    reached (depth + 1) (42 :: s) r ↔ ∃ l rest, RespParser.parseLine s = .complete l rest ∧
      notedBehind (RespParser.parseValue depth) (reached depth) (takenSize .array l) rest r := by
  constructor
  · rintro ⟨l, rest, hs, hl, h⟩
    obtain rfl := (List.cons.inj hs).2
    exact ⟨l, rest, RespParser.parseLine_append hl rest, h⟩
  · rintro ⟨l, rest, hs, h⟩
    obtain ⟨rfl, hl⟩ := Parser.line_eq_complete hs
    exact ⟨l, rest, by simp [crlf], hl, h⟩

theorem not_reached_of_ne {depth : ℕ} {r : Reserve} (hpfx : pfx ≠ 42) :
    ¬ reached depth (pfx :: s) r := by
  cases depth with
  | zero => exact id
  | succ depth =>
      rintro ⟨l, rest, hs, -⟩
      exact hpfx (List.cons.inj hs).1

/-- The code stops as the parser does, and its cursor never leaves the view. -/
theorem simulates_parseValue {depth : ℕ} (hat : (view input).At c s) (hs : s.length < depth) :
    Simulates (view input) stop c (parseValue input depth) (RespParser.parseValue depth s)
      (reached depth s) := by
  induction depth generalizing c s with
  | zero => omega
  | succ depth ih =>
      cases s with
      | nil =>
          have hrun : parseValue input (depth + 1) c = throw (m := CursorParser) .incomplete c :=
            Simulates.bind_error (requireByte_of_at_nil hat)
          refine (Simulates.of_step hrun le_rfl rfl (.throw_incomplete hat.pos_le)).congr ?_
          simp [Nothing, reached]
      | cons pfx s =>
          have hbyte : byteAt input c.pos = pure pfx := byteAt_of_at (i := 0) hat rfl rfl
          have hrun : parseValue input (depth + 1) c = (
              if pfx = 43 ∨ pfx = 45 ∨ pfx = 58 then parseSimple input
              else if pfx = 36 then parseBulkString input
              else if pfx = 42 then parseArray input (parseValue input depth)
              else throw .error : CursorParser RespValue) c := by
            rw [parseValue, Simulates.bind_ok (requireByte_of_at hat)]
            change (byteAt input c.pos >>= fun pfx => _ : CursorParser RespValue) c = _
            rw [hbyte]
            rfl
          refine .of_step hrun le_rfl rfl ?_
          change Simulates _ _ _ _ (RespParser.parseBody (RespParser.parseValue depth) pfx s) _
          rw [RespParser.parseBody]
          have hquiet : pfx ≠ 42 → ∀ r, Nothing r ↔ reached (depth + 1) (pfx :: s) r :=
            fun hne r => iff_of_false id (not_reached_of_ne hne)
          split_ifs with hsimple hbulk harray
          · exact (simulates_parseSimple hat).congr (hquiet (by rintro rfl; simp at hsimple))
          · exact (simulates_parseBulkString hat).congr (hquiet (by rw [hbulk]; decide))
          · subst harray
            have hlt : s.length < depth := Nat.lt_of_succ_lt_succ hs
            refine (simulates_parseArray (fun _ _ => ih) hat hlt).congr fun r => ?_
            exact reached_array_iff.symm
          · exact (Simulates.throw_error hat.pos_le ParseFault.protocolError).congr (hquiet harray)

/-- How the code ends when the parser gives a verdict. -/
def outcome : Verdict ParseFault UInt8 RespValue → Except ParseStop RespValue
  | .complete v _ => .ok v
  | .incomplete => .error .incomplete
  | .error .protocolError => .error .error
  | .error .lengthError => .error .lengthError

theorem outcome_of_follows {v : Verdict ParseFault UInt8 RespValue}
    {result : Except ParseStop RespValue × Cursor} (h : Follows (view input) stop c v result) :
    result.1 = outcome v ∧ result.2.pos.toNat ≤ input.bytes.length := by
  cases h with
  | complete hat _ => exact ⟨rfl, hat.pos_le⟩
  | incomplete hle => exact ⟨rfl, hle⟩
  | @error e _ hle => cases e <;> exact ⟨rfl, hle⟩

theorem outcome_ne (v : Verdict ParseFault UInt8 RespValue) :
    outcome v ≠ .error .outOfRange ∧ outcome v ≠ .error .outOfDepth := by
  rcases v with _ | _ | (_ | _) <;> simp [outcome]

theorem simulates_parse (input : StringView) :
    Simulates (view input) stop ⟨0, []⟩ (parseValue input (input.bytes.length + 1))
      (RespParser.parse input.bytes) (reached (input.bytes.length + 1) input.bytes) :=
  simulates_parseValue ⟨Nat.zero_le _, rfl⟩ (Nat.lt_succ_self _)

theorem parse_spec (input : StringView) :
    (parse input).1 = outcome (RespParser.parse input.bytes) ∧
      (parse input).2.pos.toNat ≤ input.bytes.length ∧
      ∀ v rest, RespParser.parse input.bytes = .complete v rest →
        (parse input).2.pos.toNat = RespParser.outConsumed input.bytes := by
  have hfollows := (simulates_parse input).follows
  obtain ⟨houtcome, hle⟩ := outcome_of_follows hfollows
  refine ⟨houtcome, hle, fun v rest hparse => ?_⟩
  rw [hparse] at hfollows
  unfold parse
  generalize parseValue input (input.bytes.length + 1) ⟨0, []⟩ = result at hfollows
  cases hfollows with
  | complete hat _ =>
      have hlength := hat.length_eq
      have hpos := hat.pos_le
      rw [RespParser.outConsumed, hparse]
      dsimp only
      rw [hlength]
      exact (Nat.sub_sub_self hpos).symm

theorem mem_reserves_parse {r : Reserve} :
    r ∈ (parse input).2.reserves ↔ reached (input.bytes.length + 1) input.bytes r :=
  ((simulates_parse input).notes r).trans (or_iff_right List.not_mem_nil)

end RespCursor

end Keva
