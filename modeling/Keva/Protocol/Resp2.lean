import Keva.Protocol.RespParser

/-!
# The grammar of RESP2

A frame starts with a header line, which holds a whole value or announces a payload or elements.
The grammar is stated once for any reading of header lines. `Resp2Header` reads them as RESP2 does;
`TakenHeader` reads them as the parser does, with `from_chars`. The parser completes exactly the
frames of the second grammar, and it fails exactly on the inputs that this grammar refuses.
-/

namespace Keva

open Framing Framing.Parser RespParser

/-- What a header line says: a value, or the size of what follows. -/
inductive Header
  | value (v : RespValue)
  | bulkString (length : ℕ)
  | array (count : ℕ)

/-- The text is only decimal digits, for a size that a container can have. -/
structure SizeDigits (l : Bytes) (n : ℕ) : Prop where
  ne_nil : l ≠ []
  digits : ∀ b ∈ l, Decimal.isDigit b = true
  value_eq : Decimal.valueOf l = n
  le_maxSize : n ≤ maxSize

/-- The header lines of RESP2, type byte included. -/
inductive Resp2Header : Bytes → Header → Prop
  | simpleString (l : Bytes) : Resp2Header (43 :: l) (.value (.simpleString l))
  | error (l : Bytes) : Resp2Header (45 :: l) (.value (.error l))
  | integer {l : Bytes} {n : Int64} (h : Decimal.Numeral l n.toInt) :
      Resp2Header (58 :: l) (.value (.integer n))
  | bulkString {l : Bytes} {n : ℕ} (h : SizeDigits l n) : Resp2Header (36 :: l) (.bulkString n)
  | nullBulkString {l : Bytes} (h : l = ascii "-1") : Resp2Header (36 :: l) (.value .nil)
  | array {l : Bytes} {n : ℕ} (h : SizeDigits l n) : Resp2Header (42 :: l) (.array n)
  | nullArray {l : Bytes} (h : l = ascii "-1") : Resp2Header (42 :: l) (.value .nil)

/-- What the parser takes the line of a string or an array for. It looks at no byte behind the
number that `from_chars` reads. -/
def takenSize (header : ℕ → Header) (l : Bytes) : Option Header :=
  match fromChars l with
  | .error _ => none
  | .ok (n, _) =>
      if n = -1 then some (.value .nil) else if n < 0 then none else some (header n.toInt.toNat)

def takenInteger (l : Bytes) : Option Header :=
  match fromChars l with
  | .error _ => none
  | .ok (n, _) => some (.value (.integer n))

/-- What the parser takes a header line for. -/
def takenHeader (pfx : UInt8) (l : Bytes) : Option Header :=
  if pfx = 43 then some (.value (.simpleString l))
  else if pfx = 45 then some (.value (.error l))
  else if pfx = 58 then takenInteger l
  else if pfx = 36 then takenSize .bulkString l
  else if pfx = 42 then takenSize .array l
  else none

inductive TakenHeader : Bytes → Header → Prop
  | intro {pfx : UInt8} {l : Bytes} {x : Header} (h : takenHeader pfx l = some x) :
      TakenHeader (pfx :: l) x

def typeBytes : Bytes := [43, 45, 58, 36, 42]

variable (H : Bytes → Header → Prop)

/-- The bytes are a frame that denotes the value. The elements of an array are given as pairs of a
frame and its value. -/
inductive Frame : Bytes → RespValue → Prop
  | line {line : Bytes} {v : RespValue} (hline : ¬ crlf <:+: line) (h : H line (.value v)) :
      Frame (line ++ crlf) v
  | bulkString {line s : Bytes} (hline : ¬ crlf <:+: line) (h : H line (.bulkString s.length)) :
      Frame (line ++ crlf ++ (s ++ crlf)) (.bulkString s)
  | array {line : Bytes} {ps : List (Bytes × RespValue)} (hline : ¬ crlf <:+: line)
      (h : H line (.array ps.length)) (hmax : ps.length ≤ maxElements)
      (hps : ∀ q ∈ ps, Frame q.1 q.2) :
      Frame (line ++ crlf ++ ps.flatMap Prod.fst) (.array (ps.map Prod.snd))

/-- Where a frame should start, at the front or behind the first elements of an array, there is a
complete line that is no header. -/
inductive BadHeader : Bytes → Prop
  | here {line rest : Bytes} (hline : ¬ crlf <:+: line) (h : ∀ x, ¬ H line x) :
      BadHeader (line ++ crlf ++ rest)
  | element {line rest : Bytes} {ps : List (Bytes × RespValue)} {n : ℕ}
      (hline : ¬ crlf <:+: line) (h : H line (.array n)) (hlt : ps.length < n)
      (hps : ∀ q ∈ ps, Frame H q.1 q.2) (hrest : BadHeader rest) :
      BadHeader (line ++ crlf ++ (ps.flatMap Prod.fst ++ rest))

/-- At the front or behind the first elements of an array there is a byte that is no type byte, a
complete line that is no header, or a payload without a line break behind it. -/
inductive RefusedInput : Bytes → Prop
  | typeByte {pfx : UInt8} {rest : Bytes} (hpfx : pfx ∉ typeBytes) : RefusedInput (pfx :: rest)
  | header {line rest : Bytes} (hline : ¬ crlf <:+: line) (h : ∀ x, ¬ H line x) :
      RefusedInput (line ++ crlf ++ rest)
  | payload {line block rest : Bytes} {n : ℕ} (hline : ¬ crlf <:+: line)
      (h : H line (.bulkString n)) (hlength : block.length = n + 2)
      (hblock : block.drop n ≠ crlf) : RefusedInput (line ++ crlf ++ (block ++ rest))
  | element {line rest : Bytes} {ps : List (Bytes × RespValue)} {n : ℕ}
      (hline : ¬ crlf <:+: line) (h : H line (.array n)) (hmax : n ≤ maxElements)
      (hlt : ps.length < n) (hps : ∀ q ∈ ps, Frame H q.1 q.2) (hrest : RefusedInput rest) :
      RefusedInput (line ++ crlf ++ (ps.flatMap Prod.fst ++ rest))

variable {H} {pfx : UInt8} {line l s u rest : Bytes} {x : Header} {v : RespValue}

theorem Frame.mono {H' : Bytes → Header → Prop} (hsub : ∀ line x, H line x → H' line x)
    (h : Frame H u v) : Frame H' u v := by
  induction h with
  | line hline h => exact .line hline (hsub _ _ h)
  | bulkString hline h => exact .bulkString hline (hsub _ _ h)
  | array hline h hmax _ ih => exact .array hline (hsub _ _ h) hmax ih

theorem exists_first_not {α : Type} {P : α → Prop} {as : List α} (h : ¬ ∀ a ∈ as, P a) :
    ∃ as₁ a as₂, as = as₁ ++ a :: as₂ ∧ (∀ b ∈ as₁, P b) ∧ ¬ P a := by
  induction as with
  | nil => exact absurd (by simp) h
  | cons a as ih =>
      by_cases ha : P a
      · obtain ⟨as₁, b, as₂, rfl, has, hb⟩ := ih fun has => h (List.forall_mem_cons.mpr ⟨ha, has⟩)
        exact ⟨a :: as₁, b, as₂, rfl, List.forall_mem_cons.mpr ⟨ha, has⟩, hb⟩
      · exact ⟨[], a, as, rfl, by simp, ha⟩

theorem Frame.or_badHeader {H' : Bytes → Header → Prop} (hsub : ∀ line x, H line x → H' line x)
    (hfun : ∀ line x y, H' line x → H' line y → x = y) (h : Frame H' u v) :
    Frame H u v ∨ ∀ rest, BadHeader H (u ++ rest) := by
  have hdecide : ∀ {line x}, H' line x → H line x ∨ ∀ y, ¬ H line y := by
    intro line x hx
    by_cases hy : ∃ y, H line y
    · obtain ⟨y, hy⟩ := hy
      obtain rfl := hfun line x y hx (hsub line y hy)
      exact .inl hy
    · exact .inr (not_exists.mp hy)
  induction h with
  | line hline h =>
      rcases hdecide h with h | hbad
      · exact .inl (.line hline h)
      · exact .inr fun rest => .here hline hbad
  | bulkString hline h =>
      rcases hdecide h with h | hbad
      · exact .inl (.bulkString hline h)
      · refine .inr fun rest => ?_
        rw [List.append_assoc]
        exact .here hline hbad
  | @array line ps hline h hmax hps ih =>
      rcases hdecide h with h | hbad
      · by_cases hall : ∀ q ∈ ps, Frame H q.1 q.2
        · exact .inl (.array hline h hmax hall)
        · -- The elements before the first one that is no frame of the smaller grammar are passed.
          obtain ⟨ps₁, q, ps₂, rfl, hps₁, hq⟩ := exists_first_not hall
          have hbad := (ih q (by simp)).resolve_left hq
          refine .inr fun rest => ?_
          have hsplit : line ++ crlf ++ (ps₁ ++ q :: ps₂).flatMap Prod.fst ++ rest =
              line ++ crlf ++ (ps₁.flatMap Prod.fst ++
                (q.1 ++ (ps₂.flatMap Prod.fst ++ rest))) := by
            simp
          rw [hsplit]
          exact .element hline h (by rw [List.length_append, List.length_cons]; omega) hps₁ (hbad _)
      · refine .inr fun rest => ?_
        rw [List.append_assoc]
        exact .here hline hbad

theorem TakenHeader.unique {y : Header} (hx : TakenHeader line x) (hy : TakenHeader line y) :
    x = y := by
  cases hx with
  | intro hx =>
      cases hy with
      | intro hy => exact Option.some.inj (hx.symm.trans hy)

theorem SizeDigits.fromChars_eq {n : ℕ} (h : SizeDigits l n) :
    fromChars l = .ok (Int64.ofNat n, []) := by
  rw [fromChars_eq_ok_nil_iff, (fromChars_toChars_ofNat h.le_maxSize).2, ← h.value_eq]
  exact .nonneg h.ne_nil h.digits

theorem SizeDigits.takenSize_eq {n : ℕ} (h : SizeDigits l n) (header : ℕ → Header) :
    takenSize header l = some (header n) := by
  obtain ⟨hneg, hnn, hn⟩ := count_checks h.le_maxSize
  rw [takenSize, h.fromChars_eq]
  dsimp only
  rw [if_neg hneg, if_neg hnn, hn]

theorem Resp2Header.taken (h : Resp2Header line x) : TakenHeader line x := by
  cases h with
  | simpleString l => exact .intro rfl
  | error l => exact .intro rfl
  | @integer l n h =>
      refine .intro (show takenInteger l = _ from ?_)
      rw [takenInteger, fromChars_eq_ok_nil_iff.mpr h]
  | @bulkString l n h => exact .intro (show takenSize _ l = _ from h.takenSize_eq _)
  | nullBulkString h =>
      subst h
      exact .intro rfl
  | @array l n h => exact .intro (show takenSize _ l = _ from h.takenSize_eq _)
  | nullArray h =>
      subst h
      exact .intro rfl

namespace RespParser

/-- What is left of a frame behind its header line. -/
def parseContents (parseValue : RespParser RespValue) : Header → RespParser RespValue
  | .value v => pure v
  | .bulkString length => parsePayload length
  | .array count => parseElements parseValue count

def parseTaken (parseValue : RespParser RespValue) : Option Header → RespParser RespValue
  | none => fail .protocolError
  | some x => parseContents parseValue x

theorem parseBody_eq (p : RespParser RespValue) (hpfx : pfx ∈ typeBytes) :
    parseBody p pfx = parseLine >>= fun l => parseTaken p (takenHeader pfx l) := by
  have hsize : ∀ (header : ℕ → Header) (l : Bytes),
      parseTaken p (takenSize header l) =
        match fromChars l with
        | .error _ => fail .protocolError
        | .ok (n, _) =>
            if n = -1 then pure .nil
            else if n < 0 then fail .protocolError
            else parseContents p (header n.toInt.toNat) := by
    intro header l
    rw [takenSize]
    cases fromChars l with
    | error e => rfl
    | ok r =>
        dsimp only
        split_ifs <;> rfl
  have hinteger : ∀ l : Bytes, parseTaken p (takenInteger l) =
      match fromChars l with
      | .error _ => fail .protocolError
      | .ok (n, _) => pure (.integer n) := by
    intro l
    rw [takenInteger]
    cases fromChars l with
    | error e => rfl
    | ok r => rfl
  simp only [typeBytes, List.mem_cons, List.not_mem_nil, or_false] at hpfx
  rcases hpfx with rfl | rfl | rfl | rfl | rfl
  · rfl
  · rfl
  · change parseLine >>= _ = parseLine >>= fun l => parseTaken p (takenInteger l)
    simp only [hinteger]
    rfl
  · change parseBulkString = parseLine >>= fun l => parseTaken p (takenSize .bulkString l)
    simp only [hsize]
    rfl
  · change parseArray p = parseLine >>= fun l => parseTaken p (takenSize .array l)
    simp only [hsize]
    rfl

theorem parseBody_of_not_mem (p : RespParser RespValue) (hpfx : pfx ∉ typeBytes) :
    parseBody p pfx = fail .protocolError := by
  simp only [typeBytes, List.mem_cons, List.not_mem_nil, or_false, not_or] at hpfx
  obtain ⟨h43, h45, h58, h36, h42⟩ := hpfx
  rw [parseBody, if_neg (by simp [h43, h45, h58]), if_neg h36, if_neg h42]

theorem mem_typeBytes_of_taken (h : takenHeader pfx l = some x) : pfx ∈ typeBytes := by
  by_contra hpfx
  simp only [typeBytes, List.mem_cons, List.not_mem_nil, or_false, not_or] at hpfx
  obtain ⟨h43, h45, h58, h36, h42⟩ := hpfx
  rw [takenHeader, if_neg h43, if_neg h45, if_neg h58, if_neg h36, if_neg h42] at h
  cases h

theorem crlf_infix_typeByte_cons (hpfx : pfx ∈ typeBytes) : crlf <:+: pfx :: l ↔ crlf <:+: l := by
  have hcr : ∀ b ∈ typeBytes, b ≠ 13 := by simp [typeBytes]
  exact crlf_infix_append_iff (u := [pfx]) (by simpa using hcr pfx hpfx)

theorem parseValue_line {depth : ℕ} (hpfx : pfx ∈ typeBytes) (hline : ¬ crlf <:+: pfx :: l)
    (rest : Bytes) :
    parseValue (depth + 1) (pfx :: l ++ crlf ++ rest) =
      parseTaken (parseValue depth) (takenHeader pfx l) rest := by
  have hl : ¬ crlf <:+: l := fun h => hline ((crlf_infix_typeByte_cons hpfx).mpr h)
  change parseBody (parseValue depth) pfx (l ++ crlf ++ rest) = _
  rw [parseBody_eq _ hpfx, bind_of_complete (parseLine_append hl rest)]

theorem parseValue_of_not_mem {depth : ℕ} (hpfx : pfx ∉ typeBytes) (s : Bytes) :
    parseValue (depth + 1) (pfx :: s) = .error .protocolError := by
  change parseBody (parseValue depth) pfx s = _
  rw [parseBody_of_not_mem _ hpfx]
  rfl

/-- A verdict other than `Incomplete` refuses what the input begins with, or it is the verdict on
what follows a header line. -/
theorem parseValue_cases {depth : ℕ} (h : parseValue (depth + 1) s ≠ .incomplete) :
    (parseValue (depth + 1) s = .error .protocolError ∧ RefusedInput TakenHeader s) ∨
      ∃ line x rest, s = line ++ crlf ++ rest ∧ ¬ crlf <:+: line ∧ TakenHeader line x ∧
        parseValue (depth + 1) s = parseContents (parseValue depth) x rest := by
  cases s with
  | nil => exact absurd rfl h
  | cons pfx s =>
      by_cases hpfx : pfx ∈ typeBytes
      · change parseBody (parseValue depth) pfx s ≠ .incomplete at h
        rw [parseBody_eq _ hpfx] at h
        cases hs : parseLine s with
        | complete l rest =>
            obtain ⟨rfl, hl⟩ := line_eq_complete hs
            have hline : ¬ crlf <:+: pfx :: l := fun hin =>
              hl ((crlf_infix_typeByte_cons hpfx).mp hin)
            have hsplit : pfx :: (l ++ 13 :: 10 :: rest) = pfx :: l ++ crlf ++ rest := by
              simp [crlf]
            rw [hsplit, parseValue_line hpfx hline]
            cases hx : takenHeader pfx l with
            | none =>
                refine .inl ⟨rfl, .header hline fun x htaken => ?_⟩
                cases htaken with
                | intro hsome => rw [hx] at hsome; cases hsome
            | some x => exact .inr ⟨pfx :: l, x, rest, rfl, hline, .intro hx, rfl⟩
        | incomplete => exact absurd (bind_of_incomplete hs) h
        | error e => exact absurd hs (line_ne_error 13 10 s e)
      · exact .inl ⟨parseValue_of_not_mem hpfx s, .typeByte hpfx⟩

theorem parsePayload_append (t rest : Bytes) :
    parsePayload t.length (t ++ crlf ++ rest) = .complete (.bulkString t) rest := by
  have htake : take (ε := ParseFault) (t.length + 2) (t ++ crlf ++ rest) =
      .complete (t ++ crlf) rest := take_append (by simp [crlf]) rest
  rw [parsePayload, bind_of_complete htake, List.drop_left, if_pos rfl, List.take_left]
  rfl

theorem parsePayload_append_of_ne {n : ℕ} {block : Bytes} (hlength : block.length = n + 2)
    (hblock : block.drop n ≠ crlf) (rest : Bytes) :
    parsePayload n (block ++ rest) = .error .protocolError := by
  rw [parsePayload, bind_of_complete (take_append hlength rest), if_neg hblock]
  rfl

theorem parsePayload_eq_complete {n : ℕ} (h : parsePayload n s = .complete v rest) :
    ∃ t, t.length = n ∧ s = t ++ crlf ++ rest ∧ v = .bulkString t := by
  obtain ⟨block, mid, hblock, hread⟩ := bind_eq_complete h
  obtain ⟨hlength, rfl⟩ := take_eq_complete hblock
  split_ifs at hread with hcrlf
  · cases hread
    refine ⟨block.take n, List.length_take_of_le (by omega), ?_, rfl⟩
    rw [← hcrlf, List.take_append_drop]
  · cases hread

theorem parsePayload_eq_error {n : ℕ} {e : ParseFault} (h : parsePayload n s = .error e) :
    e = .protocolError ∧
      ∃ block rest, block.length = n + 2 ∧ s = block ++ rest ∧ block.drop n ≠ crlf := by
  rcases bind_eq_error h with htake | ⟨block, mid, hblock, hread⟩
  · exact absurd htake (take_ne_error _ _ _)
  · obtain ⟨hlength, rfl⟩ := take_eq_complete hblock
    split_ifs at hread with hcrlf
    · cases hread
    · cases hread
      exact ⟨rfl, block, mid, hlength, rfl, hcrlf⟩

theorem parseElements_eq_complete {p : RespParser RespValue} {R : Bytes → RespValue → Prop}
    (hR : ∀ s v rest, p s = .complete v rest → ∃ u, s = u ++ rest ∧ R u v) {n : ℕ}
    (h : parseElements p n s = .complete v rest) :
    ∃ ps : List (Bytes × RespValue), ps.length = n ∧ n ≤ maxElements ∧
      v = .array (ps.map Prod.snd) ∧ s = ps.flatMap Prod.fst ++ rest ∧ ∀ q ∈ ps, R q.1 q.2 := by
  rw [parseElements] at h
  split_ifs at h with hmax
  · cases h
  · obtain ⟨es, mid, hes, hread⟩ := bind_eq_complete h
    cases hread
    obtain ⟨ps, hlength, rfl, rfl, hps⟩ := replicate_eq_complete hR hes
    exact ⟨ps, hlength, not_lt.mp hmax, rfl, rfl, hps⟩

theorem parseElements_eq_error {p : RespParser RespValue} {R : Bytes → RespValue → Prop}
    (hR : ∀ s v rest, p s = .complete v rest → ∃ u, s = u ++ rest ∧ R u v) {n : ℕ}
    {e : ParseFault} (h : parseElements p n s = .error e) :
    (maxElements < n ∧ e = .lengthError) ∨
      ∃ (ps : List (Bytes × RespValue)) (t : Bytes), ps.length < n ∧ n ≤ maxElements ∧
        s = ps.flatMap Prod.fst ++ t ∧ (∀ q ∈ ps, R q.1 q.2) ∧ p t = .error e := by
  rw [parseElements] at h
  split_ifs at h with hmax
  · cases h
    exact .inl ⟨hmax, rfl⟩
  · rcases bind_eq_error h with hes | ⟨es, mid, -, hread⟩
    · obtain ⟨ps, t, hlt, rfl, hps, ht⟩ := replicate_eq_error hR hes
      exact .inr ⟨ps, t, hlt, not_lt.mp hmax, rfl, hps, ht⟩
    · cases hread

theorem frame_of_parseValue {depth : ℕ} (h : parseValue depth s = .complete v rest) :
    ∃ u, s = u ++ rest ∧ Frame TakenHeader u v := by
  induction depth generalizing s v rest with
  | zero => cases h
  | succ depth ih =>
      rcases parseValue_cases (by rw [h]; exact fun hinc => by cases hinc) with
        ⟨herror, -⟩ | ⟨line, x, mid, rfl, hline, htaken, hread⟩
      · rw [herror] at h
        cases h
      · rw [hread] at h
        cases x with
        | value v' =>
            cases h
            exact ⟨line ++ crlf, rfl, .line hline htaken⟩
        | bulkString n =>
            obtain ⟨t, rfl, rfl, rfl⟩ := parsePayload_eq_complete h
            exact ⟨line ++ crlf ++ (t ++ crlf), (List.append_assoc ..).symm,
              .bulkString hline htaken⟩
        | array n =>
            obtain ⟨ps, rfl, hmax, rfl, rfl, hps⟩ :=
              parseElements_eq_complete (fun _ _ _ => ih) h
            exact ⟨line ++ crlf ++ ps.flatMap Prod.fst, (List.append_assoc ..).symm,
              .array hline htaken hmax hps⟩

theorem refusedInput_of_parseValue {depth : ℕ} (h : parseValue depth s = .error .protocolError) :
    RefusedInput TakenHeader s := by
  induction depth generalizing s with
  | zero => cases h
  | succ depth ih =>
      rcases parseValue_cases (by rw [h]; exact fun hinc => by cases hinc) with
        ⟨-, hrefused⟩ | ⟨line, x, mid, rfl, hline, htaken, hread⟩
      · exact hrefused
      · rw [hread] at h
        cases x with
        | value v' => cases h
        | bulkString n =>
            obtain ⟨-, block, rest, hlength, rfl, hblock⟩ := parsePayload_eq_error h
            exact .payload hline htaken hlength hblock
        | array n =>
            rcases parseElements_eq_error (fun _ _ _ => frame_of_parseValue) h with
              ⟨-, hfault⟩ | ⟨ps, t, hlt, hmax, rfl, hps, ht⟩
            · cases hfault
            · exact .element hline htaken hmax hlt hps (ih ht)

theorem parseValue_of_taken {depth : ℕ} (hline : ¬ crlf <:+: line) (h : TakenHeader line x)
    (rest : Bytes) :
    parseValue (depth + 1) (line ++ crlf ++ rest) = parseContents (parseValue depth) x rest := by
  cases h with
  | intro hx => rw [parseValue_line (mem_typeBytes_of_taken hx) hline, hx]; rfl

theorem exists_depth {depth : ℕ} {t : Bytes} (hd : (line ++ crlf ++ t).length < depth) :
    ∃ d, depth = d + 1 ∧ t.length < d := by
  have hcrlf : crlf.length = 2 := rfl
  rw [List.length_append, List.length_append] at hd
  exact ⟨depth - 1, by omega, by omega⟩

theorem length_le_of_mem {ps : List (Bytes × RespValue)} {q : Bytes × RespValue} (hq : q ∈ ps) :
    q.1.length ≤ (ps.flatMap Prod.fst).length :=
  (List.sublist_flatten_of_mem (List.mem_map_of_mem hq)).length_le

theorem parseValue_of_frame {depth : ℕ} (h : Frame TakenHeader u v) (hd : u.length < depth)
    (rest : Bytes) : parseValue depth (u ++ rest) = .complete v rest := by
  induction h generalizing depth rest with
  | line hline h =>
      obtain ⟨d, rfl, -⟩ := exists_depth (t := []) (by simpa using hd)
      exact parseValue_of_taken hline h rest
  | bulkString hline h =>
      obtain ⟨d, rfl, -⟩ := exists_depth hd
      rw [List.append_assoc, parseValue_of_taken hline h]
      exact parsePayload_append _ rest
  | @array line ps hline h hmax hps ih =>
      obtain ⟨d, rfl, hroom⟩ := exists_depth hd
      have hes := replicate_append
        (fun q hq rest => ih q hq ((length_le_of_mem hq).trans_lt hroom) rest) rest
      rw [List.append_assoc, parseValue_of_taken hline h, parseContents, parseElements,
        if_neg (not_lt.mpr hmax), bind_of_complete hes]
      rfl

theorem parseValue_of_mem {depth : ℕ} {ps : List (Bytes × RespValue)}
    (hps : ∀ q ∈ ps, Frame TakenHeader q.1 q.2) (hd : (ps.flatMap Prod.fst).length < depth) :
    ∀ q ∈ ps, ∀ rest, parseValue depth (q.1 ++ rest) = .complete q.2 rest :=
  fun q hq rest => parseValue_of_frame (hps q hq) ((length_le_of_mem hq).trans_lt hd) rest

theorem parseValue_of_refusedInput {depth : ℕ} (h : RefusedInput TakenHeader s)
    (hd : s.length < depth) : parseValue depth s = .error .protocolError := by
  induction h generalizing depth with
  | typeByte hpfx =>
      obtain ⟨d, rfl⟩ := Nat.exists_eq_succ_of_ne_zero (Nat.ne_zero_of_lt hd)
      exact parseValue_of_not_mem hpfx _
  | @header line rest hline h =>
      obtain ⟨d, rfl, -⟩ := exists_depth hd
      cases line with
      | nil => exact parseValue_of_not_mem (by decide) _
      | cons pfx l =>
          by_cases hpfx : pfx ∈ typeBytes
          · rw [parseValue_line hpfx hline]
            cases hx : takenHeader pfx l with
            | none => rfl
            | some x => exact absurd (.intro hx) (h x)
          · exact parseValue_of_not_mem hpfx _
  | payload hline h hlength hblock =>
      obtain ⟨d, rfl, -⟩ := exists_depth hd
      rw [parseValue_of_taken hline h]
      exact parsePayload_append_of_ne hlength hblock _
  | @element line rest ps n hline h hmax hlt hps hrest ih =>
      obtain ⟨d, rfl, hroom⟩ := exists_depth hd
      rw [List.length_append] at hroom
      have helements := parseValue_of_mem hps (show (ps.flatMap Prod.fst).length < d by omega)
      have herror := ih (show rest.length < d by omega)
      have hes := replicate_append_of_error helements hlt herror
      rw [parseValue_of_taken hline h, parseContents, parseElements, if_neg (not_lt.mpr hmax)]
      exact bind_of_error hes

theorem parse_eq_complete_iff :
    parse s = .complete v rest ↔ ∃ u, s = u ++ rest ∧ Frame TakenHeader u v := by
  constructor
  · exact frame_of_parseValue
  · rintro ⟨u, rfl, hu⟩
    exact parseValue_of_frame hu (by rw [List.length_append]; omega) rest

theorem parse_eq_error_iff : parse s = .error .protocolError ↔ RefusedInput TakenHeader s :=
  ⟨refusedInput_of_parseValue, fun h => parseValue_of_refusedInput h (Nat.lt_succ_self _)⟩

theorem outConsumed_of_complete (h : parse (u ++ rest) = .complete v rest) :
    outConsumed (u ++ rest) = u.length := by
  rw [outConsumed, h]
  dsimp only
  rw [List.length_append, Nat.add_sub_cancel]

end RespParser

theorem sizeDigits_toChars {n : ℕ} (hn : n ≤ maxSize) :
    SizeDigits (toChars (Int64.ofNat n)) n := by
  have hchars : toChars (Int64.ofNat n) = Decimal.renderNat n := by
    rw [toChars, (fromChars_toChars_ofNat hn).2, Decimal.renderInt, if_neg (by omega),
      Int.natAbs_natCast]
  rw [hchars]
  exact ⟨Decimal.renderNat_ne_nil n, Decimal.renderNat_isDigit n, Decimal.valueOf_renderNat n, hn⟩

theorem frame_wire (h : v.Encodable) : Frame Resp2Header v.wire v := by
  have hline : ∀ pfx ∈ typeBytes, ∀ l, ¬ crlf <:+: l → ¬ crlf <:+: pfx :: l :=
    fun _ hpfx _ hl hin => hl ((crlf_infix_typeByte_cons hpfx).mp hin)
  induction h with
  | @simpleString s h => exact .line (hline 43 (by simp [typeBytes]) s h) (.simpleString s)
  | @error s h => exact .line (hline 45 (by simp [typeBytes]) s h) (.error s)
  | integer n =>
      have hnumeral := fromChars_eq_ok_nil_iff.mp (fromChars_toChars_self n)
      exact .line (hline 58 (by simp [typeBytes]) _ (crlf_not_infix_toChars n)) (.integer hnumeral)
  | @bulkString s h =>
      have hframe := Frame.bulkString (hline 36 (by simp [typeBytes]) _ (crlf_not_infix_toChars _))
        (Resp2Header.bulkString (sizeDigits_toChars h))
      rw [← List.append_assoc] at hframe
      exact hframe
  | nil =>
      have hnull : Resp2Header (36 :: ascii "-1") (.value .nil) := .nullBulkString rfl
      exact .line (by decide) hnull
  | @array es hlen h ih =>
      have hmax : es.length ≤ maxSize := hlen.trans (Nat.div_le_self _ _)
      have hlength : (es.map fun e => (e.wire, e)).length = es.length := List.length_map _
      have hheader : Resp2Header (42 :: toChars (Int64.ofNat es.length))
          (.array (es.map fun e => (e.wire, e)).length) := by
        rw [hlength]
        exact .array (sizeDigits_toChars hmax)
      have helements : ∀ q ∈ es.map fun e => (e.wire, e), Frame Resp2Header q.1 q.2 := by
        intro q hq
        obtain ⟨e, he, rfl⟩ := List.mem_map.mp hq
        exact ih e he
      have hframe := Frame.array (hline 42 (by simp [typeBytes]) _ (crlf_not_infix_toChars _))
        hheader (hlength.trans_le hlen) helements
      have hvalues : (es.map fun e => (e.wire, e)).map Prod.snd = es := by
        rw [List.map_map]
        exact List.map_id es
      have htexts : (es.map fun e => (e.wire, e)).flatMap Prod.fst = RespValue.wireAll es := by
        rw [RespValue.wireAll_eq, List.flatMap_map]
      rw [hvalues, htexts] at hframe
      exact hframe

theorem RespParser.parse_wire (h : v.Encodable) (rest : Bytes) :
    parse (v.wire ++ rest) = .complete v rest :=
  parse_eq_complete_iff.mpr ⟨_, rfl, (frame_wire h).mono fun _ _ hx => hx.taken⟩

/-- On the input `s` the parser follows RESP2. -/
structure AcceptsExactlyResp2 (s : Bytes) : Prop where
  complete : ∀ v n, ((∃ rest, parse s = .complete v rest) ∧ outConsumed s = n) ↔
    n ≤ s.length ∧ Frame Resp2Header (s.take n) v
  error : BadHeader Resp2Header s → parse s = .error .protocolError

/-- The parser follows RESP2 except where it reads a line as a header that is none, and where a
count that no vector can have keeps it from reading on to such a line. -/
theorem acceptsExactlyResp2_iff (s : Bytes) :
    AcceptsExactlyResp2 s ↔ (BadHeader Resp2Header s → RefusedInput TakenHeader s) := by
  constructor
  · intro h hbad
    exact parse_eq_error_iff.mp (h.error hbad)
  · intro hrefused
    have herror : BadHeader Resp2Header s → parse s = .error .protocolError := fun hbad =>
      parse_eq_error_iff.mpr (hrefused hbad)
    refine ⟨fun v n => ⟨?_, ?_⟩, herror⟩
    · rintro ⟨⟨rest, hparse⟩, rfl⟩
      obtain ⟨u, rfl, hu⟩ := parse_eq_complete_iff.mp hparse
      rw [outConsumed_of_complete hparse, List.take_left, List.length_append]
      refine ⟨Nat.le_add_right _ _, ?_⟩
      have hor := hu.or_badHeader (H := Resp2Header) (fun _ _ h => h.taken)
        (fun _ _ _ hx hy => hx.unique hy)
      rcases hor with hframe | hbad
      · exact hframe
      · rw [herror (hbad rest)] at hparse
        cases hparse
    · rintro ⟨hn, hframe⟩
      have hparse : parse (s.take n ++ s.drop n) = .complete v (s.drop n) :=
        parse_eq_complete_iff.mpr ⟨_, rfl, hframe.mono fun _ _ h => h.taken⟩
      have hconsumed := outConsumed_of_complete hparse
      rw [List.take_append_drop] at hparse hconsumed
      rw [List.length_take_of_le hn] at hconsumed
      exact ⟨⟨_, hparse⟩, hconsumed⟩

theorem parse_reads_length_in_part : ¬ AcceptsExactlyResp2 (ascii "$5abc\r\nhello\r\n") := by
  intro h
  have hbad : BadHeader Resp2Header (ascii "$5abc" ++ crlf ++ ascii "hello\r\n") := by
    refine .here (by decide) fun x hx => ?_
    cases hx with
    | bulkString h => exact absurd (h.digits 97) (by decide)
    | nullBulkString h => exact absurd h (by decide)
  have hparse : parse (ascii "$5abc\r\nhello\r\n") =
      .complete (.bulkString (ascii "hello")) [] := rfl
  rw [h.error hbad] at hparse
  cases hparse

end Keva
