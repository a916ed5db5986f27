import Keva.Protocol.Resp2

/-!
# Encoding a value and parsing it again

`RespEncoder::encode` writes an error value with the primitive that the command handlers use for
their own messages, which puts `ERR` before the text. Reading the bytes back therefore gives
`prefixed v`, and `v` itself only if there is no error value in the tree.
-/

namespace Keva

namespace RespValue

mutual

/-- The value whose text `encode` writes. -/
def prefixed : RespValue → RespValue
  | simpleString s => simpleString s
  | error s => error (ascii "ERR " ++ s)
  | integer n => integer n
  | bulkString s => bulkString s
  | nil => nil
  | array es => array (prefixedAll es)

def prefixedAll : List RespValue → List RespValue
  | [] => []
  | e :: es => prefixed e :: prefixedAll es

end

mutual

/-- No node of the tree is an error value. -/
def errorFree : RespValue → Bool
  | error _ => false
  | array es => errorFreeAll es
  | _ => true

def errorFreeAll : List RespValue → Bool
  | [] => true
  | e :: es => errorFree e && errorFreeAll es

end

theorem prefixedAll_eq (es : List RespValue) : prefixedAll es = es.map prefixed := by
  induction es with
  | nil => rfl
  | cons e es ih => rw [prefixedAll, ih, List.map_cons]

mutual

theorem wire_prefixed : ∀ v : RespValue, (prefixed v).wire = RespEncoder.encode v
  | simpleString _ => rfl
  | error s => by
      rw [prefixed, wire, RespEncoder.encode, RespEncoder.error, ← List.append_assoc]
      rfl
  | integer _ => rfl
  | bulkString _ => rfl
  | nil => rfl
  | array es => by
      have hlen : (prefixedAll es).length = es.length := by
        rw [prefixedAll_eq, List.length_map]
      rw [prefixed, wire, RespEncoder.encode, hlen, wireAll_prefixedAll es]

theorem wireAll_prefixedAll : ∀ es : List RespValue,
    wireAll (prefixedAll es) = RespEncoder.encodeAll es
  | [] => rfl
  | e :: es => by
      rw [prefixedAll, wireAll, RespEncoder.encodeAll, wire_prefixed e, wireAll_prefixedAll es]

end

mutual

theorem prefixed_eq_self_iff : ∀ v : RespValue, prefixed v = v ↔ errorFree v = true
  | simpleString _ => iff_of_true rfl rfl
  | error s => by
      refine iff_of_false (fun h => ?_) Bool.false_ne_true
      rw [prefixed] at h
      have hlen := congrArg List.length (error.inj h)
      rw [List.length_append] at hlen
      have hpos : (ascii "ERR ").length = 4 := by decide
      omega
  | integer _ => iff_of_true rfl rfl
  | bulkString _ => iff_of_true rfl rfl
  | nil => iff_of_true rfl rfl
  | array es => by
      rw [prefixed, errorFree, array.injEq, prefixedAll_eq_self_iff es]

theorem prefixedAll_eq_self_iff : ∀ es : List RespValue,
    prefixedAll es = es ↔ errorFreeAll es = true
  | [] => iff_of_true rfl rfl
  | e :: es => by
      rw [prefixedAll, errorFreeAll, List.cons.injEq, Bool.and_eq_true, prefixed_eq_self_iff e,
        prefixedAll_eq_self_iff es]

end

theorem Encodable.prefixed {v : RespValue} (h : v.Encodable) : v.prefixed.Encodable := by
  induction h with
  | simpleString h => exact .simpleString h
  | error h =>
      apply Encodable.error
      rwa [crlf_infix_append_iff (by decide)]
  | integer n => exact .integer n
  | bulkString h => exact .bulkString h
  | nil => exact .nil
  | array hlen h ih =>
      rw [RespValue.prefixed, prefixedAll_eq]
      apply Encodable.array
      · rwa [List.length_map]
      · intro e he
        obtain ⟨e', he', rfl⟩ := List.mem_map.mp he
        exact ih e' he'

end RespValue

namespace RespParser

open RespValue

theorem parse_encode {v : RespValue} (h : v.Encodable) (rest : Bytes) :
    parse (RespEncoder.encode v ++ rest) = .complete v.prefixed rest := by
  rw [← wire_prefixed]
  exact parse_wire h.prefixed rest

/-- A value survives encoding and parsing exactly when it holds no error value. -/
theorem parse_encode_iff {v : RespValue} (h : v.Encodable) (rest : Bytes) :
    parse (RespEncoder.encode v ++ rest) = .complete v rest ↔ v.errorFree = true := by
  rw [parse_encode h rest, ← prefixed_eq_self_iff]
  constructor
  · intro heq
    exact (Framing.Verdict.complete.inj heq).1
  · intro heq
    rw [heq]

theorem parse_encode_nested :
    let v := RespValue.array [.integer (-7), .array [.bulkString (ascii "a\r\nb"), .nil]]
    parse (RespEncoder.encode v ++ ascii "+x") = .complete v (ascii "+x") ↔ v.errorFree = true := by
  intro v
  apply parse_encode_iff
  apply RespValue.Encodable.array (by decide)
  intro e he
  rcases List.mem_pair.mp he with rfl | rfl
  · exact .integer _
  · apply RespValue.Encodable.array (by decide)
    intro e he
    rcases List.mem_pair.mp he with rfl | rfl
    · exact .bulkString (by decide)
    · exact .nil

/-- The error value `x` comes back as `ERR x`. -/
theorem parse_encode_error :
    parse (RespEncoder.encode (.error (ascii "x"))) = .complete (.error (ascii "ERR x")) [] ∧
      parse (RespEncoder.encode (.error (ascii "x"))) ≠ .complete (.error (ascii "x")) [] := by
  have hencodable : RespValue.Encodable (.error (ascii "x")) := by
    apply RespValue.Encodable.error
    intro hin
    have hlen := hin.length_le
    exact absurd hlen (by decide)
  have hparse := parse_encode hencodable []
  rw [List.append_nil] at hparse
  rw [hparse]
  refine ⟨rfl, fun h => ?_⟩
  cases RespValue.error.inj (Framing.Verdict.complete.inj h).1

end RespParser

end Keva
