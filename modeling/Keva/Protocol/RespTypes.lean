import Keva.Common.Types

/-!
# RESP2 values and how they are written

`wire` is the RESP2 text of a value. The functions of `RespEncoder` give the bytes that they append
to a connection's write buffer; each writes one value, with a prefix for errors.
-/

namespace Keva

inductive RespValue
  | simpleString (str : Bytes)
  | error (str : Bytes)
  | integer (intVal : Int64)
  | bulkString (str : Bytes)
  | array (elements : List RespValue)
  | nil

/-- `sizeof(RespValue)`: a type tag, a `std::string`, an `i64` and a `std::vector`. -/
def sizeofRespValue : ℕ := 72

/-- `std::vector<RespValue>::max_size()`. -/
def maxElements : ℕ := maxSize / sizeofRespValue

namespace RespValue

/-- The `str` member, which is empty unless a factory function filled it. -/
def str : RespValue → Bytes
  | simpleString s | error s | bulkString s => s
  | integer _ | array _ | nil => []

/-- The `elements` member, which is empty unless the value is an array. -/
def elements : RespValue → List RespValue
  | array es => es
  | _ => []

def isArray : RespValue → Bool
  | array _ => true
  | _ => false

/-- A value that is no array has no elements, so `dispatch` need only ask for the elements. -/
theorem elements_of_not_isArray {v : RespValue} (h : v.isArray = false) : v.elements = [] := by
  cases v with
  | array es => cases h
  | _ => rfl

theorem eq_array_of_elements {v e : RespValue} {es : List RespValue} (h : v.elements = e :: es) :
    v = .array (e :: es) := by
  cases v with
  | array es' => exact congrArg array h
  | _ => cases h

def isBulkString : RespValue → Bool
  | bulkString _ => true
  | _ => false

theorem exists_bulkString {v : RespValue} (h : v.isBulkString = true) :
    ∃ s, v = .bulkString s := by
  cases v with
  | bulkString s => exact ⟨s, rfl⟩
  | _ => cases h

end RespValue

namespace RespEncoder

/-- `write_integer_line`. -/
def integerLine (n : Int64) : Bytes := toChars n ++ crlf

def ok : Bytes := ascii "+OK\r\n"

def simpleString (msg : Bytes) : Bytes := ascii "+" ++ msg ++ crlf

def error (msg : Bytes) : Bytes := ascii "-ERR " ++ msg ++ crlf

def wrongType (msg : Bytes) : Bytes := ascii "-WRONGTYPE " ++ msg ++ crlf

def integer (value : Int64) : Bytes := ascii ":" ++ integerLine value

def bulkString (data : Bytes) : Bytes :=
  ascii "$" ++ integerLine (Int64.ofNat data.length) ++ data ++ crlf

def nil : Bytes := ascii "$-1\r\n"

def arrayHeader (count : Int64) : Bytes := ascii "*" ++ integerLine count

mutual

def encode : RespValue → Bytes
  | .simpleString s => simpleString s
  | .error s => error s
  | .integer n => integer n
  | .bulkString s => bulkString s
  | .nil => nil
  | .array es => arrayHeader (Int64.ofNat es.length) ++ encodeAll es

def encodeAll : List RespValue → Bytes
  | [] => []
  | e :: es => encode e ++ encodeAll es

end

end RespEncoder

namespace RespValue

mutual

/-- The RESP2 text of a value. -/
def wire : RespValue → Bytes
  | simpleString s => ascii "+" ++ s ++ crlf
  | error s => ascii "-" ++ s ++ crlf
  | integer n => RespEncoder.integer n
  | bulkString s => RespEncoder.bulkString s
  | nil => RespEncoder.nil
  | array es => RespEncoder.arrayHeader (Int64.ofNat es.length) ++ wireAll es

def wireAll : List RespValue → Bytes
  | [] => []
  | e :: es => wire e ++ wireAll es

end

theorem wireAll_eq (es : List RespValue) : wireAll es = es.flatMap wire := by
  induction es with
  | nil => rw [wireAll, List.flatMap_nil]
  | cons e es ih => rw [wireAll, ih, List.flatMap_cons]

/-- A value whose text denotes it: no line inside a line, and sizes that a container can have. -/
inductive Encodable : RespValue → Prop
  | simpleString {s : Bytes} (h : ¬ crlf <:+: s) : Encodable (simpleString s)
  | error {s : Bytes} (h : ¬ crlf <:+: s) : Encodable (error s)
  | integer (n : Int64) : Encodable (integer n)
  | bulkString {s : Bytes} (h : s.length ≤ maxSize) : Encodable (bulkString s)
  | nil : Encodable nil
  | array {es : List RespValue} (hlen : es.length ≤ maxElements) (h : ∀ e ∈ es, Encodable e) :
      Encodable (array es)

end RespValue

theorem crlf_not_infix_of_forall {s : Bytes} (h : ∀ b ∈ s, b ≠ 13) : ¬ crlf <:+: s := fun hs =>
  h 13 (hs.subset (by simp [crlf])) rfl

theorem crlf_infix_append_iff {u m : Bytes} (hu : u.all (· != 13) = true) :
    crlf <:+: u ++ m ↔ crlf <:+: m := by
  induction u with
  | nil => rfl
  | cons b u ih =>
      rw [List.all_cons, Bool.and_eq_true] at hu
      have hb : ¬ crlf <+: b :: (u ++ m) := fun h =>
        ne_of_beq_false (Bool.not_eq_true' _ |>.mp hu.1) (List.cons_prefix_cons.mp h).1.symm
      rw [List.cons_append, List.infix_cons_iff, or_iff_right hb, ih hu.2]

theorem crlf_infix_append_iff_left {m w : Bytes}
    (hw : w.all (fun b => b != 10 && b != 13) = true) :
    crlf <:+: m ++ w ↔ crlf <:+: m := by
  simp only [List.all_eq_true, Bool.and_eq_true, bne_iff_ne] at hw
  induction m with
  | nil =>
      rw [List.nil_append]
      exact iff_of_false (crlf_not_infix_of_forall (fun b hb => (hw b hb).2)) (by simp [crlf])
  | cons b m ih =>
      have hprefix : crlf <+: b :: (m ++ w) ↔ crlf <+: b :: m := by
        cases m with
        | nil =>
            cases w with
            | nil => rfl
            | cons c w =>
                have hc := (hw c List.mem_cons_self).1
                simp [crlf, List.cons_prefix_cons, hc.symm]
        | cons c m => simp [crlf, List.cons_prefix_cons]
      rw [List.cons_append, List.infix_cons_iff, ih, hprefix, List.infix_cons_iff]

theorem exists_first_crlf {l : Bytes} (h : crlf <:+: l) :
    ∃ u v, l = u ++ crlf ++ v ∧ ¬ crlf <:+: u := by
  induction l with
  | nil => simp [crlf] at h
  | cons b l ih =>
      by_cases hp : crlf <+: b :: l
      · obtain ⟨v, hv⟩ := hp
        exact ⟨[], v, hv.symm, by simp [crlf]⟩
      · obtain ⟨u, v, rfl, hu⟩ := ih ((List.infix_cons_iff.mp h).resolve_left hp)
        refine ⟨b :: u, v, rfl, fun hin => ?_⟩
        rcases List.infix_cons_iff.mp hin with hpre | hin
        · exact hp (hpre.trans ⟨crlf ++ v, by simp⟩)
        · exact hu hin

theorem crlf_not_infix_toChars (n : Int64) : ¬ crlf <:+: toChars n := by
  refine crlf_not_infix_of_forall fun b hb h => ?_
  subst h
  exact absurd (Decimal.renderInt_chars _ 13 hb) (by decide)

theorem fromChars_toChars_ofNat {n : ℕ} (hn : n ≤ maxSize) :
    fromChars (toChars (Int64.ofNat n)) = .ok (Int64.ofNat n, []) ∧
      (Int64.ofNat n).toInt = n := by
  refine ⟨fromChars_toChars_self _, ?_⟩
  have hmax : maxSize = 9223372036854775807 := by decide
  rw [Int64.toInt_ofNat_of_lt (by omega)]

end Keva
