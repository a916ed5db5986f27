import Keva.Command.Dispatch
import Keva.Protocol.RespCursor

/-!
# Parsing goes forward

What the parser has decided on a part of a stream stands when more of the stream arrives. A frame
has at least one byte, so both the recursion of the parser and the loop of `dispatch` come to an
end on every buffer.
-/

namespace Keva

open RespParser

variable {env : ℕ → World}

/-- The fuel of the loop is never used up. -/
theorem dispatchLoop_congr {m n : ℕ} {c : Connection} {s : Session}
    (hm : c.readView.length < m) (hn : c.readView.length < n) :
    dispatchLoop env m c s = dispatchLoop env n c s := by
  induction m generalizing n c s with
  | zero => omega
  | succ m ih =>
      cases n with
      | zero => omega
      | succ n =>
          rw [dispatchLoop, dispatchLoop]
          by_cases hempty : c.readView.isEmpty
          · rw [if_pos hempty, if_pos hempty]
          rw [if_neg hempty, if_neg hempty]
          cases hparse : parse c.readView with
          | incomplete => rfl
          | error e => cases e <;> rfl
          | complete frame rest =>
              have hview := (@Connection.execute_consume env c frame rest hparse s).1
              have hlt := advances_parse.length_lt hparse
              dsimp only
              rw [ih (n := n) (by rw [hview]; omega) (by rw [hview]; omega)]

theorem outConsumed_eq_zero {x : Bytes} (h : ∀ v rest, parse x ≠ .complete v rest) :
    outConsumed x = 0 := by
  rw [outConsumed]
  cases hparse : parse x with
  | complete v rest => exact absurd hparse (h v rest)
  | incomplete => rfl
  | error e => rfl

theorem parseValue_ends {view : StringView} {c : Cursor} {depth : ℕ}
    (hc : c.pos.toNat ≤ view.bytes.length) (hdepth : view.bytes.length - c.pos.toNat < depth) :
    (RespCursor.parseValue view depth c).1 ≠ .error .outOfDepth ∧
      (RespCursor.parseValue view depth c).1 ≠ .error .outOfRange ∧
      (RespCursor.parseValue view depth c).2.pos.toNat ≤ view.bytes.length := by
  have hat : (RespCursor.view view).At c (view.bytes.drop c.pos.toNat) := ⟨hc, rfl⟩
  have hlength : (view.bytes.drop c.pos.toNat).length < depth := by
    rwa [List.length_drop]
  have hsim := RespCursor.simulates_parseValue hat hlength
  obtain ⟨houtcome, hle⟩ := RespCursor.outcome_of_follows hsim.follows
  rw [houtcome]
  exact ⟨(RespCursor.outcome_ne _).2, (RespCursor.outcome_ne _).1, hle⟩

/-- What parsing `x` says about the streams that begin with `x`, and how it comes to an end. -/
structure ParsingProgresses (x : Bytes) : Prop where
  complete : ∀ v rest y, parse x = .complete v rest →
    0 < outConsumed x ∧ outConsumed x ≤ x.length ∧
      parse (x ++ y) = .complete v (rest ++ y) ∧ outConsumed (x ++ y) = outConsumed x
  error : ∀ e y, parse x = .error e → parse (x ++ y) = .error e
  unconsumed : (∀ v rest, parse x ≠ .complete v rest) → outConsumed x = 0
  calls : ∀ (view : StringView) (c : Cursor) (depth : ℕ), view.bytes = x →
    c.pos.toNat ≤ x.length → x.length - c.pos.toNat < depth →
      (RespCursor.parseValue view depth c).1 ≠ .error .outOfDepth ∧
        (RespCursor.parseValue view depth c).1 ≠ .error .outOfRange ∧
        (RespCursor.parseValue view depth c).2.pos.toNat ≤ x.length
  cursor : ∀ view : StringView, view.bytes = x →
    (RespCursor.parse view).1 = RespCursor.outcome (parse x) ∧
      (RespCursor.parse view).2.pos.toNat ≤ x.length ∧
      ∀ v rest, parse x = .complete v rest →
        (RespCursor.parse view).2.pos.toNat = outConsumed x
  loop : ∀ (env : ℕ → World) (c : Connection) (s : Session) (fuel : ℕ), c.readView = x →
    x.length < fuel → dispatchLoop env fuel c s = dispatch env c s

/-- Verdicts stand, and a frame takes at least one byte, so parsing and dispatching end. -/
theorem parsing_progresses (x : Bytes) : ParsingProgresses x where
  complete v rest y h := by
    obtain ⟨u, hu, rfl⟩ := advances_parse x v rest h
    have hext := (stable_parse (u ++ rest)).complete v rest h y
    have hconsumed := outConsumed_of_complete h
    rw [hconsumed, List.length_append]
    refine ⟨List.length_pos_iff.mpr hu, Nat.le_add_right _ _, hext, ?_⟩
    rw [List.append_assoc] at hext ⊢
    exact outConsumed_of_complete hext
  error e y h := (stable_parse x).error e h y
  unconsumed h := outConsumed_eq_zero h
  calls view c depth hview hc hdepth := by
    subst hview
    exact parseValue_ends hc hdepth
  cursor view hview := by
    subst hview
    exact RespCursor.parse_spec view
  loop env c s fuel hc hfuel := by
    subst hc
    exact dispatchLoop_congr hfuel (Nat.lt_succ_self _)

end Keva
