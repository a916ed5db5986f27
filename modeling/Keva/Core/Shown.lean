import Keva.Core.Purge

/-!
# What a keyspace shows at a given time

`shown t k` is what a client can learn about `k` at time `t`: the bytes of the value and the
deadline, if the key is there and has not expired.
-/

namespace Keva

namespace Keyspace

def shown (K : Keyspace) (t : MillisecondTimestamp) (k : Bytes) :
    Option (Bytes × Option MillisecondTimestamp) :=
  (K.visible t k).map fun r => (r.1.getStringValue, r.2)

variable {K K' : Keyspace} {t : MillisecondTimestamp} {k : Bytes}

theorem shown_of_none (h : K.objects k = none) : K.shown t k = none := by
  unfold shown visible
  rw [h]
  split_ifs <;> rfl

theorem shown_of_expired (h : K.expired t k = true) : K.shown t k = none := by
  unfold shown visible
  rw [if_pos h]
  rfl

theorem shown_of_live {obj : KevaObject} (ho : K.objects k = some obj)
    (he : K.expired t k = false) : K.shown t k = some (obj.getStringValue, K.deadlines k) := by
  unfold shown visible
  rw [if_neg (by simp [he]), ho]
  rfl

theorem shown_congr (ho : K'.objects k = K.objects k) (hd : K'.deadlines k = K.deadlines k) :
    K'.shown t k = K.shown t k := by
  unfold shown visible
  rw [expired_congr t hd, ho, hd]

theorem shown_set_self (K : Keyspace) (t : MillisecondTimestamp) (k : Bytes) (obj : KevaObject) :
    (K.set k obj).shown t k = some (obj.getStringValue, none) := by
  have hd : (K.set k obj).deadlines k = none := Function.update_self _ _ _
  rw [shown_of_live (Function.update_self _ _ _) (expired_of_deadline_none t hd), hd]

theorem shown_set_of_ne {j : Bytes} (hj : j ≠ k) (obj : KevaObject) :
    (K.set k obj).shown t j = K.shown t j :=
  shown_congr (Function.update_of_ne hj _ _) (Function.update_of_ne hj _ _)

theorem shown_erase_of_ne {j : Bytes} (hj : j ≠ k) : (K.erase k).shown t j = K.shown t j :=
  shown_congr (Function.update_of_ne hj _ _) (Function.update_of_ne hj _ _)

theorem shown_setExpire_self {obj : KevaObject} (ho : K.objects k = some obj)
    (e : MillisecondTimestamp) : (K.setExpire k e).shown t k =
      if e ≤ t then none else some (obj.getStringValue, some e) := by
  have hd : (K.setExpire k e).deadlines k = some e := Function.update_self _ _ _
  split_ifs with he
  · exact shown_of_expired ((expired_iff hd).mpr he)
  · have hlive : (K.setExpire k e).expired t k = false :=
      Bool.eq_false_iff.mpr (mt (expired_iff hd).mp he)
    have hshown : (K.setExpire k e).shown t k = _ := shown_of_live ho hlive
    rw [hshown, hd]

theorem shown_setExpire_of_ne {j : Bytes} (hj : j ≠ k) (e : MillisecondTimestamp) :
    (K.setExpire k e).shown t j = K.shown t j :=
  shown_congr rfl (Function.update_of_ne hj _ _)

theorem shown_isSome_iff : (K.shown t k).isSome ↔ K.Live t k := by
  cases ho : K.objects k with
  | none =>
      rw [shown_of_none ho]
      refine iff_of_false Bool.false_ne_true fun h => ?_
      have := h.stored
      rw [ho] at this
      cases this
  | some obj =>
      cases he : K.expired t k with
      | true =>
          rw [shown_of_expired he]
          refine iff_of_false Bool.false_ne_true fun h => ?_
          have := h.not_expired
          rw [he] at this
          cases this
      | false =>
          rw [shown_of_live ho he]
          exact iff_of_true rfl ⟨by rw [ho]; rfl, he⟩

theorem shown_eq_some_iff {v : Bytes} {e : Option MillisecondTimestamp} :
    K.shown t k = some (v, e) ↔ ∃ obj, K.objects k = some obj ∧ K.expired t k = false ∧
      obj.getStringValue = v ∧ K.deadlines k = e := by
  constructor
  · intro h
    have hlive : K.Live t k := by
      rw [← shown_isSome_iff, h]
      rfl
    obtain ⟨obj, ho⟩ := Option.isSome_iff_exists.mp hlive.stored
    rw [shown_of_live ho hlive.not_expired] at h
    obtain ⟨hv, he⟩ := Prod.mk.inj (Option.some.inj h)
    exact ⟨obj, ho, hlive.not_expired, hv, he⟩
  · rintro ⟨obj, ho, he, rfl, rfl⟩
    exact shown_of_live ho he

theorem expired_of_le {T : MillisecondTimestamp} (ht : t ≤ T) (h : K.expired t k = true) :
    K.expired T k = true := by
  cases hd : K.deadlines k with
  | none =>
      rw [expired_of_deadline_none t hd] at h
      cases h
  | some e =>
      rw [expired_iff hd] at h ⊢
      exact Int64.le_trans h ht

theorem shown_get_of_le {T : MillisecondTimestamp} (ht : t ≤ T) (k : Bytes) (secs : Int64)
    (j : Bytes) : (K.get k t secs).2.shown T j = K.shown T j := by
  by_cases hj : j = k
  · rw [hj]
    cases ho : K.objects k with
    | none => rw [get_of_none ho]
    | some obj =>
        cases he : K.expired t k with
        | true =>
            rw [get_of_expired ho he, shown_of_expired (expired_of_le ht he)]
            exact shown_of_none (by simp [erase])
        | false =>
            rw [get_of_live ho he]
            cases hlate : K.expired T k with
            | true => rw [shown_of_expired hlate, shown_of_expired (by exact hlate)]
            | false =>
                rw [shown_of_live ho hlate,
                  shown_of_live (Function.update_self k _ K.objects) (by exact hlate),
                  KevaObject.getStringValue_touch]
  · obtain ⟨ho, hd⟩ := @get_elsewhere K k t j hj secs
    exact shown_congr ho hd

theorem shown_get (k : Bytes) (secs : Int64) (j : Bytes) :
    (K.get k t secs).2.shown t j = K.shown t j := shown_get_of_le Int64.le_rfl k secs j

theorem getStringValue_get (secs : Int64) :
    (K.get k t secs).1.map KevaObject.getStringValue = (K.shown t k).map Prod.fst := by
  cases ho : K.objects k with
  | none =>
      rw [get_of_none ho, shown_of_none ho]
      rfl
  | some obj =>
      cases he : K.expired t k with
      | true =>
          rw [get_of_expired ho he, shown_of_expired he]
          rfl
      | false =>
          rw [get_of_live ho he, shown_of_live ho he, Option.map_some, Option.map_some,
            KevaObject.getStringValue_touch]

theorem get_isSome_iff (secs : Int64) : (K.get k t secs).1.isSome ↔ K.Live t k := by
  rw [← shown_isSome_iff, ← Option.isSome_map, getStringValue_get, Option.isSome_map]

end Keyspace

end Keva
