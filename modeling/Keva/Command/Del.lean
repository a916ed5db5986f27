import Mathlib.Data.Finset.Card
import Mathlib.Data.Finset.Dedup
import Keva.Command.Strings
import Keva.Core.Shown

/-!
# What DEL counts

`KevaDatabase::del` answers whether the key is stored, whether or not it has expired. DEL therefore
counts an expired key that nothing has removed yet.
-/

namespace Keva

open Session Handler

namespace Keyspace

def isStored (K : Keyspace) (k : Bytes) : Bool := (K.objects k).isSome

/-- The number of different keys in the list that are stored. -/
def storedCount (K : Keyspace) (keys : List Bytes) : ℕ :=
  (keys.toFinset.filter fun k => K.isStored k).card

def shownCount (K : Keyspace) (t : MillisecondTimestamp) (keys : List Bytes) : ℕ :=
  (keys.toFinset.filter fun k => (K.shown t k).isSome).card

def eraseAll (K : Keyspace) (keys : List Bytes) : Keyspace where
  objects k := if k ∈ keys then none else K.objects k
  deadlines k := if k ∈ keys then none else K.deadlines k

variable {K : Keyspace} {t : MillisecondTimestamp} {k : Bytes} {keys : List Bytes}

theorem eraseAll_nil : K.eraseAll [] = K := by
  apply Keyspace.ext <;> funext j <;> simp [eraseAll]

theorem eraseAll_cons : (K.erase k).eraseAll keys = K.eraseAll (k :: keys) := by
  apply Keyspace.ext <;> funext j <;> by_cases hj : j = k <;> by_cases hm : j ∈ keys <;>
    simp [eraseAll, erase, hj, hm]

theorem isStored_erase (j : Bytes) : (K.erase k).isStored j = (j ≠ k && K.isStored j) := by
  by_cases hj : j = k <;> simp [isStored, erase, hj]

theorem storedCount_cons : K.storedCount (k :: keys) =
    (if K.isStored k then 1 else 0) + (K.erase k).storedCount keys := by
  unfold storedCount
  have hrest : (keys.toFinset.filter fun j => (K.erase k).isStored j) =
      (keys.toFinset.filter fun j => K.isStored j).erase k := by
    ext j
    by_cases hj : j = k <;> simp [isStored_erase, hj]
  rw [hrest, List.toFinset_cons, Finset.filter_insert]
  cases hk : K.isStored k with
  | true =>
      rw [if_pos rfl, if_pos rfl, ← Finset.card_erase_add_one (Finset.mem_insert_self k _),
        Finset.erase_insert_eq_erase, Nat.add_comm]
  | false =>
      rw [if_neg (by simp), if_neg (by simp), Finset.erase_eq_of_notMem (by simp [hk]),
        Nat.zero_add]

theorem storedCount_le : K.storedCount keys ≤ keys.length :=
  (Finset.card_filter_le _ _).trans (List.toFinset_card_le _)

theorem shownCount_le : K.shownCount t keys ≤ keys.length :=
  (Finset.card_filter_le _ _).trans (List.toFinset_card_le _)

theorem shownCount_eq_storedCount_iff : K.shownCount t keys = K.storedCount keys ↔
    ∀ k ∈ keys, K.isStored k → K.expired t k = false := by
  unfold shownCount storedCount
  have hsub : (keys.toFinset.filter fun k => (K.shown t k).isSome) ⊆
      keys.toFinset.filter fun k => K.isStored k := by
    intro k hk
    rw [Finset.mem_filter, shown_isSome_iff] at hk
    exact Finset.mem_filter.mpr ⟨hk.1, hk.2.stored⟩
  constructor
  · intro hcard k hk hstored
    have hmem : k ∈ keys.toFinset.filter fun k => K.isStored k :=
      Finset.mem_filter.mpr ⟨List.mem_toFinset.mpr hk, hstored⟩
    rw [← Finset.eq_of_subset_of_card_le hsub hcard.ge, Finset.mem_filter, shown_isSome_iff] at hmem
    exact hmem.2.not_expired
  · intro h
    rw [Finset.Subset.antisymm hsub]
    intro k hk
    rw [Finset.mem_filter, List.mem_toFinset] at hk
    rw [Finset.mem_filter, List.mem_toFinset, shown_isSome_iff]
    exact ⟨hk.1, hk.2, h k hk.1 hk.2⟩

end Keyspace

variable {env : ℕ → World} {s : Session} {k : Bytes} {args : List RespValue} {frame : RespValue}

/-- The counting loop of DEL: it counts what is stored and erases it at once, so a repeated key is
counted once. -/
theorem exec_delLoop {l : List ℕ} (hl : ∀ i ∈ l, i < args.length) (count : Int64) (s : Session) :
    let r := exec env (l.foldlM (fun (count : Int64) i => do
      let key ← element args i
      let hit ← del key
      pure (if hit then count + 1 else count)) count) s
    r.1 = count + Int64.ofNat (s.db.content.storedCount (l.map (argStr args))) ∧
      r.2.db.content = s.db.content.eraseAll (l.map (argStr args)) ∧ r.2.output = s.output := by
  induction l generalizing count s with
  | nil =>
      refine ⟨?_, Keyspace.eraseAll_nil.symm, rfl⟩
      exact (Int64.add_zero count).symm
  | cons i l ih =>
      dsimp only
      rw [List.foldlM_cons, element_bind (hl i List.mem_cons_self), exec_bind, exec_del_bind]
      let hit : Bool := (s.perform env (.del (argStr args i))).1
      obtain ⟨hcount, hcontent, hout⟩ := ih (fun j hj => hl j (List.mem_cons_of_mem i hj))
        (if hit = true then count + 1 else count) (s.perform env (.del (argStr args i))).2
      have hstored : hit = s.db.content.isStored (argStr args i) := KevaDatabase.del_fst _ _
      rw [content_perform] at hcount hcontent
      change _ = _ + Int64.ofNat ((s.db.content.erase (argStr args i)).storedCount _) at hcount
      change _ = (s.db.content.erase (argStr args i)).eraseAll _ at hcontent
      refine ⟨?_, ?_, ?_⟩
      · rw [List.map_cons, Keyspace.storedCount_cons, ← hstored]
        refine hcount.trans ?_
        cases hit with
        | true =>
            rw [if_pos rfl, if_pos rfl, Int64.add_assoc, Int64.ofNat_add]
            rfl
        | false => rw [if_neg (by simp), if_neg (by simp), Nat.zero_add]
      · rw [List.map_cons, ← Keyspace.eraseAll_cons]
        exact hcontent
      · exact hout.trans (perform_output (by simp [Call.kind]) s)

theorem exec_handleDel (env : ℕ → World) (s : Session) :
    (exec env (handleDel args) s).2.output = s.output ++
        RespEncoder.integer (Int64.ofNat (s.db.content.storedCount (tailKeys args))) ∧
      (exec env (handleDel args) s).2.db.content = s.db.content.eraseAll (tailKeys args) := by
  have hl : ∀ i ∈ List.range' 1 (args.length - 1), i < args.length := by
    intro i hi
    obtain ⟨j, hj, rfl⟩ := List.mem_range'.mp hi
    omega
  obtain ⟨hcount, hcontent, hout⟩ := @exec_delLoop env args _ hl 0 s
  unfold handleDel countKeys
  rw [exec_bind]
  refine ⟨?_, hcontent⟩
  change _ ++ _ = _
  rw [hout, hcount, Int64.zero_add]
  rfl

/-- DEL replies how many different listed keys were visible, and erases exactly the listed ones. -/
structure CountsVisible (visible : Bytes → Prop) [DecidablePred visible] (K K' : Keyspace)
    (keys : List Bytes) (reply : Bytes) : Prop where
  count : reply = RespEncoder.integer (Int64.ofNat (keys.toFinset.filter visible).card)
  erased : ∀ k ∈ keys, K'.objects k = none ∧ K'.deadlines k = none
  kept : ∀ k ∉ keys, K'.objects k = K.objects k ∧ K'.deadlines k = K.deadlines k

theorem card_visible_eq_shownCount (env : ℕ → World) (s : Session) (keys : List Bytes) :
    (keys.toFinset.filter fun k =>
        (replyStep env s (commandFrame [ascii "GET", k])).1 ≠ RespEncoder.nil).card =
      s.db.content.shownCount (env s.calls).nowMs keys := by
  unfold Keyspace.shownCount
  congr 1
  apply Finset.filter_congr
  intro k _
  rw [Ne, replyStep_get_eq_nil_iff (requests_commandFrame "GET" ⟨_, rfl, rfl⟩)]
  exact Option.ne_none_iff_isSome

/-- The count is the number of listed keys that GET would find, exactly when no listed key is stored
and expired. -/
theorem del_countsVisible_iff (env : ℕ → World) (s : Session) (t : MillisecondTimestamp)
    (henv : ∀ n, (env n).nowMs = t) (hsize : args.length ≤ maxElements)
    (h : Requests "DEL" k frame args) :
    CountsVisible
        (fun k => (replyStep env s (commandFrame [ascii "GET", k])).1 ≠ RespEncoder.nil)
        s.db.content (replyStep env s frame).2.db.content (tailKeys args)
        (replyStep env s frame).1 ↔
      ∀ k ∈ tailKeys args, s.db.content.isStored k → s.db.content.expired t k = false := by
  obtain ⟨-, hout, hdb⟩ := h.exec (e := ⟨ascii "DEL", handleDel, 2, -1, true⟩) rfl env s
  obtain ⟨hout', hcontent⟩ := @exec_handleDel args env s
  have hreply := List.append_cancel_left (hout.symm.trans hout')
  have hvisible := card_visible_eq_shownCount env s (tailKeys args)
  rw [hdb] at hcontent
  rw [henv] at hvisible
  have hlen : (tailKeys args).length ≤ maxSize := by
    have hmax : maxElements ≤ maxSize := Nat.div_le_self _ _
    rw [tailKeys, List.length_map, List.length_range']
    omega
  rw [← Keyspace.shownCount_eq_storedCount_iff, hreply, hcontent]
  constructor
  · intro hcounts
    have hcount := hcounts.count
    rw [hvisible] at hcount
    exact (integer_ofNat_injective (Keyspace.storedCount_le.trans hlen)
      (Keyspace.shownCount_le.trans hlen) hcount).symm
  · intro heq
    refine ⟨?_, fun k hk => ?_, fun k hk => ?_⟩
    · rw [hvisible, heq]
    · exact ⟨if_pos hk, if_pos hk⟩
    · exact ⟨if_neg hk, if_neg hk⟩

theorem del_countsVisible_repeated :
    let env := fun _ : ℕ => World.still 10 0
    let k := ascii "k"
    let s := (replyStep env freshSession (commandFrame [ascii "SET", k, ascii "v"])).2
    let deleted := replyStep env s (commandFrame [ascii "DEL", k, ascii "j", k])
    CountsVisible
      (fun k => (replyStep env s (commandFrame [ascii "GET", k])).1 ≠ RespEncoder.nil)
      s.db.content deleted.2.db.content [k, ascii "j", k] deleted.1 := by
  intro env k s deleted
  let frame := commandFrame [ascii "DEL", k, ascii "j", k]
  have hreq : Requests "DEL" k frame frame.elements := requests_commandFrame "DEL" ⟨_, rfl, rfl⟩
  exact (del_countsVisible_iff env s 10 (fun _ => rfl) (by decide +kernel) hreq).mpr
    (by decide +kernel)

/-- DEL of a key whose deadline has passed without anything having removed it. -/
theorem del_counts_expired_key :
    let k := ascii "k"
    let s := (replyStep (fun _ => World.still 10 0) freshSession
      (commandFrame [ascii "PSETEX", k, ascii "5", ascii "v"])).2
    let env := fun _ : ℕ => World.still 15 0
    (replyStep env s (commandFrame [ascii "GET", k])).1 = RespEncoder.nil ∧
      (replyStep env s (commandFrame [ascii "DEL", k])).1 = RespEncoder.integer 1 := by
  constructor <;> decide +kernel

end Keva
