import Keva.Server.Reachable

/-!
# Values are kept in the encoding that their bytes call for

`create_string` chooses between an integer, a short string and a long string by the bytes it is
given. In every reachable database every object is what it makes of the bytes that the object stands
for, whichever handler stored it and however often it was touched since.
-/

namespace Keva

open Session Handler

namespace MetaWord

theorem setLru_setLru (w v v' : UInt32) : setLru (setLru w v) v' = setLru w v' := by
  refine ext fun i hi => ?_
  simp [setLru, mask8 (hi.trans (by decide))]
  grind

end MetaWord

namespace KevaObject

/-- `create_string` builds the object, apart from its LRU clock, from the bytes it stands for. -/
def WellEncoded (obj : KevaObject) : Prop :=
  ∀ clock, obj.touch clock = createString obj.getStringValue clock

theorem touch_allocObject (t : ObjectType) (ptr : Payload) (v v' : UInt32) :
    (allocObject t ptr v).touch v' = allocObject t ptr v' := by
  simp [touch, allocObject, MetaWord.make, MetaWord.setLru_setLru]

theorem touch_createString (s : Bytes) (v v' : UInt32) :
    (createString s v).touch v' = createString s v' := by
  unfold createString
  cases Buffer.tryParseInt s with
  | some n => exact touch_allocObject ..
  | none =>
      dsimp only
      split_ifs
      · exact touch_allocObject ..
      · exact touch_allocObject ..

theorem createStringFromInt_eq (n : Int64) (v : UInt32) :
    createStringFromInt n v = createString (toChars n) v := by
  rw [createString, Buffer.tryParseInt_toChars]
  rfl

theorem createString_getStringValue (s : Bytes) (v v' : UInt32) :
    createString (createString s v).getStringValue v' = createString s v' := by
  rw [getStringValue_createString]
  cases hp : Buffer.tryParseInt s with
  | some n =>
      dsimp only
      rw [← createStringFromInt_eq, createString, hp]
      rfl
  | none => rfl

theorem wellEncoded_createString (s : Bytes) (v : UInt32) : (createString s v).WellEncoded := by
  intro clock
  rw [touch_createString, createString_getStringValue]

theorem wellEncoded_createStringFromInt (n : Int64) (v : UInt32) :
    (createStringFromInt n v).WellEncoded :=
  createStringFromInt_eq n v ▸ wellEncoded_createString _ v

variable {obj : KevaObject}

theorem WellEncoded.touch (h : obj.WellEncoded) (v : UInt32) : (obj.touch v).WellEncoded := by
  rw [h v]
  exact wellEncoded_createString _ v

theorem WellEncoded.ptr_eq (h : obj.WellEncoded) :
    obj.ptr = (createString obj.getStringValue 0).ptr := by
  rw [← ptr_touch obj 0, h 0]

theorem WellEncoded.type_eq (h : obj.WellEncoded) : obj.type = .string := by
  rw [← type_touch obj 0, h 0]
  exact (canonical_createString _ 0).type_eq

theorem WellEncoded.encoding_eq (h : obj.WellEncoded) :
    obj.encoding = if (Buffer.tryParseInt obj.getStringValue).isSome then .int
      else if obj.getStringValue.length ≤ constants.embstrMaxLen then .embstr else .raw := by
  rw [KevaObject.encoding_eq, h.ptr_eq, createString]
  cases Buffer.tryParseInt obj.getStringValue with
  | some n => rfl
  | none =>
      dsimp only
      split_ifs
      · cases ‹(none : Option Int64).isSome = true›
      · rfl
      · cases ‹(none : Option Int64).isSome = true›
      · rfl

end KevaObject

/-- An object that the call stores is well encoded. -/
def Call.StoresWell (op : Call) : Prop := ∀ k obj, op = .set k obj → obj.WellEncoded

section

variable {α β : Type} {p : Handler α} {kinds : List CallKind} {keys : List Bytes}
  {args : List RespValue}

/-- All that the handler stores is well encoded. -/
def StoresWell (p : Handler α) : Prop := p.Calls Call.StoresWell

theorem storesWell_of_uses (h : Uses kinds keys p) (hstore : .store ∉ kinds) : StoresWell p := by
  refine Program.Calls.mono h fun op hop k obj hset => ?_
  rw [hset] at hop
  exact absurd hop.kind_mem hstore

theorem storesWell_pure (a : α) : StoresWell (pure a : Handler α) := trivial

theorem storesWell_bind {f : α → Handler β} (hp : StoresWell p) (hf : ∀ a, StoresWell (f a)) :
    StoresWell (p >>= f) := Program.calls_bind hp hf

theorem storesWell_call {op : Call} (h : op.kind ≠ .store) : StoresWell (call op) :=
  Program.calls_perform.mpr fun _ _ hset => absurd (congrArg Call.kind hset) h

theorem storesWell_set {k : Bytes} {obj : KevaObject} (h : obj.WellEncoded) :
    StoresWell (Handler.set k obj) := by
  refine Program.calls_perform.mpr fun _ _ hset => ?_
  obtain ⟨-, rfl⟩ := Call.set.inj hset
  exact h

theorem storesWell_reply (bytes : Bytes) : StoresWell (reply bytes) :=
  storesWell_call (by simp [Call.kind])

theorem storesWell_lruClock : StoresWell lruClock :=
  storesWell_bind (storesWell_call (by decide)) fun _ => storesWell_pure _

theorem storesWell_get (k : Bytes) : StoresWell (Handler.get k) :=
  storesWell_call (by simp [Call.kind])

theorem storesWell_exists (k : Bytes) : StoresWell («exists» k) :=
  storesWell_bind (storesWell_get k) fun _ => storesWell_pure _

theorem storesWell_storeString (k v : Bytes) : StoresWell (storeString k v) :=
  storesWell_bind storesWell_lruClock fun clock =>
    storesWell_set (KevaObject.wellEncoded_createString v clock)

theorem storesWell_handleSet (h : 3 ≤ args.length) : StoresWell (handleSet args) := by
  have hoptions : Uses [.reply] [] (setOptions args args.length 3 ⟨-1, false, false⟩) :=
    uses_setOptions (by simp) _ _ _
  rw [handleSet, element_bind (by omega), element_bind (by omega)]
  refine storesWell_bind (storesWell_of_uses hoptions (by decide)) fun o => ?_
  cases o with
  | none => exact storesWell_pure _
  | some o =>
      refine storesWell_bind (storesWell_exists _) fun keyExists => ?_
      split_ifs
      · exact storesWell_reply _
      · exact storesWell_reply _
      · refine storesWell_bind (storesWell_storeString _ _) fun _ => ?_
        refine storesWell_bind (storesWell_call (by decide)) fun now => ?_
        refine storesWell_bind (storesWell_call ?_) fun _ => storesWell_reply _
        simp [Call.kind]
      · exact storesWell_bind (storesWell_storeString _ _) fun _ => storesWell_reply _

theorem storesWell_handleGetset (h : 3 ≤ args.length) : StoresWell (handleGetset args) := by
  rw [handleGetset, element_bind (by omega), element_bind (by omega)]
  refine storesWell_bind (storesWell_get _) fun old => ?_
  cases old with
  | none => exact storesWell_bind (storesWell_reply _) fun _ => storesWell_storeString _ _
  | some old =>
      dsimp only
      split_ifs
      · exact storesWell_reply _
      · exact storesWell_bind (storesWell_reply _) fun _ => storesWell_storeString _ _

theorem storesWell_element (i : ℕ) : StoresWell (element args i) := by
  unfold element
  cases args[i]? with
  | some v => exact storesWell_pure _
  | none => exact storesWell_bind (storesWell_call (by decide)) fun _ => storesWell_pure _

theorem storesWell_handleMset : StoresWell (handleMset args) := by
  unfold handleMset
  split_ifs
  · exact storesWell_reply _
  · refine storesWell_bind (Program.calls_forM fun i _ => ?_) fun _ => storesWell_reply _
    refine storesWell_bind (storesWell_element _) fun val => ?_
    refine storesWell_bind storesWell_lruClock fun clock => ?_
    exact storesWell_bind (storesWell_element _) fun key =>
      storesWell_set (KevaObject.wellEncoded_createString val clock)

theorem storesWell_handleAppend (h : 3 ≤ args.length) : StoresWell (handleAppend args) := by
  rw [handleAppend, element_bind (by omega), element_bind (by omega)]
  refine storesWell_bind (storesWell_get _) fun obj => ?_
  cases obj with
  | none => exact storesWell_bind (storesWell_storeString _ _) fun _ => storesWell_reply _
  | some obj =>
      dsimp only
      split_ifs
      · exact storesWell_reply _
      · exact storesWell_bind (storesWell_storeString _ _) fun _ => storesWell_reply _

theorem storesWell_updateCounter (k : Bytes) (refuses : Int64 → Bool) (next : Int64 → Int64) :
    StoresWell (updateCounter k refuses next) := by
  unfold updateCounter
  refine storesWell_bind (storesWell_get k) fun obj => ?_
  cases getIntegerObj obj with
  | none => exact storesWell_reply _
  | some current =>
      dsimp only
      split_ifs
      · exact storesWell_reply _
      · refine storesWell_bind storesWell_lruClock fun clock => ?_
        exact storesWell_bind (storesWell_set (KevaObject.wellEncoded_createStringFromInt _ clock))
          fun _ => storesWell_reply _

theorem storesWell_parsedCounter {amount : Bytes} {refuses : Int64 → Int64 → Bool}
    {next : Int64 → Int64 → Int64} {k : Bytes} : StoresWell (match fromChars amount with
      | .error _ => reply (RespEncoder.error notIntegerMessage)
      | .ok (n, _) => updateCounter k (refuses n) (next n)) := by
  cases fromChars amount with
  | error e => exact storesWell_reply _
  | ok r => exact storesWell_updateCounter _ _ _

theorem storesWell_setWithLifetime (name : String) (toMs : Int64 → Int64) (h : 4 ≤ args.length) :
    StoresWell (setWithLifetime name toMs args) := by
  rw [setWithLifetime, element_bind (by omega), element_bind (by omega), element_bind (by omega)]
  cases fromChars (argStr args 2) with
  | error e => exact storesWell_reply _
  | ok r =>
      dsimp only
      split_ifs
      · exact storesWell_reply _
      · refine storesWell_bind (storesWell_storeString _ _) fun _ => ?_
        refine storesWell_bind (storesWell_call (by decide)) fun now => ?_
        refine storesWell_bind (storesWell_call ?_) fun _ => storesWell_reply _
        simp [Call.kind]

theorem storesWell_handleSetnx (h : 3 ≤ args.length) : StoresWell (handleSetnx args) := by
  rw [handleSetnx, element_bind (by omega), element_bind (by omega)]
  refine storesWell_bind (storesWell_exists _) fun keyExists => ?_
  split_ifs
  · exact storesWell_reply _
  · exact storesWell_bind (storesWell_storeString _ _) fun _ => storesWell_reply _

theorem storesWell_handleRename (h : 3 ≤ args.length) : StoresWell (handleRename args) := by
  rw [handleRename, element_bind (by omega), element_bind (by omega)]
  refine storesWell_bind (storesWell_get _) fun obj => ?_
  cases obj with
  | none => exact storesWell_reply _
  | some obj =>
      refine storesWell_bind storesWell_lruClock fun clock => ?_
      refine storesWell_bind (storesWell_call (by simp [Call.kind])) fun _ => ?_
      refine storesWell_bind (storesWell_set ?_) fun _ => storesWell_reply _
      split_ifs
      · exact KevaObject.wellEncoded_createStringFromInt _ clock
      · exact KevaObject.wellEncoded_createString _ clock

theorem storesWell_handler {entry : CommandEntry} (he : entry ∈ commandTable)
    (ha : entry.admits args = true) : StoresWell (entry.handler args) := by
  have hmin := CommandEntry.le_length_of_admits ha
  by_cases hstore : .store ∉ (footprint entry.name).kinds
  · exact storesWell_of_uses (uses_handler he ha) hstore
  simp only [commandTable, List.mem_cons, List.not_mem_nil, or_false] at he
  rcases he with rfl | rfl | rfl | rfl | rfl | rfl | rfl | rfl | rfl | rfl | rfl | rfl | rfl |
    rfl | rfl | rfl | rfl | rfl | rfl | rfl | rfl | rfl | rfl | rfl | rfl | rfl | rfl | rfl | rfl |
    rfl | rfl | rfl | rfl | rfl
  all_goals first
    | exact absurd (by decide) hstore
    | skip
  · exact storesWell_handleSet (Int.ofNat_le.mp hmin)
  · exact storesWell_handleGetset (Int.ofNat_le.mp hmin)
  · exact storesWell_handleMset
  · exact storesWell_handleAppend (Int.ofNat_le.mp hmin)
  · exact storesWell_bind (storesWell_element 1) fun key => storesWell_updateCounter _ _ _
  · exact storesWell_bind (storesWell_element 1) fun key =>
      storesWell_bind (storesWell_element 2) fun amount => storesWell_parsedCounter
  · exact storesWell_bind (storesWell_element 1) fun key => storesWell_updateCounter _ _ _
  · exact storesWell_bind (storesWell_element 1) fun key =>
      storesWell_bind (storesWell_element 2) fun amount => storesWell_parsedCounter
  · exact storesWell_setWithLifetime _ _ (Int.ofNat_le.mp hmin)
  · exact storesWell_setWithLifetime _ _ (Int.ofNat_le.mp hmin)
  · exact storesWell_handleSetnx (Int.ofNat_le.mp hmin)
  · exact storesWell_handleRename (Int.ofNat_le.mp hmin)

theorem storesWell_executeFrame (frame : RespValue) : StoresWell (executeFrame frame) := by
  cases hc : frameCommand frame with
  | none => exact storesWell_of_uses (executeFrame_of_none hc) (by decide)
  | some c =>
      obtain ⟨entry, args⟩ := c
      obtain ⟨heq, he, ha, -⟩ := executeFrame_of_some hc
      rw [heq, runCommand]
      refine storesWell_bind (storesWell_handler he ha) fun _ => ?_
      refine storesWell_bind (storesWell_call (by decide)) fun _ => ?_
      split_ifs
      · exact storesWell_call (by decide)
      · exact storesWell_pure _

end

def Keyspace.WellEncoded (K : Keyspace) : Prop := K.All KevaObject.WellEncoded

theorem Call.StoresWell.effect {op : Call} (hop : op.StoresWell) {w : World} {K : Keyspace}
    (hK : K.WellEncoded) : (op.effect w K).WellEncoded := by
  cases op with
  | get k => exact (Keyspace.All.get hK (fun _ clock h => h.touch clock) k w.nowMs w.time).2
  | set k obj => exact Keyspace.All.update_some hK (hop k obj rfl) _
  | del k => exact Keyspace.All.update_none hK _
  | setExpire k e => exact hK
  | removeExpire k => exact hK
  | flush => exact Keyspace.all_empty
  | _ => exact hK

theorem wellEncoded_executeFrame (frame : RespValue) (env : ℕ → World) {s : Session}
    (hs : s.db.content.WellEncoded) :
    (s.exec env (executeFrame frame)).2.db.content.WellEncoded := by
  refine Program.run_invariant (I := fun s' : Session => s'.db.content.WellEncoded)
    (fun s' op hop hs' => ?_) (storesWell_executeFrame frame) hs
  rw [Session.content_perform]
  exact Call.StoresWell.effect hop hs'

theorem Keyspace.WellEncoded.reaped {K K' : Keyspace} {now : MillisecondTimestamp}
    (h : K.WellEncoded) (hr : Keyspace.Reaped now K K') : K'.WellEncoded := by
  intro k obj ho
  rcases hr k with ⟨hsame, -⟩ | ⟨-, hgone, -⟩
  · exact h k obj (hsame ▸ ho)
  · rw [hgone] at ho
    cases ho

theorem Keyspace.WellEncoded.canonical {K : Keyspace} (h : K.WellEncoded) : K.Canonical := by
  intro k obj ho
  have hwell := h k obj ho
  refine ⟨hwell.type_eq, fun b hb => ?_, fun b hb => ?_⟩
  · have hcanonical := KevaObject.canonical_createString obj.getStringValue 0
    exact hcanonical.parse_raw b (hwell.ptr_eq ▸ hb)
  · have hcanonical := KevaObject.canonical_createString obj.getStringValue 0
    exact hcanonical.parse_embstr b (hwell.ptr_eq ▸ hb)

namespace KevaDatabase

theorem wellEncoded_loadRecord {db : KevaDatabase} (h : db.content.WellEncoded)
    (key value : Bytes) (expire secs : Int64) :
    (db.loadRecord key value expire secs).content.WellEncoded := by
  have hset : (db.set key
      (KevaObject.createString value (LruClock.current secs))).content.WellEncoded := by
    rw [content_set]
    exact h.update_some (KevaObject.wellEncoded_createString _ _) _
  unfold loadRecord
  dsimp only
  split_ifs
  · rw [content_setExpire]
    exact hset
  · exact hset

theorem Reachable.wellEncoded {P Q : DictParams} {db : KevaDatabase} (h : Reachable P Q db) :
    db.content.WellEncoded := by
  induction h with
  | empty =>
      rw [content_empty]
      exact Keyspace.all_empty
  | command env frame s h ih => exact wellEncoded_executeFrame frame env ih
  | rdbLoad secs file h ih =>
      exact rdbLoad_invariant (I := fun db => db.content.WellEncoded)
        (fun db key value expire t hdb => wellEncoded_loadRecord hdb key value expire t) file ih
  | activeExpireCycle now draw₁ draw₂ draw₃ h ih =>
      exact ih.reaped (reaped_activeExpireCycle _ now draw₁ draw₂ draw₃)
  | rehashStep h ih =>
      rw [content_rehashStep]
      exact ih

end KevaDatabase

/-- Numerals are kept as integers, other strings in the object's own block up to
`EMBSTR_MAX_LEN` bytes and in a block of their own beyond. -/
theorem encoding_of_reachable {P Q : DictParams} {db : KevaDatabase}
    (h : KevaDatabase.Reachable P Q db) {k : Bytes} {obj : KevaObject}
    (ho : db.content.objects k = some obj) :
    obj.encoding = (if (Buffer.tryParseInt obj.getStringValue).isSome then .int
      else if obj.getStringValue.length ≤ constants.embstrMaxLen then .embstr else .raw) ∧
    obj.type = .string :=
  ⟨(h.wellEncoded k obj ho).encoding_eq, (h.wellEncoded k obj ho).type_eq⟩

/-- A counter that was set from a numeral with redundant zeros. -/
theorem encoding_of_reachable_incr :
    let env := fun _ : ℕ => World.still 10 0
    let k := ascii "k"
    let s := (freshSession.exec env (executeFrame (commandFrame [ascii "SET", k, ascii "007"]))).2
    let db := (s.exec env (executeFrame (commandFrame [ascii "INCR", k]))).2.db
    (db.content.objects k).map KevaObject.encoding = some .int := by
  intro env k s db
  have hreach : KevaDatabase.Reachable (DictParams.exact fun _ => 0) (DictParams.exact fun _ => 0)
      db := .command env _ s (.command env _ freshSession .empty)
  have hbytes : (db.content.objects k).map KevaObject.getStringValue = some (ascii "8") := by
    decide +kernel
  obtain ⟨obj, ho, hobj⟩ := Option.map_eq_some_iff.mp hbytes
  have hencoding := (encoding_of_reachable hreach ho).1
  rw [hobj] at hencoding
  rw [ho, Option.map_some, hencoding]
  rfl

end Keva
