import Keva.Command.Execution

/-!
# What each command may touch

`footprint` lists, for each command name, the kinds of calls its handler makes and the keys it is
about. `frameCommand` is the command that a frame runs, if it runs one; every other frame only gets
an error reply.
-/

namespace Keva

structure Footprint where
  kinds : List CallKind
  keys : List RespValue → List Bytes

namespace Footprint

def one (kinds : List CallKind) : Footprint := ⟨kinds, fun args => [argStr args 1]⟩

def noKey (kinds : List CallKind) : Footprint := ⟨kinds, fun _ => []⟩

end Footprint

def footprints : List (Bytes × Footprint) :=
  [ (ascii "SET", .one [.lookup, .store, .deadline, .clock, .reply]),
    (ascii "GET", .one [.lookup, .reply]),
    (ascii "GETSET", .one [.lookup, .store, .clock, .reply]),
    (ascii "MSET", ⟨[.store, .clock, .reply], msetKeys⟩),
    (ascii "MGET", ⟨[.lookup, .reply], tailKeys⟩),
    (ascii "APPEND", .one [.lookup, .store, .clock, .reply]),
    (ascii "STRLEN", .one [.lookup, .reply]),
    (ascii "INCR", .one [.lookup, .store, .clock, .reply]),
    (ascii "INCRBY", .one [.lookup, .store, .clock, .reply]),
    (ascii "DECR", .one [.lookup, .store, .clock, .reply]),
    (ascii "DECRBY", .one [.lookup, .store, .clock, .reply]),
    (ascii "SETEX", .one [.store, .deadline, .clock, .reply]),
    (ascii "PSETEX", .one [.store, .deadline, .clock, .reply]),
    (ascii "SETNX", .one [.lookup, .store, .clock, .reply]),
    (ascii "DEL", ⟨[.erase, .reply], tailKeys⟩),
    (ascii "EXISTS", ⟨[.lookup, .reply], tailKeys⟩),
    (ascii "TYPE", .one [.inspect, .reply]),
    (ascii "EXPIRE", .one [.lookup, .deadline, .clock, .reply]),
    (ascii "PEXPIRE", .one [.lookup, .deadline, .clock, .reply]),
    (ascii "EXPIREAT", .one [.lookup, .deadline, .clock, .reply]),
    (ascii "TTL", .one [.ttl, .reply]),
    (ascii "PTTL", .one [.ttl, .reply]),
    (ascii "PERSIST", .one [.lookup, .persist, .reply]),
    (ascii "KEYS", .noKey [.scan, .reply]),
    (ascii "RENAME", ⟨[.lookup, .clock, .erase, .store, .reply],
      fun args => [argStr args 1, argStr args 2]⟩),
    (ascii "DBSIZE", .noKey [.size, .reply]),
    (ascii "PING", .noKey [.reply]),
    (ascii "ECHO", .noKey [.reply]),
    (ascii "FLUSHDB", .noKey [.flush, .reply]),
    (ascii "INFO", .noKey [.context, .clock, .size, .reply]),
    (ascii "SAVE", .noKey [.save, .clock, .account, .reply]),
    (ascii "BGSAVE", .noKey [.context, .fork, .reply]),
    (ascii "SELECT", .noKey [.reply]),
    (ascii "QUIT", .noKey [.reply, .state]) ]

def footprint (name : Bytes) : Footprint := (footprints.lookup name).getD (.noKey [])

/-- The key arguments of a command. -/
def keyArguments (entry : CommandEntry) (args : List RespValue) : List Bytes :=
  (footprint entry.name).keys args

theorem CommandEntry.le_length_of_admits {entry : CommandEntry} {args : List RespValue}
    (h : entry.admits args = true) : entry.arityMin ≤ args.length := by
  have hle : (Int32.ofNat args.length).toInt ≤ args.length := by
    have hsize : Int32.size = 4294967296 := rfl
    rw [Int32.toInt_ofNat', Int.bmod_def, hsize]
    split_ifs <;> omega
  rw [admits] at h
  simp only [Bool.not_eq_true', Bool.or_eq_false_iff, decide_eq_false_iff_not] at h
  omega

theorem uses_handler_of_le {entry : CommandEntry} (he : entry ∈ commandTable)
    {args : List RespValue} (hmin : entry.arityMin ≤ args.length) :
    Uses (footprint entry.name).kinds (keyArguments entry args) (entry.handler args) := by
  simp only [commandTable, List.mem_cons, List.not_mem_nil, or_false] at he
  rcases he with rfl | rfl | rfl | rfl | rfl | rfl | rfl | rfl | rfl | rfl | rfl | rfl | rfl |
    rfl | rfl | rfl | rfl | rfl | rfl | rfl | rfl | rfl | rfl | rfl | rfl | rfl | rfl | rfl | rfl |
    rfl | rfl | rfl | rfl | rfl
  · exact uses_handleSet (Int.ofNat_le.mp hmin)
  · exact uses_handleGet (Int.ofNat_le.mp hmin)
  · exact uses_handleGetset (Int.ofNat_le.mp hmin)
  · exact uses_handleMset
  · exact uses_handleMget
  · exact uses_handleAppend (Int.ofNat_le.mp hmin)
  · exact uses_handleStrlen (Int.ofNat_le.mp hmin)
  · exact uses_handleIncr (Int.ofNat_le.mp hmin)
  · exact uses_handleIncrby (Int.ofNat_le.mp hmin)
  · exact uses_handleDecr (Int.ofNat_le.mp hmin)
  · exact uses_handleDecrby (Int.ofNat_le.mp hmin)
  · exact uses_setWithLifetime _ _ (Int.ofNat_le.mp hmin)
  · exact uses_setWithLifetime _ _ (Int.ofNat_le.mp hmin)
  · exact uses_handleSetnx (Int.ofNat_le.mp hmin)
  · exact uses_handleDel
  · exact uses_handleExists
  · exact uses_handleType (Int.ofNat_le.mp hmin)
  · exact uses_handleExpire (Int.ofNat_le.mp hmin)
  · exact uses_handlePexpire (Int.ofNat_le.mp hmin)
  · exact uses_handleExpireat (Int.ofNat_le.mp hmin)
  · exact uses_handleTtl (Int.ofNat_le.mp hmin)
  · exact uses_handlePttl (Int.ofNat_le.mp hmin)
  · exact uses_handlePersist (Int.ofNat_le.mp hmin)
  · exact uses_handleKeys (Int.ofNat_le.mp hmin)
  · exact uses_handleRename (Int.ofNat_le.mp hmin)
  · exact @uses_handleDbsize args
  · exact uses_handlePing (Int.ofNat_le.mp hmin)
  · exact uses_handleEcho (Int.ofNat_le.mp hmin)
  · exact @uses_handleFlushdb args
  · exact @uses_handleInfo args
  · exact @uses_handleSave args
  · exact @uses_handleBgsave args
  · exact uses_handleSelect (Int.ofNat_le.mp hmin)
  · exact @uses_handleQuit args

theorem uses_handler {entry : CommandEntry} (he : entry ∈ commandTable) {args : List RespValue}
    (ha : entry.admits args = true) :
    Uses (footprint entry.name).kinds (keyArguments entry args) (entry.handler args) :=
  uses_handler_of_le he (CommandEntry.le_length_of_admits ha)

/-- The entry and the elements of the command that the frame runs, if dispatch accepts it. -/
def frameCommand (frame : RespValue) : Option (CommandEntry × List RespValue) :=
  match frame.elements with
  | [] => none
  | nameValue :: rest =>
      if !nameValue.isBulkString then none
      else
        match findCommand (nameValue.str.map toUpper) with
        | none => none
        | some entry =>
            if entry.admits (nameValue :: rest) then some (entry, nameValue :: rest) else none

variable {frame : RespValue} {entry : CommandEntry} {args : List RespValue}

theorem frameCommand_shape (h : frameCommand frame = some (entry, args)) :
    ∃ name rest, frame = .array (.bulkString name :: rest) ∧ args = .bulkString name :: rest ∧
      findCommand (name.map toUpper) = some entry ∧ entry.admits args = true := by
  unfold frameCommand at h
  cases hf : frame.elements with
  | nil => rw [hf] at h; cases h
  | cons nameValue rest =>
      rw [hf] at h
      dsimp only at h
      split_ifs at h with hb
      obtain ⟨name, rfl⟩ := RespValue.exists_bulkString (by simpa using hb)
      cases hc : findCommand ((RespValue.bulkString name).str.map toUpper) with
      | none => rw [hc] at h; cases h
      | some e =>
          rw [hc] at h
          dsimp only at h
          split_ifs at h with ha
          obtain ⟨rfl, rfl⟩ := Prod.mk.inj (Option.some.inj h)
          exact ⟨name, rest, RespValue.eq_array_of_elements hf, rfl, hc, ha⟩

theorem frameCommand_of_findCommand {name : Bytes} {rest : List RespValue}
    (hc : findCommand (name.map toUpper) = some entry)
    (ha : entry.admits (.bulkString name :: rest) = true) :
    frameCommand (.array (.bulkString name :: rest)) = some (entry, .bulkString name :: rest) := by
  simp only [frameCommand, RespValue.elements, RespValue.isBulkString, Bool.not_true,
    Bool.false_eq_true, if_false, RespValue.str, hc, ha, if_true]

theorem executeFrame_of_some (h : frameCommand frame = some (entry, args)) :
    executeFrame frame = runCommand entry args ∧ entry ∈ commandTable ∧
      entry.admits args = true ∧ args = frame.elements := by
  obtain ⟨name, rest, rfl, rfl, hc, ha⟩ := frameCommand_shape h
  refine ⟨?_, List.mem_of_find?_eq_some hc, ha, rfl⟩
  simp only [executeFrame, RespValue.elements, RespValue.isBulkString, Bool.not_true,
    Bool.false_eq_true, if_false, RespValue.str, hc, ha, if_true]

theorem findCommand_of_frameCommand (h : frameCommand frame = some (entry, args)) :
    findCommand entry.name = some entry ∧
      ∀ name rest, frame.elements = .bulkString name :: rest → entry.name = name.map toUpper := by
  obtain ⟨name, rest, rfl, -, hc, -⟩ := frameCommand_shape h
  have hname := List.find?_some hc
  rw [decide_eq_true_eq, map_toUpper_map_toUpper] at hname
  refine ⟨by rw [hname, hc], fun name' rest' heq => ?_⟩
  obtain rfl := RespValue.bulkString.inj (List.cons.inj heq).1
  exact hname

/-- The message that refuses a frame. -/
inductive Rejection (frame : RespValue) : Bytes → Prop
  | noArray (h : frame.elements = []) :
      Rejection frame (ascii "Protocol error: expected array")
  | noName {nameValue : RespValue} {rest : List RespValue}
      (h : frame.elements = nameValue :: rest) (hb : nameValue.isBulkString = false) :
      Rejection frame (ascii "Protocol error: command name must be bulk string")
  | unknown {name : Bytes} {rest : List RespValue}
      (h : frame = .array (.bulkString name :: rest))
      (hc : findCommand (name.map toUpper) = none) :
      Rejection frame (unknownCommandMessage (name.map toUpper))
  | arity {name : Bytes} {rest : List RespValue} {entry : CommandEntry}
      (h : frame = .array (.bulkString name :: rest))
      (hc : findCommand (name.map toUpper) = some entry)
      (ha : entry.admits (.bulkString name :: rest) = false) :
      Rejection frame (wrongArityMessage entry.name)

/-- A frame that runs no command does nothing but reply with an error, and is counted at most. -/
theorem executeFrame_rejects (h : frameCommand frame = none) :
    ∃ message, Rejection frame message ∧
      (executeFrame frame = Handler.reply (RespEncoder.error message) ∨
        executeFrame frame = (do
          Handler.reply (RespEncoder.error message)
          Handler.recordCommand)) := by
  unfold frameCommand at h
  unfold executeFrame
  cases hf : frame.elements with
  | nil => exact ⟨_, .noArray hf, .inl rfl⟩
  | cons nameValue rest =>
      rw [hf] at h
      dsimp only at h ⊢
      split_ifs at h with hb
      · rw [if_pos hb]
        exact ⟨_, .noName hf (by simpa using hb), .inl rfl⟩
      · rw [if_neg hb]
        obtain ⟨name, rfl⟩ := RespValue.exists_bulkString (by simpa using hb)
        have hframe := RespValue.eq_array_of_elements hf
        cases hc : findCommand ((RespValue.bulkString name).str.map toUpper) with
        | none => exact ⟨_, .unknown hframe hc, .inr rfl⟩
        | some e =>
            rw [hc] at h
            dsimp only at h ⊢
            split_ifs at h with ha
            rw [if_neg ha]
            exact ⟨_, .arity hframe hc (by simpa using ha), .inr rfl⟩

theorem executeFrame_of_none (h : frameCommand frame = none) :
    Uses [.reply, .account] [] (executeFrame frame) := by
  obtain ⟨message, -, heq | heq⟩ := executeFrame_rejects h
  · rw [heq]
    exact uses_reply (by simp) _
  · rw [heq]
    exact uses_bind (uses_reply (by simp) _)
      (fun _ => uses_call (Call.within_of_key?_none (by simp [Call.kind]) rfl))

theorem uses_runCommand (he : entry ∈ commandTable) (ha : entry.admits args = true) :
    Uses (.account :: (footprint entry.name).kinds) (keyArguments entry args)
      (runCommand entry args) := by
  refine uses_bind ((uses_handler he ha).mono (List.subset_cons_self _ _) (List.Subset.refl _))
    fun _ => uses_bind (uses_call (Call.within_of_key?_none (by simp [Call.kind]) rfl)) fun _ => ?_
  split_ifs
  · exact uses_call (Call.within_of_key?_none (by simp [Call.kind]) rfl)
  · exact uses_pure _

theorem uses_executeFrame (frame : RespValue) :
    ∃ kinds keys, Uses kinds keys (executeFrame frame) ∧
      (∀ entry args, frameCommand frame = some (entry, args) →
        kinds = .account :: (footprint entry.name).kinds ∧ keys = keyArguments entry args) ∧
      (frameCommand frame = none → kinds = [.reply, .account] ∧ keys = []) := by
  cases h : frameCommand frame with
  | none =>
      exact ⟨_, _, executeFrame_of_none h, fun _ _ h' => (by cases h'), fun _ => ⟨rfl, rfl⟩⟩
  | some c =>
      obtain ⟨entry, args⟩ := c
      obtain ⟨heq, he, ha, -⟩ := executeFrame_of_some h
      refine ⟨_, _, heq ▸ uses_runCommand he ha, fun entry' args' h' => ?_, fun h' => (by cases h')⟩
      obtain ⟨rfl, rfl⟩ := Prod.mk.inj (Option.some.inj h')
      exact ⟨rfl, rfl⟩

end Keva
