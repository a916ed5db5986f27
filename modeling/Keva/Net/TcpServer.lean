import Keva.Command.Dispatch
import Mathlib.Logic.Function.Basic

/-!
# The server's connections

`clients` are the connections by file descriptor, `handlers` tells which callbacks the event loop
has for it, and `interest` is what the kernel has been asked to report about it. An event comes
with the answers that the kernel gives while it is handled, with the clock readings of the commands
it runs, and with the session in which it finds the server, so that other connections may do
anything in between.
-/

namespace Keva

open Function (update)

structure IoHandlers where
  onReadable : Bool
  onWritable : Bool

/-- The flags `EPOLLIN` and `EPOLLOUT` of a registered descriptor. -/
structure Interest where
  epollIn : Bool
  epollOut : Bool

structure TcpServer where
  clients : ℕ → Option Connection
  handlers : ℕ → Option IoHandlers
  interest : ℕ → Option Interest

structure ReadableEvent where
  reads : Reads
  writes : Writes
  env : ℕ → World
  session : Session

inductive ClientEvent
  | readable (e : ReadableEvent)
  | writable (w : Writes)

namespace TcpServer

variable (server : TcpServer) (fd : ℕ)

/-- `EPOLL_CTL_ADD` fails on a descriptor that is registered. -/
def epollAdd (events : Interest) : Option TcpServer :=
  match server.interest fd with
  | none => some { server with interest := update server.interest fd (some events) }
  | some _ => none

/-- `EPOLL_CTL_MOD` fails on a descriptor that is not registered. -/
def epollMod (events : Interest) : Option TcpServer :=
  match server.interest fd with
  | none => none
  | some _ => some { server with interest := update server.interest fd (some events) }

def epollDel : TcpServer := { server with interest := update server.interest fd none }

/-- Try ADD first; if that fails, MOD. -/
def epollAddOrMod (events : Interest) : TcpServer :=
  match server.epollAdd fd events with
  | some server => server
  | none => (server.epollMod fd events).getD server

def handlersOf : IoHandlers := (server.handlers fd).getD ⟨false, false⟩

def setHandlers (h : IoHandlers) : TcpServer :=
  { server with handlers := update server.handlers fd (some h) }

def addReadable : TcpServer :=
  let h := { server.handlersOf fd with onReadable := true }
  (server.setHandlers fd h).epollAddOrMod fd ⟨true, h.onWritable⟩

def addWritable : TcpServer :=
  let h := { server.handlersOf fd with onWritable := true }
  (server.setHandlers fd h).epollAddOrMod fd ⟨h.onReadable, true⟩

def remove : TcpServer :=
  TcpServer.epollDel { server with handlers := update server.handlers fd none } fd

def removeWritable : TcpServer :=
  match server.handlers fd with
  | none => server
  | some h =>
      let server := server.setHandlers fd { h with onWritable := false }
      if h.onReadable then (server.epollMod fd ⟨true, false⟩).getD server else server.remove fd

def setClient (c : Connection) : TcpServer :=
  { server with clients := update server.clients fd (some c) }

/-- A new connection accepted under `fd`. -/
def onNewConnection : TcpServer := (server.addReadable fd).setClient fd Connection.accepted

def closeConnection : TcpServer :=
  { server.remove fd with clients := update server.clients fd none }

/-- What `on_client_readable` does after dispatch: flush, wait for writability, close. -/
def flushAfterDispatch (c : Connection) (w : Writes) : TcpServer :=
  let c' := if c.hasPendingWrites then c.flushWriteBuffer w else c
  let server := if c'.hasPendingWrites then server.addWritable fd else server
  if c'.isClosed then (server.setClient fd c').closeConnection fd else server.setClient fd c'

/-- The steps of dispatch, and the server afterwards unless the process ends. -/
def onClientReadable (e : ReadableEvent) : List DispatchStep × Option TcpServer :=
  match server.clients fd with
  | none => ([], some server)
  | some c =>
      let (n, c) := c.fillReadBuffer e.reads
      if n ≤ 0 then ([], some (server.closeConnection fd))
      else
        let (steps, result) := dispatch e.env c e.session
        (steps, result.map fun (c, _) => server.flushAfterDispatch fd c e.writes)

def onClientWritable (w : Writes) : TcpServer :=
  match server.clients fd with
  | none => server
  | some c =>
      let c := c.flushWriteBuffer w
      let server := if c.hasPendingWrites then server else server.removeWritable fd
      if c.isClosed then (server.setClient fd c).closeConnection fd else server.setClient fd c

def onClientEvent : ClientEvent → List DispatchStep × Option TcpServer
  | .readable e => server.onClientReadable fd e
  | .writable w => ([], some (server.onClientWritable fd w))

end TcpServer

/-- The steps that dispatch takes in a sequence of events on `fd`. -/
def TcpServer.serve (fd : ℕ) : List ClientEvent → TcpServer → List DispatchStep × Option TcpServer
  | [], server => ([], some server)
  | e :: events, server =>
      match server.onClientEvent fd e with
      | (steps, none) => (steps, none)
      | (steps, some server) =>
          let (steps', result) := serve fd events server
          (steps ++ steps', result)

/-- `P` holds of every event and the server that it finds. -/
def TcpServer.Along (fd : ℕ) (P : TcpServer → ClientEvent → Prop) :
    List ClientEvent → TcpServer → Prop
  | [], _ => True
  | e :: events, server =>
      P server e ∧ ∀ server', (server.onClientEvent fd e).2 = some server' →
        Along fd P events server'

/-- At least one byte arrives and then nothing more for the moment. -/
structure Reads.Delivers (r : Reads) : Prop where
  chunks : r.chunks ≠ []
  ending : r.ending = .wouldBlock

theorem Reads.bytes_eq_nil_iff {r : Reads} : r.bytes = [] ↔ r.chunks = [] := by
  unfold bytes
  rw [List.flatMap_eq_nil_iff]
  constructor
  · intro h
    cases hc : r.chunks with
    | nil => rfl
    | cons chunk chunks => exact absurd (h chunk (hc ▸ List.mem_cons_self)) chunk.nonempty
  · rintro h chunk hchunk
    rw [h] at hchunk
    cases hchunk

theorem Connection.count_pos_iff (c : Connection) {r : Reads} :
    0 < (c.fillReadBuffer r).1 ↔ r.Delivers := by
  obtain ⟨-, hblock, hclose⟩ := fillReadBuffer_spec c r
  constructor
  · intro h
    have hending : r.ending = .wouldBlock := by
      by_contra hne
      have := hclose hne
      omega
    refine ⟨fun hnil => ?_, hending⟩
    rw [(hblock hending).1, Reads.bytes_eq_nil_iff.mpr hnil] at h
    exact absurd h (by decide)
  · rintro ⟨hchunks, hending⟩
    rw [(hblock hending).1]
    have hpos := List.length_pos_iff.mpr (mt Reads.bytes_eq_nil_iff.mp hchunks)
    omega

namespace TcpServer

variable {server : TcpServer} {fd : ℕ} {c : Connection}

@[simp] theorem clients_setClient (server : TcpServer) (fd : ℕ) (c : Connection) :
    (server.setClient fd c).clients fd = some c := Function.update_self ..

@[simp] theorem clients_closeConnection (server : TcpServer) (fd : ℕ) :
    (server.closeConnection fd).clients fd = none := Function.update_self ..

theorem onClientReadable_of_not_delivers {e : ReadableEvent} (hc : server.clients fd = some c)
    (he : ¬ e.reads.Delivers) :
    server.onClientReadable fd e = ([], some (server.closeConnection fd)) := by
  rw [← c.count_pos_iff] at he
  unfold onClientReadable
  rw [hc]
  dsimp only
  rw [if_pos (by omega)]

theorem onClientReadable_of_delivers {e : ReadableEvent} (hc : server.clients fd = some c)
    (he : e.reads.Delivers) :
    server.onClientReadable fd e =
      ((dispatch e.env (c.fillReadBuffer e.reads).2 e.session).1,
        (dispatch e.env (c.fillReadBuffer e.reads).2 e.session).2.map fun (c, _) =>
          server.flushAfterDispatch fd c e.writes) := by
  rw [← c.count_pos_iff] at he
  unfold onClientReadable
  rw [hc]
  dsimp only
  rw [if_neg (by omega)]

theorem clients_flushAfterDispatch (server : TcpServer) (fd : ℕ) (c : Connection) (w : Writes) :
    ∃ c', c.Flushed w c' ∧ (server.flushAfterDispatch fd c w).clients fd =
      if c'.isClosed then none else some c' := by
  unfold flushAfterDispatch
  dsimp only
  by_cases hp : c.hasPendingWrites
  · refine ⟨c.flushWriteBuffer w, c.flushed_flushWriteBuffer w, ?_⟩
    rw [if_pos hp]
    split_ifs
    all_goals simp
  · refine ⟨c, c.flushed_self hp w, ?_⟩
    rw [if_neg hp, if_neg hp]
    split_ifs
    all_goals simp

theorem clients_onClientWritable (hc : server.clients fd = some c) (w : Writes) :
    ∃ c', c.Flushed w c' ∧ (server.onClientWritable fd w).clients fd =
      if c'.isClosed then none else some c' := by
  refine ⟨c.flushWriteBuffer w, c.flushed_flushWriteBuffer w, ?_⟩
  unfold onClientWritable
  rw [hc]
  dsimp only
  split_ifs
  all_goals simp

theorem onClientEvent_of_none (h : server.clients fd = none) (e : ClientEvent) :
    server.onClientEvent fd e = ([], some server) := by
  cases e with
  | readable e =>
      unfold onClientEvent onClientReadable
      rw [h]
  | writable w =>
      unfold onClientEvent onClientWritable
      rw [h]

theorem serve_cons {server' : TcpServer} {e : ClientEvent}
    (h : (server.onClientEvent fd e).2 = some server') (events : List ClientEvent) :
    serve fd (e :: events) server =
      ((server.onClientEvent fd e).1 ++ (serve fd events server').1,
        (serve fd events server').2) := by
  rw [serve, ← Prod.mk.eta (p := server.onClientEvent fd e), h]

theorem serve_cons_of_none {e : ClientEvent} (h : (server.onClientEvent fd e).2 = none)
    (events : List ClientEvent) :
    serve fd (e :: events) server = ((server.onClientEvent fd e).1, none) := by
  rw [serve, ← Prod.mk.eta (p := server.onClientEvent fd e), h]

theorem along_cons {server' : TcpServer} {e : ClientEvent} {P : TcpServer → ClientEvent → Prop}
    (h : (server.onClientEvent fd e).2 = some server') (events : List ClientEvent) :
    Along fd P (e :: events) server ↔ P server e ∧ Along fd P events server' := by
  rw [Along, h]
  constructor
  · rintro ⟨hp, hrest⟩
    exact ⟨hp, hrest server' rfl⟩
  · rintro ⟨hp, hrest⟩
    refine ⟨hp, fun server'' heq => ?_⟩
    rw [← Option.some.inj heq]
    exact hrest

theorem serve_of_none (h : server.clients fd = none) (events : List ClientEvent) :
    serve fd events server = ([], some server) := by
  induction events with
  | nil => rfl
  | cons e events ih =>
      have hevent := onClientEvent_of_none h e
      rw [serve_cons (congrArg Prod.snd hevent), hevent, ih]
      rfl

theorem along_of_none {P : TcpServer → ClientEvent → Prop}
    (hP : ∀ server event, server.clients fd = none → P server event)
    (h : server.clients fd = none) (events : List ClientEvent) : Along fd P events server := by
  induction events with
  | nil => trivial
  | cons e events ih =>
      rw [along_cons (congrArg Prod.snd (onClientEvent_of_none h e))]
      exact ⟨hP server e h, ih⟩

end TcpServer

end Keva
