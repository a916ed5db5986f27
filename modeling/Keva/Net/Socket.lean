import Keva.Common.Types
import Keva.Lib.Buckets
import Keva.Lib.Ownership

/-!
# Sockets and their descriptors

A `Socket` owns a descriptor and closes it when it is destroyed. It can only be moved, and what it
was moved from owns nothing. Over everything that the server does with its sockets, the descriptors
that it has opened and not closed yet are those that its sockets own, each one by one socket, and no
descriptor is closed that is not its own.
-/

namespace Keva

open Ownership (Table)

/-- `fd` is `fd_`, and `none` is `INVALID_FD`. -/
structure Socket where
  fd : Option ℕ
  deriving DecidableEq

namespace Socket

def empty : Socket := ⟨none⟩

/-- The moved-to and the moved-from socket. -/
def move (other : Socket) : Socket × Socket := (⟨other.fd⟩, empty)

def closeFd (s : Socket) (t : Table ℕ) : Socket × Table ℕ :=
  match s.fd with
  | none => (s, t)
  | some fd => (empty, t.close fd)

/-- Move assignment from another socket. -/
def moveAssign (s other : Socket) (t : Table ℕ) : Socket × Socket × Table ℕ :=
  let (_, t) := s.closeFd t
  (⟨other.fd⟩, empty, t)

def destroy (s : Socket) (t : Table ℕ) : Table ℕ := (s.closeFd t).2

end Socket

/-- What the system calls of `create_server` answer, with the text of the error if they fail.
`getFlags` and `setFlags` are the two calls of `fcntl`. -/
structure ServerAnswers where
  socket : Except Bytes ℕ
  reuseAddr : Except Bytes Unit
  noDelay : Except Bytes Unit
  getFlags : Except Bytes Unit
  setFlags : Except Bytes Unit
  inetPton : Bool
  bind : Except Bytes Unit
  listen : Except Bytes Unit

namespace ServerAnswers

variable (a : ServerAnswers) (host : Bytes)

def setNonblocking : Except Bytes Unit := do
  a.getFlags
  a.setFlags

def address : Except Bytes Unit :=
  if host = ascii "0.0.0.0" ∨ host = [] then .ok ()
  else if a.inetPton then .ok ()
  else .error (ascii "Invalid bind address")

/-- `create_server` after the descriptor has been opened, up to the first call that fails. -/
def configure : Except Bytes Unit := do
  a.reuseAddr
  a.noDelay
  a.setNonblocking
  a.address host
  a.bind
  a.listen

end ServerAnswers

/-- `Socket::create_server`. However it ends, its local socket is destroyed. -/
def Socket.createServer (host : Bytes) (a : ServerAnswers) (t : Table ℕ) :
    (Socket × Except Bytes Unit) × Table ℕ :=
  match a.socket with
  | .error e => ((empty, .error e), t)
  | .ok fd =>
      let t := t.opened fd
      let sock : Socket := ⟨some fd⟩
      match a.configure host with
      | .error e => ((empty, .error e), sock.destroy t)
      | .ok () =>
          let (result, sock) := sock.move
          ((result, .ok ()), sock.destroy t)

/-- The sockets of a `TcpServer`: its own and, under their keys in `clients_`, those of its
connections. -/
structure ServerSockets where
  listenSocket : Socket
  clients : List (ℕ × Socket)

namespace ServerSockets

def init : ServerSockets := ⟨.empty, []⟩

variable (srv : ServerSockets) (t : Table ℕ)

def start (host : Bytes) (a : ServerAnswers) : Except Bytes Unit × ServerSockets × Table ℕ :=
  match Socket.createServer host a t with
  | ((sock, .error e), t) => (.error e, srv, sock.destroy t)
  | ((sock, .ok ()), t) =>
      let (listenSocket, sock, t) := srv.listenSocket.moveAssign sock t
      (.ok (), { srv with listenSocket := listenSocket }, sock.destroy t)

/-- One round of the accept loop. The socket is moved into the parameter of the constructor of
`Connection` and from there into the connection. A connection that does not get into `clients_` is
destroyed. -/
def onNewConnection (fd : ℕ) : ServerSockets × Table ℕ :=
  let t := t.opened fd
  let clientSock : Socket := ⟨some fd⟩
  let (param, clientSock) := clientSock.move
  let (socket, param) := param.move
  let t := clientSock.destroy (param.destroy t)
  match srv.clients.find? fun p => p.1 = fd with
  | none => ({ srv with clients := (fd, socket) :: srv.clients }, t)
  | some _ => (srv, socket.destroy t)

def closeConnection (fd : ℕ) : ServerSockets × Table ℕ :=
  match srv.clients.find? fun p => p.1 = fd with
  | none => (srv, t)
  | some (_, socket) =>
      ({ srv with clients := srv.clients.eraseP fun p => p.1 = fd }, socket.destroy t)

/-- All connections are destroyed, and the listening socket is kept. -/
def stop : ServerSockets × Table ℕ :=
  ({ srv with clients := [] }, srv.clients.foldl (fun t p => p.2.destroy t) t)

/-- The destructor of `TcpServer`. -/
def destroy : Table ℕ :=
  srv.listenSocket.destroy (srv.clients.foldl (fun t p => p.2.destroy t) t)

end ServerSockets

/-- What happens to the sockets of a server. A new descriptor is one that is not open; an answer
that the kernel cannot give is passed over. -/
inductive SocketEvent
  | start (host : Bytes) (a : ServerAnswers)
  | accept (fd : ℕ)
  | close (fd : ℕ)
  | stop

/-- The event loop accepts a connection or closes one. -/
def SocketEvent.ofClient : SocketEvent → Bool
  | .accept _ | .close _ => true
  | _ => false

def ServerSockets.handle (s : ServerSockets × Table ℕ) : SocketEvent → ServerSockets × Table ℕ
  | .start host a =>
      match a.socket with
      | .error _ => (s.1.start s.2 host a).2
      | .ok fd => if s.2.isOpen fd then s else (s.1.start s.2 host a).2
  | .accept fd => if s.2.isOpen fd then s else s.1.onNewConnection s.2 fd
  | .close fd => s.1.closeConnection s.2 fd
  | .stop => s.1.stop s.2

/-- The sockets of a server and the descriptors, of which others have opened `strangers`. -/
def ServerSockets.after (strangers : ℕ → Bool) (events : List SocketEvent) :
    ServerSockets × Table ℕ :=
  events.foldl handle (init, ⟨strangers, false⟩)

def Socket.held (s : Socket) : List ℕ := s.fd.toList

def ServerSockets.held (srv : ServerSockets) : List ℕ :=
  srv.listenSocket.held ++ srv.clients.flatMap fun p => p.2.held

/-- Each connection is found under the descriptor that it owns. -/
structure ServerSockets.Tidy (strangers : ℕ → Bool) (s : ServerSockets × Table ℕ) : Prop where
  owned : s.2.Owned strangers s.1.held
  keys : ∀ p ∈ s.1.clients, p.2.fd = some p.1

section

variable {strangers : ℕ → Bool} {t : Table ℕ} {held : List ℕ} {srv : ServerSockets} {fd : ℕ}

theorem Socket.owned_destroy {s : Socket} (h : t.Owned strangers (s.held ++ held)) :
    (s.destroy t).Owned strangers held := by
  obtain ⟨fd⟩ := s
  cases fd with
  | none => exact h
  | some fd => exact h.close

theorem Socket.owned_destroyAll {l : List (ℕ × Socket)}
    (h : t.Owned strangers ((l.flatMap fun p => p.2.held) ++ held)) :
    (l.foldl (fun t p => p.2.destroy t) t).Owned strangers held := by
  induction l generalizing t with
  | nil => exact h
  | cons p l ih =>
      rw [List.flatMap_cons, List.append_assoc] at h
      exact ih (owned_destroy h)

theorem Socket.owned_createServer (h : t.Owned strangers held) (host : Bytes) (a : ServerAnswers)
    (hfresh : ∀ fd, a.socket = .ok fd → t.isOpen fd = false) :
    (createServer host a t).2.Owned strangers ((createServer host a t).1.1.held ++ held) := by
  unfold createServer
  cases hsocket : a.socket with
  | error e => exact h
  | ok fd =>
      have hopened := h.opened (hfresh fd hsocket)
      dsimp only
      cases a.configure host with
      | error e => exact hopened.close
      | ok u => exact hopened

namespace ServerSockets

theorem owned_start (h : t.Owned strangers srv.held) (host : Bytes) (a : ServerAnswers)
    (hfresh : ∀ fd, a.socket = .ok fd → t.isOpen fd = false) :
    (srv.start t host a).2.2.Owned strangers (srv.start t host a).2.1.held := by
  have hcreate := Socket.owned_createServer h host a hfresh
  unfold start
  generalize Socket.createServer host a t = r at hcreate ⊢
  obtain ⟨⟨sock, status⟩, t'⟩ := r
  cases status with
  | error e => exact Socket.owned_destroy hcreate
  | ok u =>
      -- the old listening socket is closed, and the new one takes its place
      have hswap : (sock.held ++ srv.held).Perm
          (srv.listenSocket.held ++ (sock.held ++ srv.clients.flatMap fun p => p.2.held)) := by
        rw [held, ← List.append_assoc, ← List.append_assoc]
        exact List.perm_append_comm.append_right _
      have hassigned : (srv.listenSocket.closeFd t').2.Owned strangers
          (sock.held ++ srv.clients.flatMap fun p => p.2.held) :=
        Socket.owned_destroy (hcreate.perm hswap)
      exact hassigned

theorem find?_eq_none_of_fresh (h : Tidy strangers (srv, t)) (hfresh : t.isOpen fd = false) :
    (srv.clients.find? fun p => p.1 = fd) = none := by
  rw [List.find?_eq_none]
  intro p hp
  have hheld : p.1 ∈ srv.held := by
    refine List.mem_append_right _ (List.mem_flatMap.mpr ⟨p, hp, ?_⟩)
    rw [Socket.held, h.keys p hp]
    exact List.mem_singleton_self _
  have hopen : t.isOpen p.1 = true := (h.owned.isOpen p.1).mpr (.inr hheld)
  rw [decide_eq_true_eq]
  rintro rfl
  rw [hfresh] at hopen
  cases hopen

theorem onNewConnection_of_fresh (h : Tidy strangers (srv, t)) (hfresh : t.isOpen fd = false) :
    srv.onNewConnection t fd =
      ({ srv with clients := (fd, ⟨some fd⟩) :: srv.clients }, t.opened fd) := by
  have hfind := find?_eq_none_of_fresh h hfresh
  unfold onNewConnection
  dsimp only
  rw [hfind]
  rfl

theorem tidy_onNewConnection (h : Tidy strangers (srv, t)) (hfresh : t.isOpen fd = false) :
    Tidy strangers (srv.onNewConnection t fd) := by
  rw [onNewConnection_of_fresh h hfresh]
  constructor
  · exact (h.owned.opened hfresh).perm List.perm_middle.symm
  · intro p hp
    rcases List.mem_cons.mp hp with rfl | hp
    · rfl
    · exact h.keys p hp

theorem tidy_closeConnection (h : Tidy strangers (srv, t)) (fd : ℕ) :
    Tidy strangers (srv.closeConnection t fd) := by
  unfold closeConnection
  split
  · exact h
  · rename_i fd' socket hfind
    have hperm := Buckets.perm_eraseP_of_find? hfind
    constructor
    · have hheld : srv.held.Perm (socket.held ++ (srv.listenSocket.held ++
          (srv.clients.eraseP fun p => p.1 = fd).flatMap fun p => p.2.held)) := by
        rw [← List.append_assoc]
        refine (hperm.flatMap_right _).append_left _ |>.trans ?_
        rw [List.flatMap_cons, ← List.append_assoc]
        exact List.perm_append_comm.append_right _
      exact Socket.owned_destroy (h.owned.perm hheld)
    · intro p hp
      exact h.keys p (List.mem_of_mem_eraseP hp)

theorem tidy_stop (h : Tidy strangers (srv, t)) : Tidy strangers (srv.stop t) := by
  constructor
  · have hheld : srv.held.Perm ((srv.clients.flatMap fun p => p.2.held) ++
        srv.listenSocket.held) := List.perm_append_comm
    have hclosed := Socket.owned_destroyAll (h.owned.perm hheld)
    rwa [← List.append_nil srv.listenSocket.held] at hclosed
  · intro p hp
    cases hp

theorem tidy_handle {s : ServerSockets × Table ℕ} (h : Tidy strangers s) (e : SocketEvent) :
    Tidy strangers (handle s e) := by
  obtain ⟨srv, t⟩ := s
  cases e with
  | start host a =>
      have hstart : (∀ fd, a.socket = .ok fd → t.isOpen fd = false) →
          Tidy strangers (srv.start t host a).2 := by
        intro hfresh
        refine ⟨owned_start h.owned host a hfresh, fun p hp => h.keys p ?_⟩
        unfold start at hp
        split at hp <;> exact hp
      rw [handle]
      cases hsocket : a.socket with
      | error e =>
          apply hstart
          intro fd hfd
          rw [hsocket] at hfd
          cases hfd
      | ok fd =>
          dsimp only
          split_ifs with hopen
          · exact h
          · apply hstart
            intro fd' hfd'
            obtain rfl : fd = fd' := Except.ok.inj (hsocket.symm.trans hfd')
            exact Bool.eq_false_iff.mpr hopen
  | accept fd =>
      rw [handle]
      split_ifs with hopen
      · exact h
      · exact tidy_onNewConnection h (Bool.eq_false_iff.mpr hopen)
  | close fd => exact tidy_closeConnection h fd
  | stop => exact tidy_stop h

theorem tidy_init (strangers : ℕ → Bool) : Tidy strangers (init, ⟨strangers, false⟩) where
  owned := .of_strangers strangers
  keys p hp := by cases hp

theorem tidy_after (strangers : ℕ → Bool) (events : List SocketEvent) :
    Tidy strangers (after strangers events) := by
  induction events using List.reverseRecOn with
  | nil => exact tidy_init strangers
  | append_singleton events e ih =>
      rw [after, List.foldl_append]
      exact tidy_handle ih e

namespace Tidy

variable {s : ServerSockets × Table ℕ}

theorem flatMap_held (h : Tidy strangers s) :
    (s.1.clients.flatMap fun p => p.2.held) = s.1.clients.map Prod.fst := by
  have hkeys := h.keys
  generalize s.1.clients = l at hkeys
  induction l with
  | nil => rfl
  | cons p l ih =>
      rw [List.flatMap_cons, List.map_cons, ih fun q hq => hkeys q (.tail p hq), Socket.held,
        hkeys p List.mem_cons_self]
      rfl

theorem isOpen_iff (h : Tidy strangers s) (fd : ℕ) : s.2.isOpen fd = true ↔
    strangers fd = true ∨ s.1.listenSocket.fd = some fd ∨ fd ∈ s.1.clients.map Prod.fst := by
  rw [h.owned.isOpen, held, List.mem_append, h.flatMap_held, Socket.held, Option.mem_toList]

theorem destroy_eq (h : Tidy strangers s) : s.1.destroy s.2 = ⟨strangers, false⟩ := by
  have hheld : s.1.held.Perm ((s.1.clients.flatMap fun p => p.2.held) ++
      (s.1.listenSocket.held ++ [])) := by
    rw [List.append_nil]
    exact List.perm_append_comm
  have hend := Socket.owned_destroy (Socket.owned_destroyAll (h.owned.perm hheld))
  rw [destroy, ← hend.isOpen_eq, ← hend.sound]

theorem nodup_keys (h : Tidy strangers s) : (s.1.clients.map Prod.fst).Nodup := by
  rw [← h.flatMap_held]
  exact h.owned.nodup.of_append_right

theorem mem_keys_accept (h : Tidy strangers s) (fd fd' : ℕ) :
    fd' ∈ (handle s (.accept fd)).1.clients.map Prod.fst ↔
      fd' ∈ s.1.clients.map Prod.fst ∨ s.2.isOpen fd = false ∧ fd' = fd := by
  obtain ⟨srv, t⟩ := s
  rw [handle]
  split_ifs with hopen
  · have hbusy : t.isOpen fd = true := hopen
    simp [hbusy]
  · have hfresh : t.isOpen fd = false := Bool.eq_false_iff.mpr hopen
    rw [onNewConnection_of_fresh h hfresh]
    simp [hfresh, or_comm]

theorem mem_keys_close (h : Tidy strangers s) (fd fd' : ℕ) :
    fd' ∈ (handle s (.close fd)).1.clients.map Prod.fst ↔
      fd' ∈ s.1.clients.map Prod.fst ∧ fd' ≠ fd := by
  obtain ⟨srv, t⟩ := s
  rw [handle, closeConnection]
  split
  · rename_i hnone
    have hne : fd' ∈ srv.clients.map Prod.fst → fd' ≠ fd := by
      intro hmem heq
      obtain ⟨p, hp, hfst⟩ := List.mem_map.mp hmem
      simpa [hfst, heq] using List.find?_eq_none.mp hnone p hp
    exact ⟨fun hmem => ⟨hmem, hne hmem⟩, And.left⟩
  · rename_i fd₀ socket hfind
    obtain rfl : fd₀ = fd := by simpa using List.find?_some hfind
    have hperm := (Buckets.perm_eraseP_of_find? hfind).map Prod.fst
    have hnodup := hperm.nodup_iff.mp h.nodup_keys
    rw [List.map_cons, List.nodup_cons] at hnodup
    rw [hperm.mem_iff, List.map_cons, List.mem_cons]
    constructor
    · rintro hmem
      exact ⟨.inr hmem, fun heq => hnodup.1 (heq ▸ hmem)⟩
    · rintro ⟨rfl | hmem, hne⟩
      · exact absurd rfl hne
      · exact hmem

end Tidy

/-- Whatever the server does with its sockets and whichever system calls fail: the descriptors that
are open are those of others, that of the listening socket and those of the connections, no two of
which own the same; no descriptor is closed that is not open; and when the server is destroyed, just
the descriptors of others are open. -/
theorem descriptors_owned (strangers : ℕ → Bool) (events : List SocketEvent) :
    let s := after strangers events
    (∀ fd, s.2.isOpen fd = true ↔ strangers fd = true ∨ s.1.listenSocket.fd = some fd ∨
        fd ∈ s.1.clients.map Prod.fst) ∧
      s.1.held.Nodup ∧ (∀ fd ∈ s.1.held, strangers fd = false) ∧ s.2.misclosed = false ∧
        s.1.destroy s.2 = ⟨strangers, false⟩ := by
  intro s
  have h : Tidy strangers s := tidy_after strangers events
  exact ⟨h.isOpen_iff, h.owned.nodup, h.owned.apart, h.owned.sound, h.destroy_eq⟩

end ServerSockets

end

end Keva
