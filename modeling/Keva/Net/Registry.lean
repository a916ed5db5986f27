import Keva.Net.TcpServer
import Mathlib.Logic.Relation

/-!
# The registries of the network layer agree

A connection is known in three places: in `clients_`, in the event loop's `handlers_` and in the
kernel's interest set. `Wired` says how the three entries of a descriptor fit together between
events; what happens on one descriptor leaves the entries of the others alone.
-/

namespace Keva

open Function (update)

/-- The event mask that `epoll_wait` reports for a descriptor. -/
structure EventMask where
  error : Bool
  input : Bool
  output : Bool

namespace TcpServer

/-- The call of the readable callback, if it is asked for and set. No result means that the process
has ended. -/
def callReadable (server : TcpServer) (fd : ℕ) (asked : Bool) (e : ReadableEvent) :
    Option TcpServer :=
  match server.handlers fd with
  | none => some server
  | some h => if asked && h.onReadable then (server.onClientReadable fd e).2 else some server

def callWritable (server : TcpServer) (fd : ℕ) (asked : Bool) (w : Writes) : TcpServer :=
  match server.handlers fd with
  | none => server
  | some h => if asked && h.onWritable then server.onClientWritable fd w else server

/-- One round of the loop in `EventLoop::run`: an error is handed to the readable callback,
otherwise the readable callback comes first and the handlers are looked up again for the writable
one. -/
def dispatchReady (server : TcpServer) (fd : ℕ) (mask : EventMask) (e : ReadableEvent)
    (w : Writes) : Option TcpServer :=
  if mask.error then server.callReadable fd true e
  else (server.callReadable fd mask.input e).map fun server => server.callWritable fd mask.output w

/-- The server before the first connection. The descriptors in `own` are those that it listens on:
the socket for new connections and the pipe for signals. -/
def listening (own : Set ℕ) [DecidablePred (· ∈ own)] : TcpServer where
  clients _ := none
  handlers fd := if fd ∈ own then some ⟨true, false⟩ else none
  interest fd := if fd ∈ own then some ⟨true, false⟩ else none

/-- A connection is accepted under a descriptor that is not in use, or a client's descriptor is
ready. -/
inductive Step (own : Set ℕ) : TcpServer → TcpServer → Prop
  | accept {server : TcpServer} {fd : ℕ} (hown : fd ∉ own) (hfree : server.clients fd = none) :
      Step own server (server.onNewConnection fd)
  | ready {server server' : TcpServer} {fd : ℕ} {mask : EventMask} {e : ReadableEvent}
      {w : Writes} (hown : fd ∉ own) (h : server.dispatchReady fd mask e w = some server') :
      Step own server server'

variable {server server' : TcpServer} {fd : ℕ}

/-- How the entries of a client's descriptor fit together: it is registered exactly while there is a
connection, it is always read from, and it waits for writability if bytes are left. -/
structure Wired (client : Option Connection) (handlers : Option IoHandlers)
    (interest : Option Interest) : Prop where
  interest_eq : interest = handlers.map fun h => ⟨h.onReadable, h.onWritable⟩
  free : client = none → handlers = none
  connected : ∀ c, client = some c →
    ∃ h, handlers = some h ∧ h.onReadable = true ∧ (c.hasPendingWrites = true → h.onWritable = true)

def WiredAt (server : TcpServer) (fd : ℕ) : Prop :=
  Wired (server.clients fd) (server.handlers fd) (server.interest fd)

theorem wired_free : Wired none none none :=
  ⟨rfl, fun _ => rfl, fun c hc => by cases hc⟩

theorem wired_connected {c : Connection} {writable : Bool}
    (h : c.hasPendingWrites = true → writable = true) :
    Wired (some c) (some ⟨true, writable⟩) (some ⟨true, writable⟩) := by
  refine ⟨rfl, fun hc => ?_, fun c' hc => ⟨⟨true, writable⟩, rfl, rfl, ?_⟩⟩
  · cases hc
  · obtain rfl := Option.some.inj hc
    exact h

theorem WiredAt.of_connected {c : Connection} (h : server.WiredAt fd)
    (hc : server.clients fd = some c) :
    ∃ writable, server.handlers fd = some ⟨true, writable⟩ ∧
      server.interest fd = some ⟨true, writable⟩ ∧
      (c.hasPendingWrites = true → writable = true) := by
  obtain ⟨⟨readable, writable⟩, hh, rfl, hw⟩ := h.connected c hc
  refine ⟨writable, hh, ?_, hw⟩
  rw [h.interest_eq, hh]
  rfl

/-- Nothing is different about the other descriptors. -/
structure SameElsewhere (fd : ℕ) (server server' : TcpServer) : Prop where
  clients : ∀ j, j ≠ fd → server'.clients j = server.clients j
  handlers : ∀ j, j ≠ fd → server'.handlers j = server.handlers j
  interest : ∀ j, j ≠ fd → server'.interest j = server.interest j

namespace SameElsewhere

theorem refl (fd : ℕ) (server : TcpServer) : SameElsewhere fd server server :=
  ⟨fun _ _ => rfl, fun _ _ => rfl, fun _ _ => rfl⟩

theorem trans {server₁ server₂ server₃ : TcpServer} (h : SameElsewhere fd server₁ server₂)
    (h' : SameElsewhere fd server₂ server₃) : SameElsewhere fd server₁ server₃ where
  clients j hj := (h'.clients j hj).trans (h.clients j hj)
  handlers j hj := (h'.handlers j hj).trans (h.handlers j hj)
  interest j hj := (h'.interest j hj).trans (h.interest j hj)

theorem wiredAt {j : ℕ} (h : SameElsewhere fd server server') (hj : j ≠ fd) :
    server'.WiredAt j ↔ server.WiredAt j := by
  unfold WiredAt
  rw [h.clients j hj, h.handlers j hj, h.interest j hj]

end SameElsewhere

theorem epollAddOrMod_eq (server : TcpServer) (fd : ℕ) (events : Interest) :
    server.epollAddOrMod fd events =
      { server with interest := update server.interest fd (some events) } := by
  unfold epollAddOrMod epollAdd epollMod
  cases server.interest fd <;> rfl

theorem sameElsewhere_setClient (server : TcpServer) (fd : ℕ) (c : Connection) :
    SameElsewhere fd server (server.setClient fd c) :=
  ⟨fun _ hj => Function.update_of_ne hj _ _, fun _ _ => rfl, fun _ _ => rfl⟩

theorem sameElsewhere_closeConnection (server : TcpServer) (fd : ℕ) :
    SameElsewhere fd server (server.closeConnection fd) :=
  ⟨fun _ hj => Function.update_of_ne hj _ _, fun _ hj => Function.update_of_ne hj _ _,
    fun _ hj => Function.update_of_ne hj _ _⟩

theorem wiredAt_closeConnection (server : TcpServer) (fd : ℕ) :
    (server.closeConnection fd).WiredAt fd := by
  unfold WiredAt closeConnection remove epollDel
  dsimp only
  rw [Function.update_self, Function.update_self, Function.update_self]
  exact wired_free

theorem sameElsewhere_addReadable (server : TcpServer) (fd : ℕ) :
    SameElsewhere fd server (server.addReadable fd) := by
  unfold addReadable
  rw [epollAddOrMod_eq]
  exact ⟨fun _ _ => rfl, fun _ hj => Function.update_of_ne hj _ _,
    fun _ hj => Function.update_of_ne hj _ _⟩

theorem sameElsewhere_addWritable (server : TcpServer) (fd : ℕ) :
    SameElsewhere fd server (server.addWritable fd) := by
  unfold addWritable
  rw [epollAddOrMod_eq]
  exact ⟨fun _ _ => rfl, fun _ hj => Function.update_of_ne hj _ _,
    fun _ hj => Function.update_of_ne hj _ _⟩

/-- Waiting for writability: ADD fails on the registered descriptor and MOD does it. -/
theorem addWritable_entries {writable : Bool}
    (hh : server.handlers fd = some ⟨true, writable⟩) :
    (server.addWritable fd).handlers fd = some ⟨true, true⟩ ∧
      (server.addWritable fd).interest fd = some ⟨true, true⟩ := by
  unfold addWritable handlersOf
  rw [hh, epollAddOrMod_eq]
  exact ⟨Function.update_self .., Function.update_self ..⟩

theorem removeWritable_spec {writable : Bool} (hh : server.handlers fd = some ⟨true, writable⟩)
    (hi : server.interest fd = some ⟨true, writable⟩) :
    (server.removeWritable fd).handlers fd = some ⟨true, false⟩ ∧
      (server.removeWritable fd).interest fd = some ⟨true, false⟩ ∧
      SameElsewhere fd server (server.removeWritable fd) := by
  have heq : server.removeWritable fd =
      { server with
        handlers := update server.handlers fd (some ⟨true, false⟩)
        interest := update server.interest fd (some ⟨true, false⟩) } := by
    unfold removeWritable epollMod setHandlers
    rw [hh]
    dsimp only
    rw [hi]
    rfl
  rw [heq]
  exact ⟨Function.update_self .., Function.update_self .., fun _ _ => rfl,
    fun _ hj => Function.update_of_ne hj _ _, fun _ hj => Function.update_of_ne hj _ _⟩

theorem onNewConnection_spec (h : server.WiredAt fd) (hfree : server.clients fd = none) :
    (server.onNewConnection fd).WiredAt fd ∧
      SameElsewhere fd server (server.onNewConnection fd) := by
  refine ⟨?_, (sameElsewhere_addReadable server fd).trans (sameElsewhere_setClient _ fd _)⟩
  unfold WiredAt onNewConnection setClient addReadable handlersOf
  rw [h.free hfree, epollAddOrMod_eq]
  unfold setHandlers
  dsimp only
  rw [Function.update_self, Function.update_self, Function.update_self]
  exact wired_connected (fun hpending => by cases hpending)

/-- The tail of both event handlers: a connection that has been closed is taken out everywhere, any
other is put back. -/
theorem wiredAt_putBack {c : Connection} {writable : Bool}
    (hh : server.handlers fd = some ⟨true, writable⟩)
    (hi : server.interest fd = some ⟨true, writable⟩)
    (hw : c.hasPendingWrites = true → writable = true) :
    let result :=
      if c.isClosed then (server.setClient fd c).closeConnection fd else server.setClient fd c
    result.WiredAt fd ∧ SameElsewhere fd server result := by
  intro result
  have hset := sameElsewhere_setClient server fd c
  cases hclosed : c.isClosed with
  | true =>
      have hresult : result = (server.setClient fd c).closeConnection fd := if_pos hclosed
      rw [hresult]
      exact ⟨wiredAt_closeConnection _ fd, hset.trans (sameElsewhere_closeConnection _ fd)⟩
  | false =>
      have hresult : result = server.setClient fd c := if_neg (by simp [hclosed])
      rw [hresult]
      refine ⟨?_, hset⟩
      unfold WiredAt
      rw [clients_setClient]
      change Wired (some c) (server.handlers fd) (server.interest fd)
      rw [hh, hi]
      exact wired_connected hw

theorem flushAfterDispatch_spec {writable : Bool} (c : Connection) (w : Writes)
    (hh : server.handlers fd = some ⟨true, writable⟩)
    (hi : server.interest fd = some ⟨true, writable⟩) :
    (server.flushAfterDispatch fd c w).WiredAt fd ∧
      SameElsewhere fd server (server.flushAfterDispatch fd c w) := by
  unfold flushAfterDispatch
  generalize (if c.hasPendingWrites = true then c.flushWriteBuffer w else c) = c'
  by_cases hpending : c'.hasPendingWrites = true
  · obtain ⟨hh', hi'⟩ := addWritable_entries hh
    dsimp only
    rw [if_pos hpending]
    obtain ⟨hwired, hsame⟩ := wiredAt_putBack hh' hi' (fun _ => rfl)
    exact ⟨hwired, (sameElsewhere_addWritable server fd).trans hsame⟩
  · dsimp only
    rw [if_neg hpending]
    exact wiredAt_putBack hh hi (fun hp => absurd hp hpending)

theorem onClientReadable_wired {e : ReadableEvent} (h : server.WiredAt fd)
    (hserver' : (server.onClientReadable fd e).2 = some server') :
    server'.WiredAt fd ∧ SameElsewhere fd server server' := by
  cases hc : server.clients fd with
  | none =>
      unfold onClientReadable at hserver'
      rw [hc] at hserver'
      obtain rfl := Option.some.inj hserver'
      exact ⟨h, .refl fd server⟩
  | some c =>
      by_cases he : e.reads.Delivers
      · rw [onClientReadable_of_delivers hc he] at hserver'
        obtain ⟨r, -, rfl⟩ := Option.map_eq_some_iff.mp hserver'
        obtain ⟨writable, hh, hi, -⟩ := h.of_connected hc
        exact flushAfterDispatch_spec r.1 e.writes hh hi
      · rw [onClientReadable_of_not_delivers hc he] at hserver'
        obtain rfl := Option.some.inj hserver'
        exact ⟨wiredAt_closeConnection server fd, sameElsewhere_closeConnection server fd⟩

theorem onClientWritable_wired (h : server.WiredAt fd) (w : Writes) :
    (server.onClientWritable fd w).WiredAt fd ∧
      SameElsewhere fd server (server.onClientWritable fd w) := by
  unfold onClientWritable
  cases hc : server.clients fd with
  | none => exact ⟨h, .refl fd server⟩
  | some c =>
      obtain ⟨writable, hh, hi, hw⟩ := h.of_connected hc
      dsimp only
      by_cases hpending : (c.flushWriteBuffer w).hasPendingWrites = true
      · rw [if_pos hpending]
        -- bytes are left only if there were some before, so the callback is already there
        have hbefore : c.hasPendingWrites = true := by
          have hflushed := (c.flushed_flushWriteBuffer w).pending
          rw [Connection.hasPendingWrites_iff] at hpending ⊢
          omega
        exact wiredAt_putBack hh hi (fun _ => hw hbefore)
      · rw [if_neg hpending]
        obtain ⟨hh', hi', hsame⟩ := removeWritable_spec hh hi
        obtain ⟨hwired, hsame'⟩ := wiredAt_putBack hh' hi' (fun hp => absurd hp hpending)
        exact ⟨hwired, hsame.trans hsame'⟩

theorem callReadable_wired {asked : Bool} {e : ReadableEvent} (h : server.WiredAt fd)
    (hserver' : server.callReadable fd asked e = some server') :
    server'.WiredAt fd ∧ SameElsewhere fd server server' := by
  unfold callReadable at hserver'
  split at hserver'
  · obtain rfl := Option.some.inj hserver'
    exact ⟨h, .refl fd server⟩
  · split_ifs at hserver'
    · exact onClientReadable_wired h hserver'
    · obtain rfl := Option.some.inj hserver'
      exact ⟨h, .refl fd server⟩

theorem callWritable_wired (h : server.WiredAt fd) (asked : Bool) (w : Writes) :
    (server.callWritable fd asked w).WiredAt fd ∧
      SameElsewhere fd server (server.callWritable fd asked w) := by
  unfold callWritable
  split
  · exact ⟨h, .refl fd server⟩
  · split_ifs
    · exact onClientWritable_wired h w
    · exact ⟨h, .refl fd server⟩

theorem dispatchReady_wired {mask : EventMask} {e : ReadableEvent} {w : Writes}
    (h : server.WiredAt fd) (hserver' : server.dispatchReady fd mask e w = some server') :
    server'.WiredAt fd ∧ SameElsewhere fd server server' := by
  unfold dispatchReady at hserver'
  split_ifs at hserver'
  · exact callReadable_wired h hserver'
  · obtain ⟨middle, hmiddle, rfl⟩ := Option.map_eq_some_iff.mp hserver'
    obtain ⟨hwired, hsame⟩ := callReadable_wired h hmiddle
    obtain ⟨hwired', hsame'⟩ := callWritable_wired hwired mask.output w
    exact ⟨hwired', hsame.trans hsame'⟩

/-- The registries agree: on the descriptors that the server listens on, and on all others. -/
structure Agree (own : Set ℕ) (server : TcpServer) : Prop where
  listening : ∀ fd ∈ own, server.clients fd = none ∧ server.handlers fd = some ⟨true, false⟩ ∧
    server.interest fd = some ⟨true, false⟩
  wired : ∀ fd ∉ own, server.WiredAt fd

theorem agree_listening (own : Set ℕ) [DecidablePred (· ∈ own)] : (listening own).Agree own := by
  constructor
  · intro fd hown
    exact ⟨rfl, if_pos hown, if_pos hown⟩
  · intro fd hown
    unfold WiredAt listening
    dsimp only
    rw [if_neg hown, if_neg hown]
    exact wired_free

theorem SameElsewhere.agree {own : Set ℕ} (h : SameElsewhere fd server server') (hown : fd ∉ own)
    (hwired : server'.WiredAt fd) (hagree : server.Agree own) : server'.Agree own := by
  constructor
  · intro j hj
    have hne : j ≠ fd := by
      rintro rfl
      exact hown hj
    rw [h.clients j hne, h.handlers j hne, h.interest j hne]
    exact hagree.listening j hj
  · intro j hj
    by_cases hne : j = fd
    · rw [hne]
      exact hwired
    · exact (h.wiredAt hne).mpr (hagree.wired j hj)

theorem Step.agree {own : Set ℕ} (h : Step own server server') (hagree : server.Agree own) :
    server'.Agree own := by
  cases h with
  | accept hown hfree =>
      obtain ⟨hwired, hsame⟩ := onNewConnection_spec (hagree.wired _ hown) hfree
      exact hsame.agree hown hwired hagree
  | ready hown hready =>
      obtain ⟨hwired, hsame⟩ := dispatchReady_wired (hagree.wired _ hown) hready
      exact hsame.agree hown hwired hagree

/-- A run of accepts and events from the server without connections. -/
def Reachable (own : Set ℕ) [DecidablePred (· ∈ own)] (server : TcpServer) : Prop :=
  Relation.ReflTransGen (Step own) (listening own) server

theorem Reachable.agree {own : Set ℕ} [DecidablePred (· ∈ own)] (h : server.Reachable own) :
    server.Agree own := by
  unfold Reachable at h
  induction h with
  | refl => exact agree_listening own
  | tail _ hstep ih => exact hstep.agree ih

/-- No reply is stranded: between events `clients_`, `handlers_` and the interest set agree, and a
connection with unsent bytes waits for writability. -/
theorem registries_agree {own : Set ℕ} [DecidablePred (· ∈ own)] (h : server.Reachable own) :
    (∀ fd ∉ own, (server.clients fd).isSome ↔
      ∃ handlers, server.handlers fd = some handlers ∧ handlers.onReadable = true) ∧
    (∀ fd c, server.clients fd = some c → c.hasPendingWrites = true →
      (∃ handlers, server.handlers fd = some handlers ∧ handlers.onWritable = true) ∧
        ∃ interest, server.interest fd = some interest ∧ interest.epollOut = true) ∧
    ∀ fd, server.interest fd =
      (server.handlers fd).map fun handlers => ⟨handlers.onReadable, handlers.onWritable⟩ := by
  have hagree := h.agree
  refine ⟨fun fd hown => ?_, fun fd c hc hpending => ?_, fun fd => ?_⟩
  · have hwired := hagree.wired fd hown
    constructor
    · intro hsome
      obtain ⟨c, hc⟩ := Option.isSome_iff_exists.mp hsome
      obtain ⟨writable, hh, -⟩ := hwired.of_connected hc
      exact ⟨_, hh, rfl⟩
    · rintro ⟨handlers, hh, -⟩
      by_contra hnone
      rw [hwired.free (Option.not_isSome_iff_eq_none.mp hnone)] at hh
      cases hh
  · have hown : fd ∉ own := by
      intro hown
      rw [(hagree.listening fd hown).1] at hc
      cases hc
    obtain ⟨writable, hh, hi, hw⟩ := (hagree.wired fd hown).of_connected hc
    rw [hw hpending] at hh hi
    exact ⟨⟨_, hh, rfl⟩, ⟨_, hi, rfl⟩⟩
  · by_cases hown : fd ∈ own
    · obtain ⟨-, hh, hi⟩ := hagree.listening fd hown
      rw [hh, hi]
      rfl
    · exact (hagree.wired fd hown).interest_eq

/-- A PING; the kernel takes three bytes of the reply. -/
def stalledEvent : ReadableEvent :=
  let P := DictParams.exact (fun _ => 0)
  ⟨⟨[⟨ascii "*1\r\n$4\r\nPING\r\n", by decide, by decide⟩], .wouldBlock⟩, ⟨[2], .wouldBlock⟩,
    fun _ => .still 10 0, .initial P P (.init ⟨6379, 10, true⟩ 0)⟩

/-- The rest of the reply waits for writability. -/
theorem registries_agree_stalled :
    let own : Set ℕ := {3, 4}
    let accepted := onNewConnection (listening own) 5
    ∃ server c, accepted.dispatchReady 5 ⟨false, true, false⟩ stalledEvent ⟨[], .wouldBlock⟩ =
        some server ∧ server.clients 5 = some c ∧ c.pending = 4 ∧
      (∃ handlers, server.handlers 5 = some handlers ∧ handlers.onWritable = true) ∧
        ∃ interest, server.interest 5 = some interest ∧ interest.epollOut = true := by
  intro own accepted
  have hready : (accepted.dispatchReady 5 ⟨false, true, false⟩ stalledEvent
      ⟨[], .wouldBlock⟩).any fun server => (server.clients 5).any fun c =>
        c.pending = 4 && c.hasPendingWrites := by decide +kernel
  obtain ⟨server, hserver, hclient⟩ := (Option.any_eq_true _ _).mp hready
  obtain ⟨c, hc, hpending⟩ := (Option.any_eq_true _ _).mp hclient
  rw [Bool.and_eq_true, decide_eq_true_eq] at hpending
  have hreach : Relation.ReflTransGen (Step own) (listening own) server :=
    .tail (.single (.accept (by decide) rfl)) (.ready (by decide) hserver)
  exact ⟨server, c, hserver, hc, hpending.1, (registries_agree hreach).2.1 5 c hc hpending.2⟩

end TcpServer

end Keva
