import Mathlib.Data.List.Basic
import Upipe.Common.Runs
import Upipe.Types.Entities

/-!
# Broadcasts of the pipe status

`set_pipe_status` records the status and sends it to each connected client, with an `await` at every
send. Meanwhile other tasks run: clients connect, a client that has gone is removed from the list over
which the loop iterates, and further broadcasts begin. A send to a socket that has gone may raise, and
then the loop is left.

A client leaves `connections` only after its socket has gone, so the clients whose sockets stayed open
are the open ones in `connections`. A task keeps the index of its list iterator.
-/

namespace Upipe

open Upipe.Common

/-! ## Definitions -/

/-- A `WebsocketHandler`: whether its socket is open and its monitor runs, and the statuses that its client
has received. -/
structure WebsocketHandler where
  id : ℕ
  opened : Bool
  monitored : Bool
  received : List PipeExecutionStatus
deriving DecidableEq

/-- `send`, for a status message. -/
def WebsocketHandler.send (status : PipeExecutionStatus) (h : WebsocketHandler) : WebsocketHandler :=
  if h.opened then { h with received := h.received ++ [status] } else h

/-- A `_sync_status` that waits at a send: its message, the index of its loop, and the handler of the
send. -/
structure SyncStatus where
  status : PipeExecutionStatus
  next : ℕ
  awaits : ℕ
deriving DecidableEq

/-- What `PipeController` keeps for its clients, and the tasks of `set_pipe_status` that run. -/
structure ConnectedPipe where
  status : PipeExecutionStatus
  connections : List WebsocketHandler
  tasks : List SyncStatus
  made : ℕ

/-- What happens between two awaits. Clients are named by their place in `connections`, tasks by their
place in `tasks`; `raises` says that a send to a socket that has gone raises. -/
inductive SyncEvent where
  | connect (opened : Bool)
  | lost (client : ℕ)
  | disconnect (client : ℕ)
  | invalid (client : ℕ)
  | setPipeStatus (status : PipeExecutionStatus) (raises : Bool)
  | resume (task : ℕ) (raises : Bool)
  | fail (task : ℕ)

namespace ConnectedPipe

/-- A pipe without clients. -/
def unconnected (status : PipeExecutionStatus) : ConnectedPipe where
  status := status
  connections := []
  tasks := []
  made := 0

/-- `connect_pipe` up to its monitor. On a socket that has gone already the first send raises. -/
def connectPipe (s : ConnectedPipe) (opened : Bool) : ConnectedPipe :=
  let handler : WebsocketHandler :=
    { id := s.made, opened := opened, monitored := opened, received := [] }
  { s with connections := s.connections ++ [handler.send s.status], made := s.made + 1 }

/-- The loop of `_sync_status` up to its next `await`, beside the tasks `others`. -/
def syncStatus (s : ConnectedPipe) (others : List SyncStatus) (task : SyncStatus) (raises : Bool) :
    ConnectedPipe :=
  match s.connections[task.next]? with
  | none => { s with tasks := others }
  | some handler =>
      if ¬ handler.opened ∧ raises then { s with tasks := others }
      else { s with
        connections := s.connections.set task.next (handler.send task.status)
        tasks := others ++ [{ task with next := task.next + 1, awaits := handler.id }] }

/-- `set_pipe_status`, up to its first `await`. -/
def setPipeStatus (s : ConnectedPipe) (status : PipeExecutionStatus) (raises : Bool) : ConnectedPipe :=
  { s with status := status }.syncStatus s.tasks { status := status, next := 0, awaits := 0 } raises

/-- One event. `disconnect` is the end of a monitor with WebSocketDisconnect, `invalid` its end with
ValueError; `fail` is a send that raises while it is awaited, because its socket goes. -/
def syncStep (s : ConnectedPipe) : SyncEvent → Option ConnectedPipe
  | .connect opened => some (s.connectPipe opened)
  | .lost n =>
      s.connections[n]?.map fun h =>
        { s with connections := s.connections.set n { h with opened := false } }
  | .disconnect n =>
      if s.connections[n]?.any (fun h => h.monitored ∧ ¬ h.opened) then
        some { s with connections := s.connections.eraseIdx n }
      else none
  | .invalid n =>
      s.connections[n]?.bind fun h =>
        if h.monitored then
          some { s with connections := s.connections.set n { h with monitored := false } }
        else none
  | .setPipeStatus status raises => some (s.setPipeStatus status raises)
  | .resume k raises => s.tasks[k]?.map fun task => s.syncStatus (s.tasks.eraseIdx k) task raises
  | .fail k =>
      s.tasks[k]?.bind fun task =>
        if ∀ h ∈ s.connections, h.id = task.awaits → ¬ h.opened then
          some { s with tasks := s.tasks.eraseIdx k }
        else none

/-! ## The law and its condition -/

/-- The last status that the client has received is the status of the pipe. -/
def Informed (s : ConnectedPipe) (h : WebsocketHandler) : Prop := h.received.getLast? = some s.status

/-- When no broadcast runs, every open client knows the status. -/
def Settled (s : ConnectedPipe) : Prop := s.tasks = [] → ∀ h ∈ s.connections, h.opened → s.Informed h

/-- One of the broadcasts sends the current status and has still to come to place `n`. -/
def Due (s : ConnectedPipe) (tasks : List SyncStatus) (n : ℕ) : Prop :=
  ∃ task ∈ tasks, task.status = s.status ∧ task.next ≤ n

/-- From place `n` on, each open client knows the status or one of the broadcasts comes to it. -/
def Served (s : ConnectedPipe) (tasks : List SyncStatus) (n : ℕ) : Prop :=
  ∀ x ∈ s.connections.zipIdx, n ≤ x.2 → x.1.opened → s.Informed x.1 ∨ s.Due tasks x.2

/-- A broadcast sends an old status only to a client that a broadcast of the current one has still to
come to, and ends early only when the clients left do not need it. -/
def SyncInOrder (s : ConnectedPipe) (others : List SyncStatus) (task : SyncStatus) (raises : Bool) :
    Prop :=
  ∀ handler ∈ s.connections[task.next]?,
    (handler.opened → task.status = s.status ∨ s.Due others task.next) ∧
      (¬ handler.opened → raises → task.status = s.status → s.Served others task.next)

/-- The condition on an event. When a client is removed, one behind it moves up, and must not slip past
the last broadcast that would have come to it. -/
def InOrder (s : ConnectedPipe) : SyncEvent → Prop
  | .setPipeStatus status raises =>
      { s with status := status }.SyncInOrder s.tasks { status := status, next := 0, awaits := 0 } raises
  | .resume k raises => ∀ task ∈ s.tasks[k]?, s.SyncInOrder (s.tasks.eraseIdx k) task raises
  | .fail k =>
      ∀ task ∈ s.tasks[k]?, task.status = s.status → s.Served (s.tasks.eraseIdx k) task.next
  | .disconnect n =>
      ∀ x ∈ s.connections.zipIdx, n < x.2 → x.1.opened → s.Due s.tasks x.2 →
        s.Informed x.1 ∨ s.Due s.tasks (x.2 - 1)
  | .connect _ | .lost _ | .invalid _ => True

instance (s : ConnectedPipe) (h : WebsocketHandler) : Decidable (s.Informed h) :=
  inferInstanceAs (Decidable (_ = _))

instance (s : ConnectedPipe) : Decidable s.Settled :=
  inferInstanceAs (Decidable (_ → ∀ h ∈ s.connections, _))

instance (s : ConnectedPipe) (tasks : List SyncStatus) (n : ℕ) : Decidable (s.Due tasks n) :=
  inferInstanceAs (Decidable (∃ task ∈ tasks, _))

instance (s : ConnectedPipe) (tasks : List SyncStatus) (n : ℕ) : Decidable (s.Served tasks n) :=
  inferInstanceAs (Decidable (∀ x ∈ s.connections.zipIdx, _))

instance (s : ConnectedPipe) (others : List SyncStatus) (task : SyncStatus) (raises : Bool) :
    Decidable (s.SyncInOrder others task raises) :=
  inferInstanceAs (Decidable (∀ handler ∈ s.connections[task.next]?, _ ∧ _))

instance (s : ConnectedPipe) (e : SyncEvent) : Decidable (s.InOrder e) :=
  match e with
  | .setPipeStatus _ _ => inferInstanceAs (Decidable (SyncInOrder _ _ _ _))
  | .resume k _ => inferInstanceAs (Decidable (∀ task ∈ s.tasks[k]?, _))
  | .fail k => inferInstanceAs (Decidable (∀ task ∈ s.tasks[k]?, _ → _))
  | .disconnect _ => inferInstanceAs (Decidable (∀ x ∈ s.connections.zipIdx, _))
  | .connect _ | .lost _ | .invalid _ => isTrue trivial

/-! ## Every open client is served -/

variable {s s' : ConnectedPipe} {tasks others : List SyncStatus}

theorem served_iff {n : ℕ} : s.Served tasks n ↔ ∀ p h, s.connections[p]? = some h → n ≤ p → h.opened →
    s.Informed h ∨ s.Due tasks p := by
  constructor
  · exact fun hserved p h hp => hserved (h, p) (List.mem_zipIdx_iff_getElem?.mpr hp)
  · exact fun hserved x hx => hserved x.2 x.1 (List.mem_zipIdx_iff_getElem?.mp hx)

theorem due_cons {task : SyncStatus} {n : ℕ} :
    s.Due (task :: others) n ↔ (task.status = s.status ∧ task.next ≤ n) ∨ s.Due others n := by
  simp only [Due, List.mem_cons, or_and_right, exists_or, exists_eq_left]

theorem Due.mono {n : ℕ} (h : s.Due others n) (hsub : others ⊆ tasks) : s.Due tasks n := by
  obtain ⟨task, hmem, hdue⟩ := h
  exact ⟨task, hsub hmem, hdue⟩

/-- The tasks, with the one that is at work in front. -/
theorem Due.of_getElem? {k n : ℕ} {task : SyncStatus} (hk : tasks[k]? = some task) (h : s.Due tasks n) :
    s.Due (task :: tasks.eraseIdx k) n := by
  refine h.mono ?_
  intro other hmem
  obtain ⟨i, hi⟩ := List.mem_iff_getElem?.mp hmem
  by_cases hik : i = k
  · subst hik
    rw [hk] at hi
    exact Option.some.inj hi ▸ List.mem_cons_self
  · exact List.mem_cons_of_mem _ (List.mem_eraseIdx_iff_getElem?.mpr ⟨i, hik, hi⟩)

theorem Served.of_getElem? {k n : ℕ} {task : SyncStatus} (hk : s.tasks[k]? = some task)
    (h : s.Served s.tasks n) : s.Served (task :: s.tasks.eraseIdx k) n :=
  fun x hx hn hopened => (h x hx hn hopened).imp_right (Due.of_getElem? hk)

/-- A task that ends leaves the clients served that it passed, and those behind that do without it. -/
theorem Served.drop {task : SyncStatus} (h : s.Served (task :: others) 0)
    (hrest : task.status = s.status → s.Served others task.next) : s.Served others 0 := by
  intro x hx hn hopened
  rcases h x hx hn hopened with hinformed | hdue
  · exact Or.inl hinformed
  rcases due_cons.mp hdue with ⟨hstatus, hnext⟩ | hdue
  · exact hrest hstatus x hx hnext hopened
  · exact Or.inr hdue

/-- A turn that finds a handler in its place. -/
theorem syncStatus_of_getElem? {task : SyncStatus} {raises : Bool} {handler : WebsocketHandler}
    (hhandler : s.connections[task.next]? = some handler) :
    s.syncStatus others task raises =
      if ¬ handler.opened ∧ raises then { s with tasks := others }
      else { s with
        connections := s.connections.set task.next (handler.send task.status)
        tasks := others ++ [{ task with next := task.next + 1, awaits := handler.id }] } := by
  rw [syncStatus, hhandler]

/-- What a turn of the loop that is in order keeps. -/
theorem Served.syncStatus {task : SyncStatus} {raises : Bool} (h : s.Served (task :: others) 0)
    (horder : s.SyncInOrder others task raises) :
    (s.syncStatus others task raises).Served (s.syncStatus others task raises).tasks 0 := by
  rcases hplace : s.connections[task.next]? with _ | handler
  · rw [ConnectedPipe.syncStatus, hplace]
    refine h.drop (fun _ => served_iff.mpr ?_)
    intro p handler hp hnext
    have hlength := List.getElem?_eq_none_iff.mp hplace
    rw [List.getElem?_eq_none (Nat.le_trans hlength hnext)] at hp
    cases hp
  obtain ⟨hsend, hraise⟩ := horder handler hplace
  rw [syncStatus_of_getElem? hplace]
  split
  · rename_i hdead
    exact h.drop (hraise hdead.1 hdead.2)
  · refine served_iff.mpr ?_
    intro p client hp _ hopened
    by_cases hpn : task.next = p
    · -- the client that this turn sends to
      subst hpn
      rw [List.getElem?_set_self (List.getElem?_eq_some_iff.mp hplace).1] at hp
      obtain rfl := Option.some.inj hp
      have hwas : handler.opened := by
        unfold WebsocketHandler.send at hopened
        split at hopened <;> exact hopened
      rcases hsend hwas with hstatus | hdue
      · left
        rw [WebsocketHandler.send, if_pos hwas, hstatus]
        exact List.getLast?_concat
      · right
        exact Due.mono hdue (List.subset_append_left ..)
    · rw [List.getElem?_set_ne hpn] at hp
      rcases served_iff.mp h p client hp (Nat.zero_le p) hopened with hinformed | hdue
      · exact Or.inl hinformed
      right
      rcases due_cons.mp hdue with ⟨hstatus, hnext⟩ | hdue
      · exact ⟨_, List.mem_append_right _ List.mem_cons_self, hstatus, Nat.lt_of_le_of_ne hnext hpn⟩
      · exact Due.mono hdue (List.subset_append_left ..)

/-- A new status is still to be sent to every client. -/
theorem Served.setPipeStatus {status : PipeExecutionStatus} {raises : Bool}
    (horder : s.InOrder (.setPipeStatus status raises)) :
    (s.setPipeStatus status raises).Served (s.setPipeStatus status raises).tasks 0 :=
  Served.syncStatus (fun _ _ _ _ => Or.inr (due_cons.mpr (Or.inl ⟨rfl, Nat.zero_le _⟩))) horder

theorem Served.connectPipe (h : s.Served s.tasks 0) (opened : Bool) :
    (s.connectPipe opened).Served s.tasks 0 := by
  refine served_iff.mpr ?_
  intro p client hp hn hopened
  have hp : (s.connections ++ [_])[p]? = some client := hp
  rw [List.getElem?_append] at hp
  split at hp
  · exact served_iff.mp h p client hp hn hopened
  · -- the new client, which has been sent the status
    left
    rw [List.getElem?_singleton] at hp
    split at hp
    · obtain rfl := Option.some.inj hp
      unfold WebsocketHandler.send at hopened ⊢
      split at hopened
      · rw [if_pos ‹_›]
        rfl
      · exact absurd hopened ‹_›
    · cases hp

/-- Another handler in a place changes nothing when it has received what the one before has, and is not
open where that is not. -/
theorem Served.set (h : s.Served s.tasks 0) {n : ℕ} {old new : WebsocketHandler}
    (hold : s.connections[n]? = some old) (hopened : new.opened → old.opened)
    (hreceived : new.received = old.received) :
    Served { s with connections := s.connections.set n new } s.tasks 0 := by
  refine served_iff.mpr ?_
  intro p client hp hn hclient
  by_cases hpn : n = p
  · subst hpn
    rw [List.getElem?_set_self (List.getElem?_eq_some_iff.mp hold).1] at hp
    obtain rfl := Option.some.inj hp
    have hserved := served_iff.mp h n old hold hn (hopened hclient)
    unfold Informed at hserved ⊢
    rw [hreceived]
    exact hserved
  · rw [List.getElem?_set_ne hpn] at hp
    exact served_iff.mp h p client hp hn hclient

/-- The clients behind a removed one have moved up. -/
theorem Served.disconnect (h : s.Served s.tasks 0) {n : ℕ} (horder : s.InOrder (.disconnect n)) :
    Served { s with connections := s.connections.eraseIdx n } s.tasks 0 := by
  refine served_iff.mpr ?_
  intro p client hp hn hopened
  have hp : (s.connections.eraseIdx n)[p]? = some client := hp
  rw [List.getElem?_eraseIdx] at hp
  split at hp
  · exact served_iff.mp h p client hp hn hopened
  · rename_i hpn
    rcases served_iff.mp h (p + 1) client hp (Nat.zero_le _) hopened with hinformed | hdue
    · exact Or.inl hinformed
    · exact horder (client, p + 1) (List.mem_zipIdx_iff_getElem?.mpr hp) (by simp; omega) hopened hdue

theorem Served.step (h : s.Served s.tasks 0) {e : SyncEvent} (horder : s.InOrder e)
    (hstep : syncStep s e = some s') : s'.Served s'.tasks 0 := by
  cases e with
  | connect opened =>
    obtain rfl := Option.some.inj hstep
    exact h.connectPipe opened
  | lost n =>
    obtain ⟨handler, hhandler, rfl⟩ := Option.map_eq_some_iff.mp hstep
    exact h.set hhandler (fun hopened => nomatch hopened) rfl
  | disconnect n =>
    rw [syncStep] at hstep
    split at hstep
    · obtain rfl := Option.some.inj hstep
      exact h.disconnect horder
    · cases hstep
  | invalid n =>
    obtain ⟨handler, hhandler, hstep⟩ := Option.bind_eq_some_iff.mp hstep
    split at hstep
    · obtain rfl := Option.some.inj hstep
      exact h.set hhandler id rfl
    · cases hstep
  | setPipeStatus status raises =>
    obtain rfl := Option.some.inj hstep
    exact Served.setPipeStatus horder
  | resume k raises =>
    obtain ⟨task, htask, rfl⟩ := Option.map_eq_some_iff.mp hstep
    exact (h.of_getElem? htask).syncStatus (horder task htask)
  | fail k =>
    obtain ⟨task, htask, hstep⟩ := Option.bind_eq_some_iff.mp hstep
    split at hstep
    · obtain rfl := Option.some.inj hstep
      exact (h.of_getElem? htask).drop (horder task htask)
    · cases hstep

/-- Only a turn in order leaves every client served. -/
theorem Served.syncInOrder {task : SyncStatus} {raises : Bool}
    (h : (s.syncStatus others task raises).Served (s.syncStatus others task raises).tasks 0) :
    s.SyncInOrder others task raises := by
  intro handler hhandler
  have hlookup : s.connections[task.next]? = some handler := hhandler
  rw [syncStatus_of_getElem? hlookup] at h
  refine ⟨?_, ?_⟩
  · intro hopened
    rw [if_neg (fun hdead => hdead.1 hopened)] at h
    have hset := List.getElem?_set_self (a := handler.send task.status)
      (List.getElem?_eq_some_iff.mp hlookup).1
    have hsent : handler.send task.status =
        { handler with received := handler.received ++ [task.status] } := if_pos hopened
    rcases served_iff.mp h task.next _ hset (Nat.zero_le _) (by rw [hsent]; exact hopened)
      with hinformed | ⟨other, hmem, hstatus, hnext⟩
    · left
      rw [hsent, Informed, List.getLast?_concat] at hinformed
      exact Option.some.inj hinformed
    · rcases List.mem_append.mp hmem with hother | hself
      · exact Or.inr ⟨other, hother, hstatus, hnext⟩
      · obtain rfl := List.mem_singleton.mp hself
        exact Or.inl hstatus
  · intro hdead hraises _ x hx _
    rw [if_pos ⟨hdead, hraises⟩] at h
    exact h x hx (Nat.zero_le _)

/-- A step that is not in order leaves an open client that no broadcast of the status comes to. -/
theorem Served.inOrder {e : SyncEvent} (hstep : syncStep s e = some s') (h : s'.Served s'.tasks 0) :
    s.InOrder e := by
  cases e with
  | connect opened => exact trivial
  | lost n => exact trivial
  | disconnect n =>
    rw [syncStep] at hstep
    split at hstep
    · obtain rfl := Option.some.inj hstep
      intro x hx hn hopened _
      have hp := List.mem_zipIdx_iff_getElem?.mp hx
      have hmoved : (s.connections.eraseIdx n)[x.2 - 1]? = some x.1 := by
        rw [List.getElem?_eraseIdx_of_ge (Nat.le_sub_one_of_lt hn),
          Nat.sub_add_cancel (Nat.one_le_of_lt hn)]
        exact hp
      exact served_iff.mp h (x.2 - 1) x.1 hmoved (Nat.zero_le _) hopened
    · cases hstep
  | invalid n => exact trivial
  | setPipeStatus status raises =>
    obtain rfl := Option.some.inj hstep
    exact Served.syncInOrder h
  | resume k raises =>
    obtain ⟨task, htask, rfl⟩ := Option.map_eq_some_iff.mp hstep
    intro task' htask'
    obtain rfl := Option.some.inj (htask.symm.trans htask')
    exact h.syncInOrder
  | fail k =>
    obtain ⟨task, htask, hstep⟩ := Option.bind_eq_some_iff.mp hstep
    split at hstep
    · obtain rfl := Option.some.inj hstep
      intro task' htask' _ x hx _
      obtain rfl := Option.some.inj (htask.symm.trans htask')
      exact h x hx (Nat.zero_le _)
    · cases hstep

/-- Without a broadcast that runs, a client that is served knows the status. -/
theorem Served.settled (h : s.Served s.tasks 0) : s.Settled := by
  intro hdone client hclient hopened
  obtain ⟨p, hp⟩ := List.mem_iff_getElem?.mp hclient
  rcases served_iff.mp h p client hp (Nat.zero_le p) hopened with hinformed | ⟨task, hmem, _⟩
  · exact hinformed
  · rw [hdone] at hmem
    cases hmem

/-- At the end of every run in order, with no broadcast running, each client whose socket stayed open has
received the status of the pipe last. -/
theorem every_open_client_informed {status : PipeExecutionStatus} {events : List SyncEvent}
    (horder : Along syncStep InOrder (unconnected status) events)
    (hrun : runFrom syncStep (unconnected status) events = some s) : s.Settled := by
  have hkeep : ∀ s e s', Served s s.tasks 0 → s.InOrder e → syncStep s e = some s' →
      s'.Served s'.tasks 0 :=
    fun _ _ _ h hguard hstep => h.step hguard hstep
  have hinit : (unconnected status).Served (unconnected status).tasks 0 := fun _ hx => nomatch hx
  exact (Along.invariant hkeep hinit horder hrun).settled

/-! ## Overlapping broadcasts, and clients that are missed -/

/-- Three clients are told of RUNNING, the first one leaves, and the broadcasts of PENDING_TERMINATION and
COMPLETED overlap. -/
def overlappingBroadcasts : List SyncEvent :=
  [.connect true, .connect true, .connect true, .setPipeStatus .running false, .resume 0 false,
    .resume 0 false, .resume 0 false, .lost 0, .disconnect 0, .setPipeStatus .pendingTermination false,
    .setPipeStatus .completed false, .resume 0 false, .resume 0 false, .resume 0 false, .resume 0 false]

theorem every_open_client_informed_overlapping :
    ∃ s, runFrom syncStep (unconnected .ready) overlappingBroadcasts = some s ∧ s.tasks = [] ∧
      s.Settled := by
  have hrun : (runFrom syncStep (unconnected .ready) overlappingBroadcasts).any
      (fun s => s.tasks = []) = true := by decide
  obtain ⟨s, hs, hdone⟩ := (Option.any_eq_true _ _).mp hrun
  exact ⟨s, hs, of_decide_eq_true hdone, every_open_client_informed (by decide) hs⟩

/-- The first client leaves while COMPLETED is sent: the second one moves up and is passed over. -/
def departingClient : List SyncEvent :=
  [.connect true, .connect true, .connect true, .setPipeStatus .completed false, .lost 0, .disconnect 0,
    .resume 0 false, .resume 0 false]

/-- The monitor of the first client ends with an error, which closes its socket: the send raises, and the
second client is never reached. -/
def brokenMonitor : List SyncEvent :=
  [.connect true, .connect true, .invalid 0, .lost 0, .setPipeStatus .completed true]

theorem clients_miss_completed :
    (∃ s, runFrom syncStep (unconnected .ready) departingClient = some s ∧ ¬ s.Settled) ∧
      ∃ s, runFrom syncStep (unconnected .ready) brokenMonitor = some s ∧ ¬ s.Settled := by
  have hdepart : (runFrom syncStep (unconnected .ready) departingClient).any
      (fun s => ¬ s.Settled) = true := by decide
  have hbroken : (runFrom syncStep (unconnected .ready) brokenMonitor).any
      (fun s => ¬ s.Settled) = true := by decide
  obtain ⟨s, hs, hmissed⟩ := (Option.any_eq_true _ _).mp hdepart
  obtain ⟨s', hs', hmissed'⟩ := (Option.any_eq_true _ _).mp hbroken
  exact ⟨⟨s, hs, of_decide_eq_true hmissed⟩, s', hs', of_decide_eq_true hmissed'⟩

end ConnectedPipe

end Upipe
