import Mathlib.Data.Finset.Lattice.Lemmas
import Mathlib.Data.List.Count
import Upipe.Common.Copies
import Upipe.Common.Dict
import Upipe.Common.Python

/-!
# The log of the processes of a session

`PidLog` is a dictionary of sessions in a file; `start_session` kills the processes of the sessions before. The
pipe process starts a session, spawns the server and logs its pid; the server loads the file when it is imported
and logs the pids of its workers. Each works on a copy of its own and writes the whole file, so a pid is lost
when the server has read the file before the pipe process has written it (`pid_log_iff`).
-/

namespace Upipe

open Upipe.Common

/-! ## The log -/

/-- `get_timestamped_object`. The time is in ms. -/
structure Timestamp where
  logTime : ℤ
  createdTimeStr : String
  creatorPid : ℕ
deriving DecidableEq

/-- The entry of a process. -/
structure LogEntry extends Timestamp where
  pid : String
  name : String
deriving DecidableEq

/-- A session. It can lack its pids in a file that no `PidLog` has written. -/
structure Session extends Timestamp where
  pids : Option (Dict String LogEntry)
deriving DecidableEq

/-- The sessions by the pids of their root processes. -/
abbrev Log := Dict String Session

/-- The file `upipe_pid_log.json`. -/
inductive LogFile where
  | missing | unreadable
  | saved (log : Log)

/-- `PidLog`, with the file and the pids that `kill_process` was called with. -/
structure PidLog where
  log : Log
  file : LogFile
  killed : List String := []

namespace PidLog

/-- `__init__`. A file that cannot be read is removed. -/
def init : LogFile → PidLog
  | .missing | .unreadable => { log := .empty, file := .missing }
  | .saved log => { log := log, file := .saved log }

/-- `_save`. -/
def save : PyM PidLog Unit := modify fun s => { s with file := .saved s.log }

/-- `log_pid` up to `_save`. It returns whether there is something to save. -/
def enter (pid : ℕ) (name : String) (now : Timestamp) : PyM PidLog Bool := do
  let s ← get
  match s.log.entries with
  | _ :: _ :: _ => throw ⟨.indexError, "Process log contains more than one session"⟩
  | [] => throw ⟨.indexError, "list index out of range"⟩
  | [(sessionPid, session)] =>
      match session.pids with
      | none => throw ⟨.processLookupError, "Session pid list corrupted"⟩
      | some pids =>
          if pids.contains (toString pid) then pure false
          else do
            let logEntry : LogEntry := { toTimestamp := now, pid := toString pid, name := name }
            set { s with log := s.log.set sessionPid { session with pids := pids.set (toString pid) logEntry } }
            pure true

/-- `log_pid`. -/
def logPid (pid : ℕ) (name : String) (now : Timestamp) : PyM PidLog Unit := do
  if ← enter pid name now then save else pure ()

/-- `_clean_session`. -/
def cleanSession (rootPid : String) : PyM PidLog Unit := do
  let s ← get
  match s.log.get? rootPid with
  | none => throw ⟨.keyError, rootPid⟩
  | some session =>
      match session.pids with
      | none => pure ()
      | some pids => do
          set { s with log := s.log.erase rootPid, killed := s.killed ++ pids.keys }
          save

/-- The loop of `start_session`. -/
def cleanSessions : List String → PyM PidLog Unit
  | [] => pure ()
  | pid :: pids => do
      cleanSession pid
      cleanSessions pids

/-- `start_session`. -/
def startSession (rootPid : ℕ) (now : Timestamp) : PyM PidLog Unit := do
  let s ← get
  cleanSessions (s.log.keys.filter fun pid => pid ≠ toString rootPid)
  modify fun s =>
    if s.log.contains (toString rootPid) then s
    else { s with log := s.log.set (toString rootPid) { toTimestamp := now, pids := some .empty } }
  save

end PidLog

/-! ## The two processes -/

/-- The file and the copies of the pipe process and of the server. -/
structure LogSystem where
  file : LogFile
  client : Log
  phase : EntryPhase
  server : Option Log
  unsaved : Bool

/-- What the two processes do after the spawn. -/
inductive LogEvent where
  | clientEnter (now : Timestamp)
  | clientSave
  | serverLoad
  | serverEnter (pid : ℕ) (name : String) (now : Timestamp)
  | serverSave

namespace LogSystem

/-- The pipe process up to the spawn: it loads the file and starts its session. -/
def spawn (rootPid : ℕ) (now : Timestamp) (file : LogFile) : LogSystem :=
  let s := stateOf (PidLog.startSession rootPid now (PidLog.init file))
  { file := s.file, client := s.log, phase := .ready, server := none, unsaved := false }

/-- One event. A call of `log_pid` that raises enters nothing. A worker has not the pid of the server. -/
def step (serverPid : ℕ) (s : LogSystem) : LogEvent → Option LogSystem
  | .clientEnter now =>
      if s.phase = .ready then
        match PidLog.enter serverPid "node server" now { log := s.client, file := s.file } with
        | .ok true c => some { s with client := c.log, phase := .unsaved }
        | .ok false _ | .error .. => some { s with phase := .done }
      else none
  | .clientSave =>
      if s.phase = .unsaved then
        some { s with file := (stateOf (PidLog.save { log := s.client, file := s.file })).file, phase := .done }
      else none
  | .serverLoad =>
      if s.server = none then
        let c := PidLog.init s.file
        some { s with server := some c.log, file := c.file }
      else none
  | .serverEnter pid name now =>
      s.server.bind fun log =>
        if s.unsaved ∨ pid = serverPid then none
        else
          match PidLog.enter pid name now { log := log, file := s.file } with
          | .ok true c => some { s with server := some c.log, unsaved := true }
          | .ok false _ | .error .. => some s
  | .serverSave =>
      s.server.bind fun log =>
        if s.unsaved then
          some { s with file := (stateOf (PidLog.save { log := log, file := s.file })).file, unsaved := false }
        else none

/-- Both processes are done. -/
structure Idle (s : LogSystem) : Prop where
  phase : s.phase = .done
  unsaved : s.unsaved = false

end LogSystem

/-! ## What is claimed of them -/

/-- The pids of a session. -/
def Log.session (log : Log) (rootPid : String) : Option (Dict String LogEntry) :=
  (log.get? rootPid).bind Session.pids

/-- The pids in a session, as `start_session` goes through them. -/
def Log.pids (log : Log) (rootPid : String) : List String := (log.session rootPid).elim [] Dict.keys

namespace LogFile

/-- The pids that the file has in a session. -/
def pids (rootPid : ℕ) : LogFile → List String
  | .missing | .unreadable => []
  | .saved log => log.pids (toString rootPid)

/-- Each session of the file has its pids, as in every file that a `PidLog` has written. -/
def WellFormed (file : LogFile) : Prop := ∀ session ∈ (PidLog.init file).log.values, session.pids ≠ none

/-- The pids that the start of the next session kills. -/
def killedBy (rootPid : ℕ) (now : Timestamp) (file : LogFile) : List String :=
  (stateOf (PidLog.startSession rootPid now (PidLog.init file))).killed

end LogFile

namespace LogSystem

/-- The pids that the server logs. -/
def workers (events : List LogEvent) : List ℕ :=
  events.filterMap fun
    | .serverEnter pid _ _ => some pid
    | _ => none

/-- The server loads the file after the pipe process has saved the pid of the server. -/
def LoadsAfterSave (events : List LogEvent) : Prop :=
  ∃ before after, events = before ++ .serverLoad :: after ∧ .clientSave ∈ before

/-- The file has every pid that was logged, and the start of the next session kills all of them. -/
def NoneLost (rootPid serverPid nextPid : ℕ) (later : Timestamp) (events : List LogEvent) (file : LogFile) : Prop :=
  ∀ pid ∈ serverPid :: workers events,
    toString pid ∈ file.pids rootPid ∧ toString pid ∈ file.killedBy nextPid later

end LogSystem

/-! ## The start of a session -/

/-- The only session of the log is that of the root process, and it has its pids. -/
structure Log.Only (rootPid : String) (log : Log) : Prop where
  keys : log.keys = [rootPid]
  session : log.session rootPid ≠ none

theorem Log.Only.entries_eq {log : Log} {rootPid : String} (h : log.Only rootPid) : ∃ session pids,
    log.entries = [(rootPid, session)] ∧ session.pids = some pids ∧ log.pids rootPid = pids.keys := by
  obtain ⟨item, hentries, rfl⟩ := List.map_eq_singleton_iff.mp h.keys
  obtain ⟨rootPid, session⟩ := item
  have hget : log.get? rootPid = some session := by
    rw [log.get?_eq_some_iff, hentries]
    exact List.mem_singleton_self _
  obtain ⟨pids, hsome⟩ := Option.ne_none_iff_exists'.mp h.session
  have hpids : session.pids = some pids := by rwa [Log.session, hget] at hsome
  refine ⟨session, pids, hentries, hpids, ?_⟩
  rw [Log.pids, hsome]
  rfl

theorem Log.Only.wellFormed {log : Log} {rootPid : String} (h : log.Only rootPid) :
    (LogFile.saved log).WellFormed := by
  obtain ⟨session, pids, hentries, hpids, -⟩ := h.entries_eq
  intro session' hmem
  change session' ∈ log.values at hmem
  rw [Dict.values, hentries] at hmem
  rw [List.mem_singleton.mp hmem]
  dsimp only
  rw [hpids]
  exact Option.some_ne_none _

namespace Log

variable {log : Log} {root : ℕ}

/-- The log without the sessions of other root processes. -/
def cleaned (log : Log) (root : ℕ) : Log :=
  (log.keys.filter fun pid => pid ≠ toString root).foldl Dict.erase log

theorem keys_cleaned : (log.cleaned root).keys = log.keys.filter fun pid => pid = toString root := by
  rw [cleaned, Dict.keys_foldl_erase]
  apply List.filter_congr
  intro pid hpid
  simp [hpid]

theorem keys_cleaned_of_mem (h : toString root ∈ log.keys) : (log.cleaned root).keys = [toString root] := by
  have hcount : log.keys.count (toString root) = 1 := List.count_eq_one_of_mem log.nodup h
  rw [keys_cleaned, List.filter_eq, hcount]
  rfl

theorem keys_cleaned_of_not_mem (h : toString root ∉ log.keys) : (log.cleaned root).keys = [] := by
  rw [keys_cleaned, List.filter_eq, List.count_eq_zero_of_not_mem h]
  rfl

theorem session_cleaned : (log.cleaned root).session (toString root) = log.session (toString root) := by
  have hother : toString root ∉ log.keys.filter fun pid => pid ≠ toString root :=
    fun hmem => of_decide_eq_true (List.mem_filter.mp hmem).2 rfl
  rw [session, session, cleaned, log.get?_foldl_erase hother]

/-- The log with a new session, of no pids yet. -/
def opened (log : Log) (root : ℕ) (now : Timestamp) : Log :=
  (log.cleaned root).set (toString root) { toTimestamp := now, pids := some .empty }

theorem session_opened (now : Timestamp) : (log.opened root now).session (toString root) = some .empty := by
  rw [session, opened, Dict.get?_set_self]
  rfl

theorem keys_opened (now : Timestamp) (h : toString root ∉ log.keys) :
    (log.opened root now).keys = [toString root] := by
  have hkeys := keys_cleaned_of_not_mem h
  have hnew : toString root ∉ (log.cleaned root).keys := by
    rw [hkeys]
    exact List.not_mem_nil
  rw [Dict.keys, opened, Dict.entries_set_of_not_mem _ _ hnew, List.map_append, ← Dict.keys, hkeys]
  rfl

end Log

namespace PidLog

variable {s : PidLog} {rootPid : String}

theorem cleanSession_eq {pids : Dict String LogEntry} (h : s.log.session rootPid = some pids) :
    cleanSession rootPid s = .ok ()
      { log := s.log.erase rootPid, file := .saved (s.log.erase rootPid), killed := s.killed ++ pids.keys } := by
  obtain ⟨session, hget, hpids⟩ := Option.bind_eq_some_iff.mp h
  rw [cleanSession, get_bind_apply, hget]
  dsimp only
  rw [hpids]
  rfl

/-- The sessions that are cleaned go out of the log, and their pids are killed. -/
theorem cleanSessions_eq {roots : List String} (hnodup : roots.Nodup)
    (h : ∀ root ∈ roots, s.log.session root ≠ none) : ∃ file, cleanSessions roots s = .ok ()
      { log := roots.foldl Dict.erase s.log, file := file, killed := s.killed ++ roots.flatMap s.log.pids } := by
  induction roots generalizing s with
  | nil =>
    refine ⟨s.file, ?_⟩
    rw [List.flatMap_nil, List.append_nil]
    rfl
  | cons root roots ih =>
    rw [List.nodup_cons] at hnodup
    rw [List.forall_mem_cons] at h
    obtain ⟨pids, hpids⟩ := Option.ne_none_iff_exists'.mp h.1
    -- to clean one session leaves the others, whose pids are killed next
    have hsame : ∀ other ∈ roots, Log.session (s.log.erase root) other = s.log.session other := by
      intro other hother
      have hne : other ≠ root := fun heq => hnodup.1 (heq ▸ hother)
      rw [Log.session, Log.session, s.log.get?_erase_of_ne hne]
    have hothers : ∀ other ∈ roots, Log.session (s.log.erase root) other ≠ none := by
      intro other hother
      rw [hsame other hother]
      exact h.2 other hother
    obtain ⟨file, hrest⟩ := ih hnodup.2
      (s := { log := s.log.erase root, file := .saved (s.log.erase root), killed := s.killed ++ pids.keys }) hothers
    refine ⟨file, ?_⟩
    rw [cleanSessions, bind_ok (cleanSession_eq hpids), hrest]
    have hkilled : roots.flatMap (Log.pids (s.log.erase root)) = roots.flatMap s.log.pids := by
      apply List.flatMap_congr
      intro other hother
      rw [Log.pids, Log.pids, hsame other hother]
    have hfirst : s.log.pids root = pids.keys := by rw [Log.pids, hpids]; rfl
    rw [hkilled, List.flatMap_cons, hfirst, List.append_assoc]
    rfl

/-- The start of a session leaves only this session in the log, with the pids that it had. -/
theorem startSession_eq (root : ℕ) (now : Timestamp) (h : ∀ session ∈ s.log.values, session.pids ≠ none) :
    ∃ log, startSession root now s = .ok ()
        { log := log
          file := .saved log
          killed := s.killed ++ (s.log.keys.filter fun pid => pid ≠ toString root).flatMap s.log.pids } ∧
      log.Only (toString root) ∧ log.pids (toString root) = s.log.pids (toString root) := by
  have hsession : ∀ pid ∈ s.log.keys, s.log.session pid ≠ none := by
    intro pid hpid
    obtain ⟨⟨_, session⟩, hitem, rfl⟩ := List.mem_map.mp hpid
    rw [Log.session, s.log.get?_eq_some_iff.mpr hitem]
    exact h session (List.mem_map_of_mem (f := Prod.snd) hitem)
  have hnodup : (s.log.keys.filter fun pid => pid ≠ toString root).Nodup := s.log.nodup.filter _
  obtain ⟨file, hclean⟩ := cleanSessions_eq hnodup fun pid hpid => hsession pid (List.mem_filter.mp hpid).1
  rw [startSession, get_bind_apply, bind_ok hclean, modify_bind_apply]
  change ∃ log, save (if (s.log.cleaned root).contains (toString root) = true then _ else _) = _ ∧ _
  by_cases hmem : toString root ∈ s.log.keys
  · -- a root process with this pid had a session, and its pids stay
    have hkeys := Log.keys_cleaned_of_mem hmem
    have hcontains : (s.log.cleaned root).contains (toString root) = true := by
      rw [Dict.contains, hkeys]
      exact decide_eq_true (List.mem_singleton_self _)
    rw [if_pos hcontains]
    refine ⟨s.log.cleaned root, rfl, ⟨hkeys, ?_⟩, ?_⟩
    · rw [Log.session_cleaned]
      exact hsession _ hmem
    · rw [Log.pids, Log.pids, Log.session_cleaned]
  · have hcontains : ¬ (s.log.cleaned root).contains (toString root) = true := by
      intro hcontains
      have hkey : toString root ∈ (s.log.cleaned root).keys := of_decide_eq_true hcontains
      rw [Log.keys_cleaned_of_not_mem hmem] at hkey
      cases hkey
    rw [if_neg hcontains]
    refine ⟨s.log.opened root now, rfl, ⟨Log.keys_opened now hmem, ?_⟩, ?_⟩
    · rw [Log.session_opened]
      exact Option.some_ne_none _
    · have hold : s.log.session (toString root) = none := by
        rw [Log.session, s.log.get?_eq_none_iff.mpr hmem]
        rfl
      rw [Log.pids, Log.pids, Log.session_opened, hold]
      rfl

/-! ## An entry -/

/-- A pid that the session has is not entered again. -/
theorem enter_old {pid : ℕ} (name : String) (now : Timestamp) (h : s.log.Only rootPid)
    (hmem : toString pid ∈ s.log.pids rootPid) : enter pid name now s = .ok false s := by
  obtain ⟨session, pids, hentries, hpids, hkeys⟩ := h.entries_eq
  have hcontains : pids.contains (toString pid) = true := decide_eq_true (hkeys ▸ hmem)
  rw [enter, get_bind_apply]
  simp only [hentries, hpids]
  rw [if_pos hcontains]
  rfl

/-- A new pid goes to the end of the session. -/
theorem enter_new {pid : ℕ} (name : String) (now : Timestamp) (h : s.log.Only rootPid)
    (hnew : toString pid ∉ s.log.pids rootPid) : ∃ log, enter pid name now s = .ok true { s with log := log } ∧
      log.Only rootPid ∧ log.pids rootPid = s.log.pids rootPid ++ [toString pid] := by
  obtain ⟨session, pids, hentries, hpids, hkeys⟩ := h.entries_eq
  have hkey : toString pid ∉ pids.keys := hkeys ▸ hnew
  have hcontains : ¬ pids.contains (toString pid) = true := fun hmem => hkey (of_decide_eq_true hmem)
  let pids' := pids.set (toString pid) { toTimestamp := now, pid := toString pid, name := name }
  have hsession : Log.session (s.log.set rootPid { session with pids := some pids' }) rootPid = some pids' := by
    rw [Log.session, Dict.get?_set_self]
    rfl
  refine ⟨s.log.set rootPid { session with pids := some pids' }, ?_, ⟨?_, ?_⟩, ?_⟩
  · rw [enter, get_bind_apply]
    simp only [hentries, hpids]
    rw [if_neg hcontains]
    rfl
  · rw [s.log.keys_set_of_mem _ (h.keys ▸ List.mem_singleton_self _), h.keys]
  · rw [hsession]
    exact Option.some_ne_none _
  · rw [Log.pids, hsession, hkeys]
    show pids'.keys = _
    rw [Dict.keys, Dict.entries_set_of_not_mem _ _ hkey, List.map_append]
    rfl

end PidLog

/-! ## The two copies -/

/-- `str` does not make one text of two pids. -/
theorem toString_injective {m n : ℕ} (h : toString m = toString n) : m = n := by
  have hdigits : Nat.toDigits 10 m = Nat.toDigits 10 n := by
    rw [← Nat.toList_repr, ← Nat.toList_repr]
    exact congrArg String.toList h
  rw [← Nat.ofDigitChars_ten_toDigits (n := m), hdigits, Nat.ofDigitChars_ten_toDigits]

namespace LogSystem

variable {rootPid serverPid : ℕ} {s s' t : LogSystem} {events : List LogEvent}

/-- The file and the copies have the session of the root process only. -/
structure Sound (rootPid : ℕ) (s : LogSystem) : Prop where
  file : ∃ log, s.file = .saved log ∧ log.Only (toString rootPid)
  client : s.client.Only (toString rootPid)
  server : ∀ log, s.server = some log → log.Only (toString rootPid)

/-- The pids in the file and in the copies. -/
def copies (rootPid : ℕ) (s : LogSystem) : Copies String where
  file := (s.file.pids rootPid).toFinset
  first := (s.client.pids (toString rootPid)).toFinset
  phase := s.phase
  second := s.server.map fun log => (log.pids (toString rootPid)).toFinset
  unsaved := s.unsaved

/-- An event as one on sets of pids. -/
def copyEvent : LogEvent → CopyEvent String
  | .clientEnter _ => .enter
  | .clientSave => .save
  | .serverLoad => .load
  | .serverEnter pid _ _ => .add (toString pid)
  | .serverSave => .store

theorem toFinset_concat (pids : List String) (pid : String) :
    (pids ++ [pid]).toFinset = insert pid pids.toFinset := by
  rw [List.toFinset_append, List.toFinset_cons, List.toFinset_nil, insert_empty_eq, Finset.union_comm,
    Finset.singleton_union]

theorem copies_second {log : Log} (h : s.server = some log) :
    (s.copies rootPid).second = some (log.pids (toString rootPid)).toFinset := by
  rw [copies, h]
  rfl

/-- The entry of the pipe process is one on sets of pids. -/
theorem copies_clientEnter (hs : s.Sound rootPid) {now : Timestamp}
    (hstep : step serverPid s (.clientEnter now) = some s') :
    Copies.step (toString serverPid) (s.copies rootPid) .enter = some (s'.copies rootPid) ∧ s'.Sound rootPid := by
  rw [step] at hstep
  split at hstep
  · rename_i hphase
    rw [Copies.step, if_pos (show (s.copies rootPid).phase = .ready from hphase)]
    by_cases hmem : toString serverPid ∈ s.client.pids (toString rootPid)
    · rw [PidLog.enter_old (s := { log := s.client, file := s.file }) _ now hs.client hmem] at hstep
      obtain rfl := Option.some.inj hstep
      rw [if_pos (show _ ∈ (s.copies rootPid).first from List.mem_toFinset.mpr hmem)]
      exact ⟨rfl, hs.file, hs.client, hs.server⟩
    · obtain ⟨log, hok, honly, hpids⟩ :=
        PidLog.enter_new (s := { log := s.client, file := s.file }) "node server" now hs.client hmem
      rw [hok] at hstep
      obtain rfl := Option.some.inj hstep
      rw [if_neg (show _ ∉ (s.copies rootPid).first from fun h => hmem (List.mem_toFinset.mp h))]
      refine ⟨?_, hs.file, honly, hs.server⟩
      rw [copies, copies, hpids, toFinset_concat]
  · cases hstep

/-- The entry of a worker is one on sets of pids. -/
theorem copies_serverEnter (hs : s.Sound rootPid) {pid : ℕ} {name : String} {now : Timestamp}
    (hstep : step serverPid s (.serverEnter pid name now) = some s') :
    Copies.step (toString serverPid) (s.copies rootPid) (.add (toString pid)) = some (s'.copies rootPid) ∧
      s'.Sound rootPid := by
  rw [step, Option.bind_eq_some_iff] at hstep
  obtain ⟨log, hserver, hstep⟩ := hstep
  have honly := hs.server log hserver
  rw [Copies.step, copies_second hserver, Option.bind_some]
  split at hstep
  · cases hstep
  · rename_i henabled
    rw [if_neg (show ¬ (s.copies rootPid).unsaved = true from fun h => henabled (Or.inl h))]
    by_cases hmem : toString pid ∈ log.pids (toString rootPid)
    · rw [PidLog.enter_old (s := { log := log, file := s.file }) name now honly hmem] at hstep
      obtain rfl := Option.some.inj hstep
      rw [if_pos (List.mem_toFinset.mpr hmem)]
      exact ⟨rfl, hs⟩
    · obtain ⟨log', hok, honly', hpids⟩ :=
        PidLog.enter_new (s := { log := log, file := s.file }) name now honly hmem
      rw [hok] at hstep
      obtain rfl := Option.some.inj hstep
      rw [if_neg fun h => hmem (List.mem_toFinset.mp h)]
      refine ⟨?_, hs.file, hs.client, fun log'' hlog'' => ?_⟩
      · rw [← toFinset_concat, ← hpids]
        rfl
      · obtain rfl := Option.some.inj hlog''
        exact honly'

theorem copies_clientSave (hs : s.Sound rootPid) (hstep : step serverPid s .clientSave = some s') :
    Copies.step (toString serverPid) (s.copies rootPid) (copyEvent .clientSave) = some (s'.copies rootPid) ∧
      s'.Sound rootPid := by
  rw [step] at hstep
  split at hstep
  · rename_i hphase
    obtain rfl := Option.some.inj hstep
    rw [copyEvent, Copies.step, if_pos (show (s.copies rootPid).phase = .unsaved from hphase)]
    exact ⟨rfl, ⟨s.client, rfl, hs.client⟩, hs.client, hs.server⟩
  · cases hstep

theorem copies_serverLoad (hs : s.Sound rootPid) (hstep : step serverPid s .serverLoad = some s') :
    Copies.step (toString serverPid) (s.copies rootPid) (copyEvent .serverLoad) = some (s'.copies rootPid) ∧
      s'.Sound rootPid := by
  rw [step] at hstep
  split at hstep
  · rename_i hserver
    obtain rfl := Option.some.inj hstep
    obtain ⟨log, hfile, honly⟩ := hs.file
    have hsecond : (s.copies rootPid).second = none := by
      rw [copies, hserver]
      rfl
    rw [copyEvent, Copies.step, if_pos hsecond, hfile]
    refine ⟨?_, ⟨log, rfl, honly⟩, hs.client, fun log' hlog' => ?_⟩
    · rw [copies, copies, hfile]
      rfl
    · obtain rfl := Option.some.inj hlog'
      exact honly
  · cases hstep

theorem copies_serverSave (hs : s.Sound rootPid) (hstep : step serverPid s .serverSave = some s') :
    Copies.step (toString serverPid) (s.copies rootPid) (copyEvent .serverSave) = some (s'.copies rootPid) ∧
      s'.Sound rootPid := by
  rw [step, Option.bind_eq_some_iff] at hstep
  obtain ⟨log, hserver, hstep⟩ := hstep
  rw [copyEvent, Copies.step, copies_second hserver, Option.bind_some]
  split at hstep
  · rename_i hunsaved
    obtain rfl := Option.some.inj hstep
    rw [if_pos (show (s.copies rootPid).unsaved = true from hunsaved)]
    refine ⟨?_, ⟨log, rfl, hs.server log hserver⟩, hs.client, hs.server⟩
    rw [← copies_second hserver]
    rfl
  · cases hstep

/-- The sets of pids follow the logs. -/
theorem copies_step (hs : s.Sound rootPid) {e : LogEvent} (hstep : step serverPid s e = some s') :
    Copies.step (toString serverPid) (s.copies rootPid) (copyEvent e) = some (s'.copies rootPid) ∧
      s'.Sound rootPid := by
  cases e with
  | clientEnter now => exact copies_clientEnter hs hstep
  | clientSave => exact copies_clientSave hs hstep
  | serverLoad => exact copies_serverLoad hs hstep
  | serverEnter pid name now => exact copies_serverEnter hs hstep
  | serverSave => exact copies_serverSave hs hstep

/-- With no step of the server in between, the steps of the pipe process are a call of `log_pid`. -/
theorem logPid_steps (hs : s.Sound rootPid) (hphase : s.phase = .ready) (serverPid : ℕ) (now : Timestamp) :
    ∃ saves t, (saves = [] ∨ saves = [.clientSave]) ∧
      runFrom (step serverPid) s (.clientEnter now :: saves) = some t ∧ t.phase = .done ∧
      PidLog.logPid serverPid "node server" now { log := s.client, file := s.file }
        = .ok () { log := t.client, file := t.file } := by
  by_cases hmem : toString serverPid ∈ s.client.pids (toString rootPid)
  · have hold := PidLog.enter_old (s := { log := s.client, file := s.file }) "node server" now hs.client hmem
    refine ⟨[], { s with phase := .done }, Or.inl rfl, ?_, rfl, ?_⟩
    · rw [runFrom, step, if_pos hphase, hold]
      rfl
    · rw [PidLog.logPid, bind_ok hold]
      rfl
  · obtain ⟨log, hnew, -⟩ :=
      PidLog.enter_new (s := { log := s.client, file := s.file }) "node server" now hs.client hmem
    refine ⟨[.clientSave], { s with client := log, file := .saved log, phase := .done }, Or.inr rfl, ?_, rfl, ?_⟩
    · rw [runFrom, step, if_pos hphase, hnew]
      rfl
    · rw [PidLog.logPid, bind_ok hnew]
      rfl

theorem pids_init (file : LogFile) : (PidLog.init file).log.pids (toString rootPid) = file.pids rootPid := by
  cases file with
  | missing | unreadable => rfl
  | saved log => rfl

/-- At the spawn both sets are the pids that the session of the root process had. -/
theorem copies_spawn (rootPid : ℕ) (now : Timestamp) {file : LogFile} (hfile : file.WellFormed) :
    (spawn rootPid now file).copies rootPid = Copies.spawned (file.pids rootPid).toFinset ∧
      (spawn rootPid now file).Sound rootPid := by
  obtain ⟨log, hstart, honly, hpids⟩ := PidLog.startSession_eq rootPid now hfile
  rw [pids_init] at hpids
  rw [spawn, hstart]
  refine ⟨?_, ⟨log, rfl, honly⟩, honly, fun _ hserver => by cases hserver⟩
  show Copies.mk (log.pids (toString rootPid)).toFinset (log.pids (toString rootPid)).toFinset .ready none false = _
  rw [hpids]
  rfl

/-- The start of another session kills the pids of this one; a root process with the same pid kills none. -/
theorem killedBy_eq {log : Log} (h : log.Only (toString rootPid)) (nextPid : ℕ) (later : Timestamp) :
    (LogFile.saved log).killedBy nextPid later = if nextPid = rootPid then [] else log.pids (toString rootPid) := by
  obtain ⟨log', hstart, -⟩ := PidLog.startSession_eq nextPid later h.wellFormed
  rw [LogFile.killedBy, hstart]
  show [] ++ (log.keys.filter _).flatMap log.pids = _
  rw [List.nil_append, h.keys]
  by_cases hnext : nextPid = rootPid
  · rw [if_pos hnext, List.flatMap_eq_nil_iff]
    intro pid hpid
    obtain ⟨hpid, hne⟩ := List.mem_filter.mp hpid
    rw [hnext, List.mem_singleton.mp hpid] at hne
    exact absurd rfl (of_decide_eq_true hne)
  · have hall : [toString rootPid].filter (fun pid => pid ≠ toString nextPid) = [toString rootPid] := by
      rw [List.filter_eq_self]
      intro pid hpid
      rw [List.mem_singleton.mp hpid]
      exact decide_eq_true fun heq => hnext (toString_injective heq).symm
    rw [if_neg hnext, hall]
    exact List.append_nil _

theorem add_mem_iff {x : String} :
    .add x ∈ events.map copyEvent ↔ ∃ pid ∈ workers events, toString pid = x := by
  constructor
  · intro h
    obtain ⟨e, he, heq⟩ := List.mem_map.mp h
    cases e with
    | serverEnter pid name now =>
      obtain rfl := CopyEvent.add.inj heq
      exact ⟨pid, List.mem_filterMap.mpr ⟨_, he, rfl⟩, rfl⟩
    | clientEnter | clientSave | serverLoad | serverSave => cases heq
  · rintro ⟨pid, hpid, rfl⟩
    obtain ⟨e, he, heq⟩ := List.mem_filterMap.mp hpid
    cases e with
    | serverEnter pid' name now =>
      obtain rfl := Option.some.inj heq
      exact List.mem_map_of_mem (f := copyEvent) he
    | clientEnter | clientSave | serverLoad | serverSave => cases heq

theorem loadsAfterSave_iff : Copies.LoadsAfterSave (events.map copyEvent) ↔ LoadsAfterSave events := by
  constructor
  · rintro ⟨before, after, hsplit, hsave⟩
    obtain ⟨xs, ys, rfl, rfl, hys⟩ := List.map_eq_append_iff.mp hsplit
    obtain ⟨e, ys, rfl, hload, -⟩ := List.map_eq_cons_iff.mp hys
    obtain ⟨e', he', hsave⟩ := List.mem_map.mp hsave
    cases e with
    | serverLoad =>
      cases e' with
      | clientSave => exact ⟨xs, ys, rfl, he'⟩
      | clientEnter | serverLoad | serverEnter | serverSave => cases hsave
    | clientEnter | clientSave | serverEnter | serverSave => cases hload
  · rintro ⟨before, after, rfl, hsave⟩
    refine ⟨before.map copyEvent, after.map copyEvent, ?_, List.mem_map_of_mem (f := copyEvent) hsave⟩
    rw [List.map_append, List.map_cons]
    rfl

/-- The server does not log its own pid. -/
theorem serverPid_not_mem_workers (hrun : runFrom (step serverPid) s events = some t) :
    serverPid ∉ workers events := by
  intro hmem
  obtain ⟨e, he, heq⟩ := List.mem_filterMap.mp hmem
  cases e with
  | serverEnter pid name now =>
    obtain rfl := Option.some.inj heq
    obtain ⟨before, after, rfl⟩ := List.append_of_mem he
    obtain ⟨s₁, s₂, -, hstep, -⟩ := runFrom_split hrun
    rw [step, Option.bind_eq_some_iff] at hstep
    obtain ⟨log, -, hstep⟩ := hstep
    rw [if_pos (Or.inr rfl)] at hstep
    cases hstep
  | clientEnter | clientSave | serverLoad | serverSave => cases heq

/-- A run is one on sets of pids. -/
theorem copies_run {now : Timestamp} {file : LogFile} (hfile : file.WellFormed)
    (hrun : runFrom (step serverPid) (spawn rootPid now file) events = some t) :
    runFrom (Copies.step (toString serverPid)) (Copies.spawned (file.pids rootPid).toFinset) (events.map copyEvent)
      = some (t.copies rootPid) ∧ t.Sound rootPid := by
  obtain ⟨hspawn, hsound⟩ := copies_spawn rootPid now hfile
  have hfollow : ∀ (s : LogSystem) (a : Copies String) e s', s.Sound rootPid ∧ a = s.copies rootPid →
      step serverPid s e = some s' → ∃ a', Copies.step (toString serverPid) a (copyEvent e) = some a' ∧
        s'.Sound rootPid ∧ a' = s'.copies rootPid := by
    rintro s _ e s' ⟨hs, rfl⟩ hstep
    obtain ⟨hcopies, hs'⟩ := copies_step hs hstep
    exact ⟨_, hcopies, hs', rfl⟩
  obtain ⟨_, hcopies, ht, rfl⟩ := runFrom_follows hfollow ⟨hsound, rfl⟩ hrun
  rw [hspawn] at hcopies
  exact ⟨hcopies, ht⟩

/-- The file that a run leaves is well-formed for the next session. -/
theorem wellFormed_run {now : Timestamp} {file : LogFile} (hfile : file.WellFormed)
    (hrun : runFrom (step serverPid) (spawn rootPid now file) events = some t) : t.file.WellFormed := by
  obtain ⟨log, hlog, honly⟩ := (copies_run hfile hrun).2.file
  rw [hlog]
  exact honly.wellFormed

/-- No pid is lost exactly when the next root process has another pid, and the pid of the server was in the
session already, or is saved before the server loads the file, or the server logs none that is new. -/
theorem pid_log_iff {nextPid : ℕ} {now later : Timestamp} {file : LogFile} (hfile : file.WellFormed)
    (hrun : runFrom (step serverPid) (spawn rootPid now file) events = some t) (hidle : t.Idle) :
    NoneLost rootPid serverPid nextPid later events t.file ↔ nextPid ≠ rootPid ∧
      (toString serverPid ∈ file.pids rootPid ∨ LoadsAfterSave events ∨
        ∀ pid ∈ workers events, toString pid ∈ file.pids rootPid) := by
  obtain ⟨hcopies, ht⟩ := copies_run hfile hrun
  have hadd : .add (toString serverPid) ∉ events.map copyEvent := by
    intro h
    obtain ⟨pid, hpid, heq⟩ := add_mem_iff.mp h
    rw [toString_injective heq] at hpid
    exact serverPid_not_mem_workers hrun hpid
  have hkept := Copies.kept_iff hcopies ⟨hidle.phase, hidle.unsaved⟩ hadd
  rw [loadsAfterSave_iff] at hkept
  simp only [add_mem_iff, forall_exists_index, and_imp, forall_apply_eq_imp_iff₂, copies, List.mem_toFinset] at hkept
  rw [← hkept]
  obtain ⟨log, hfile', honly⟩ := ht.file
  rw [NoneLost, hfile', killedBy_eq honly, List.forall_mem_cons]
  by_cases hnext : nextPid = rootPid
  · rw [if_pos hnext]
    exact iff_of_false (fun h => List.not_mem_nil h.1.2) fun h => h.1 hnext
  · have hpids : (LogFile.saved log).pids rootPid = log.pids (toString rootPid) := rfl
    rw [if_neg hnext, and_iff_right hnext, hpids]
    simp only [and_self]

/-- The time of the examples. -/
def noon : Timestamp := { logTime := 0, createdTimeStr := "12:00:00", creatorPid := 1 }

/-- The server loads the file after the pid of the server has been saved, and logs a worker. -/
theorem pid_log_loaded_late : ∃ t, runFrom (step 2) (spawn 1 noon .missing)
      [.clientEnter noon, .clientSave, .serverLoad, .serverEnter 3 "a" noon, .serverSave] = some t ∧
    NoneLost 1 2 4 noon [.clientEnter noon, .clientSave, .serverLoad, .serverEnter 3 "a" noon, .serverSave] t.file := by
  have hrun : (runFrom (step 2) (spawn 1 noon .missing)
      [.clientEnter noon, .clientSave, .serverLoad, .serverEnter 3 "a" noon, .serverSave]).any
      (fun t => decide (t.phase = .done ∧ t.unsaved = false)) = true := by
    decide +kernel
  obtain ⟨t, ht, hidle⟩ := (Option.any_eq_true _ _).mp hrun
  obtain ⟨hphase, hunsaved⟩ := of_decide_eq_true hidle
  have hfile : LogFile.missing.WellFormed := fun _ hsession => absurd hsession List.not_mem_nil
  refine ⟨t, ht, (pid_log_iff hfile ht ⟨hphase, hunsaved⟩).mpr ⟨by decide, Or.inr (Or.inl ?_)⟩⟩
  exact ⟨[.clientEnter noon, .clientSave], [.serverEnter 3 "a" noon, .serverSave], rfl,
    List.mem_cons_of_mem _ List.mem_cons_self⟩

/-- The server loads the file before the pid of the server is saved, and its own save drops this pid. -/
theorem server_pid_lost : ∃ t, runFrom (step 2) (spawn 1 noon .missing)
      [.serverLoad, .clientEnter noon, .clientSave, .serverEnter 3 "a" noon, .serverSave] = some t ∧ t.Idle ∧
    t.file.pids 1 = ["3"] ∧ t.file.killedBy 4 noon = ["3"] ∧
    ¬ NoneLost 1 2 4 noon [.serverLoad, .clientEnter noon, .clientSave, .serverEnter 3 "a" noon, .serverSave]
      t.file := by
  have hrun : (runFrom (step 2) (spawn 1 noon .missing)
      [.serverLoad, .clientEnter noon, .clientSave, .serverEnter 3 "a" noon, .serverSave]).any (fun t =>
        decide ((t.phase = .done ∧ t.unsaved = false) ∧ t.file.pids 1 = ["3"] ∧
          t.file.killedBy 4 noon = ["3"] ∧ toString 2 ∉ ["3"])) = true := by
    decide +kernel
  obtain ⟨t, ht, hlost⟩ := (Option.any_eq_true _ _).mp hrun
  obtain ⟨⟨hphase, hunsaved⟩, hpids, hkilled, hnot⟩ := of_decide_eq_true hlost
  refine ⟨t, ht, ⟨hphase, hunsaved⟩, hpids, hkilled, fun hnone => hnot ?_⟩
  have hserver := (hnone 2 List.mem_cons_self).1
  rwa [hpids] at hserver

end LogSystem

end Upipe
