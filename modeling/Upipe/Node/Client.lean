import Upipe.Node.Repeated

/-!
# Requests that are sent again

`retry` sends a request again on any exception, so the endpoint runs once for each attempt while the caller
sees one answer. `retried_iff` says for which requests that makes no difference: a repeated `load_pipe` or
`register_proc` is refused, and a repeated `notify_termination` finds everything done, unless the pipe has
become PENDING_TERMINATION in between.
-/

namespace Upipe

open Upipe.Common

/-! ## The decorator -/

section Retry

variable {σ : Type} (serve : PyM σ APIResponse) (lost : ℕ → Bool)

/-- The loop of `retry`. The response of an attempt is lost when `lost` says so: the caller then sees an
exception, as it does when the server raises or answers without success. -/
def retryFrom : (attempt left : ℕ) → PyM σ (PyVal × List UPipeMessage)
  | _, 0 => throw ⟨.timeoutError, "Error on server access"⟩
  | attempt, left + 1 => fun s =>
      match serve s with
      | .ok content s' =>
          if lost attempt = false ∧ content.success then .ok (content.data, content.messages) s'
          else retryFrom (attempt + 1) left s'
      | .error _ s' => retryFrom (attempt + 1) left s'

/-- `retry(times)`. -/
def retry (times : ℕ) : PyM σ (PyVal × List UPipeMessage) := retryFrom serve lost 0 times

variable {serve lost} {s s₁ : σ} {content : APIResponse} {attempt left : ℕ}

theorem retryFrom_ok (h : serve s = .ok content s₁) (hsuccess : content.success) :
    retryFrom serve lost attempt (left + 1) s =
      if lost attempt = false then .ok (content.data, content.messages) s₁
      else retryFrom serve lost (attempt + 1) left s₁ := by
  rw [retryFrom]
  simp only [h, hsuccess, and_true]

/-- The server refuses a request in a state, and stays in it. -/
structure Refuses (serve : PyM σ APIResponse) (s : σ) : Prop where
  state : stateOf (serve s) = s
  success : ∀ content s', serve s = .ok content s' → content.success = false

/-- A request that is refused once is refused to the end. -/
theorem Refuses.retryFrom (hrefuses : Refuses serve s) :
    Upipe.retryFrom serve lost attempt left s = .error ⟨.timeoutError, "Error on server access"⟩ s := by
  induction left generalizing attempt with
  | zero => rfl
  | succ left ih =>
    have hstate := hrefuses.state
    rw [Upipe.retryFrom]
    cases h : serve s with
    | ok content s' =>
      rw [h] at hstate
      obtain rfl : s' = s := hstate
      have hfail : ¬ (lost attempt = false ∧ content.success = true) := by
        rw [hrefuses.success content s' h]
        exact fun hsuccess => Bool.false_ne_true hsuccess.2
      simp only [h, if_neg hfail]
      exact ih
    | error e s' =>
      rw [h] at hstate
      obtain rfl : s' = s := hstate
      simp only [h]
      exact ih

/-- A request that succeeds without a change succeeds as soon as a response arrives. -/
theorem retryFrom_repeats (h : serve s = .ok content s) (hsuccess : content.success) {j : ℕ} (hj : j < left)
    (harrives : lost (attempt + j) = false) :
    retryFrom serve lost attempt left s = .ok (content.data, content.messages) s := by
  induction left generalizing attempt j with
  | zero => exact absurd hj (Nat.not_lt_zero j)
  | succ left ih =>
    rw [retryFrom_ok h hsuccess]
    cases hlost : lost attempt with
    | false => rw [if_pos rfl]
    | true =>
      rw [if_neg Bool.noConfusion]
      cases j with
      | zero =>
        rw [Nat.add_zero, hlost] at harrives
        cases harrives
      | succ j =>
        rw [Nat.add_succ, ← Nat.succ_add] at harrives
        exact ih (Nat.lt_of_succ_lt_succ hj) harrives

/-- A call that returns does so by its last attempt. What every attempt keeps holds in front of it. -/
theorem retryFrom_returns {P : σ → Prop} (hkeeps : Keeps P serve) (hs : P s) {a : PyVal × List UPipeMessage} {s' : σ}
    (h : retryFrom serve lost attempt left s = .ok a s') :
    ∃ t content, P t ∧ serve t = .ok content s' ∧ content.success = true := by
  induction left generalizing attempt s with
  | zero => cases h
  | succ left ih =>
    have hnext := hkeeps s hs
    rw [retryFrom] at h
    cases hserve : serve s with
    | ok content t =>
      rw [hserve] at hnext
      simp only [hserve] at h
      split at h
      · rename_i harrived
        cases h
        exact ⟨s, content, hs, hserve, harrived.2⟩
      · exact ih hnext h
    | error e t =>
      rw [hserve] at hnext
      simp only [hserve] at h
      exact ih hnext h

end Retry

/-- The `times` of the request's decorator. -/
def Request.times : Request → ℕ
  | .loadPipe _ => 10
  | .registerProc _ | .notifyTermination .. => 3

/-! ## What may be repeated -/

/-- The termination of no pipe with the processor begins by a task that is still scheduled. -/
def NoneBegins (procId : String) (s : LoadingNode) : Prop :=
  ∀ c ∈ s.node.pipeControllers.values, procId ∈ c.processors.keys →
    c.tasks.getLast? = some .pendingTermination → c.status = .pendingTermination

/-- The condition under which a request can be repeated. -/
def Request.Repeatable (s : LoadingNode) : Request → Prop
  | .notifyTermination _ procId => NoneBegins procId s
  | .loadPipe _ | .registerProc _ => False

/-! ## Requests, again -/

namespace LoadingNode

variable {host : Host} {request : Request} {content : APIResponse} {s s₁ s' : LoadingNode} {lost : ℕ → Bool}

/-- What is served is answered by the endpoint. -/
theorem serve_ok (h : serve host request s = .ok content s₁) :
    ∃ s', endpoint host request s = .ok content s' ∧ s₁ = s'.settle := by
  rw [serve] at h
  cases hcall : endpoint host request s with
  | error e s' =>
    rw [hcall] at h
    cases h
  | ok content' s' =>
    rw [hcall] at h
    obtain ⟨rfl, rfl⟩ := EStateM.Result.ok.inj h
    exact ⟨s', rfl, rfl⟩

/-- A request that changes nothing is served without a change where nothing is scheduled. -/
theorem serve_settled (h : stateOf (endpoint host request s.settle) = s.settle) :
    stateOf (serve host request s.settle) = s.settle := by
  rw [serve]
  cases hcall : endpoint host request s.settle with
  | ok content s' =>
    rw [hcall] at h
    obtain rfl : s' = s.settle := h
    exact s.settle_settle
  | error e s' =>
    rw [hcall] at h
    obtain rfl : s' = s.settle := h
    exact s.settle_settle

theorem loaded_of_loadPipeEndpoint {pipe : APIPipe} (h : loadPipeEndpoint host pipe s = .ok content s')
    (hsuccess : content.success) : pipe.id ∈ s'.node.pipeControllers.keys := by
  rw [loadPipeEndpoint] at h
  cases hload : loadPipe host.refuses pipe s with
  | error e s'' =>
    rw [hload] at h
    dsimp only at h
    split at h
    · cases h
      cases hsuccess
    · cases h
      cases hsuccess
  | ok _ s'' =>
    rw [hload] at h
    obtain ⟨-, rfl⟩ := EStateM.Result.ok.inj h
    by_cases hloaded : pipe.id ∈ s.node.pipeControllers.keys
    · obtain ⟨e, he⟩ := loadPipe_loaded _ hloaded
      rw [hload] at he
      cases he
    · rw [loadPipe_new hloaded] at hload
      split at hload
      · obtain ⟨-, rfl⟩ := EStateM.Result.ok.inj hload
        exact (Dict.mem_keys_set _).mpr (Or.inl rfl)
      · cases hload

/-- A pipe that has been loaded is refused when it comes again. -/
theorem serve_loadPipe_again {pipe : APIPipe} (h : serve host (.loadPipe pipe) s = .ok content s₁)
    (hsuccess : content.success) : Refuses (serve host (.loadPipe pipe)) s₁ := by
  obtain ⟨s', hendpoint, rfl⟩ := serve_ok h
  have hloaded : pipe.id ∈ s'.settle.node.pipeControllers.keys := by
    show pipe.id ∈ (s'.node.pipeControllers.map PipeController.settle).keys
    rw [Dict.keys_map]
    exact loaded_of_loadPipeEndpoint hendpoint hsuccess
  have hagain : ∃ e, loadPipe host.refuses pipe s'.settle = .error e s'.settle := loadPipe_loaded _ hloaded
  obtain ⟨e, he⟩ := hagain
  have hrefused : ∃ content', endpoint host (.loadPipe pipe) s'.settle = .ok content' s'.settle ∧
      content'.success = false := by
    rw [endpoint, loadPipeEndpoint, he]
    dsimp only
    split
    · exact ⟨_, rfl, rfl⟩
    · exact ⟨_, rfl, rfl⟩
  obtain ⟨content', hcontent', hfail⟩ := hrefused
  refine ⟨serve_settled (congrArg stateOf hcontent'), fun content'' s'' h' => ?_⟩
  obtain ⟨_, hendpoint', -⟩ := serve_ok h'
  obtain ⟨rfl, -⟩ := EStateM.Result.ok.inj (hcontent'.symm.trans hendpoint')
  exact hfail

theorem onNode_of_ok {α : Type} {m : PyM ComputeNode α} {a : α} {node : ComputeNode} (h : m s.node = .ok a node) :
    onNode m s = .ok a { s with node := node } := by
  rw [onNode]
  simp only [h]

theorem onNode_of_error {α : Type} {m : PyM ComputeNode α} {e : PyError} {node : ComputeNode}
    (h : m s.node = .error e node) : onNode m s = .error e { s with node := node } := by
  rw [onNode]
  simp only [h]

/-- A call on the node that returns. -/
theorem onNode_ok {α : Type} {m : PyM ComputeNode α} {a : α} (h : onNode m s = .ok a s') :
    ∃ node, m s.node = .ok a node ∧ s' = { s with node := node } := by
  rw [onNode] at h
  cases hcall : m s.node with
  | error e node =>
    simp only [hcall] at h
    cases h
  | ok b node =>
    simp only [hcall] at h
    obtain ⟨rfl, rfl⟩ := EStateM.Result.ok.inj h
    exact ⟨node, rfl, rfl⟩

/-- An instance that has been registered is refused when it comes again. -/
theorem serve_registerProc_again {pid : ℕ} (h : serve host (.registerProc pid) s = .ok content s₁) :
    Refuses (serve host (.registerProc pid)) s₁ := by
  obtain ⟨s', hendpoint, rfl⟩ := serve_ok h
  rw [endpoint, registerProcEndpoint] at hendpoint
  cases hregister : onNode (ComputeNode.registerLaunchedInstance host.ps pid) s with
  | error e s'' =>
    rw [bind_error hregister] at hendpoint
    cases hendpoint
  | ok r s'' =>
    obtain ⟨node₁, hok, rfl⟩ := onNode_ok hregister
    rw [bind_ok hregister, get_bind_apply] at hendpoint
    -- what follows the registration only reads the node
    obtain rfl : s' = { s with node := node₁ } := by
      cases hat : node₁.instanceAt r with
      | none =>
        simp only [hat] at hendpoint
        cases hendpoint
      | some i =>
        simp only [hat] at hendpoint
        cases hqueues : getProcQueues s.wiring i.proc.id with
        | error e =>
          rw [hqueues, bind_error (ofExcept_error _ _)] at hendpoint
          cases hendpoint
        | ok queues =>
          rw [hqueues, bind_ok (ofExcept_ok _ _)] at hendpoint
          exact (EStateM.Result.ok.inj hendpoint).2.symm
    obtain ⟨e, he⟩ := ComputeNode.register_again hok
    have hagain : onNode (ComputeNode.registerLaunchedInstance host.ps pid) { s with node := node₁ }.settle
        = .error e { s with node := node₁ }.settle := onNode_of_error he
    have hserve : serve host (.registerProc pid) { s with node := node₁ }.settle
        = .error e { s with node := node₁ }.settle := by
      rw [serve, endpoint, registerProcEndpoint, bind_error hagain, mapState, settle_settle]
    refine ⟨congrArg stateOf hserve, fun content' s' hok => ?_⟩
    rw [hserve] at hok
    cases hok

/-- A notice that returns. -/
theorem serve_notifyTermination_ok {pid : ℕ} {procId : String}
    (h : serve host (.notifyTermination pid procId) s = .ok content s₁) : ∃ node,
      ComputeNode.notifyLoop host pid procId s.node.pipeControllers.keys s.node = .ok () node ∧
      content = { success := true } ∧ s₁ = { s with node := node }.settle := by
  obtain ⟨s', hendpoint, rfl⟩ := serve_ok h
  rw [endpoint, notifyTerminationEndpoint] at hendpoint
  cases hnotify : onNode (ComputeNode.notifyTermination host pid procId) s with
  | error e s'' =>
    rw [bind_error hnotify] at hendpoint
    cases hendpoint
  | ok _ s'' =>
    obtain ⟨node, hok, rfl⟩ := onNode_ok hnotify
    rw [bind_ok hnotify] at hendpoint
    obtain ⟨rfl, rfl⟩ := EStateM.Result.ok.inj hendpoint
    rw [ComputeNode.notifyTermination, get_bind_apply] at hok
    exact ⟨node, hok, rfl, rfl⟩

/-- What a notice that returns has done to a pipe. -/
theorem notice_of_notifyLoop {pid : ℕ} {procId name : String} {node node' : ComputeNode} {c : PipeController}
    (h : ComputeNode.notifyLoop host pid procId node.pipeControllers.keys node = .ok () node')
    (hget : (node'.pipeControllers.map PipeController.settle).get? name = some c) : ∃ c₀ c₁,
      node.pipeControllers.get? name = some c₀ ∧ PipeController.notice host pid procId c₀ = .ok () c₁ ∧
      c = c₁.settle := by
  rw [Dict.get?_map, Option.map_eq_some_iff] at hget
  obtain ⟨c₁, hget, rfl⟩ := hget
  obtain ⟨c₀, hget₀, hnotice, -⟩ := ComputeNode.notifyLoop_ok node.pipeControllers.nodup h hget
  exact ⟨c₀, c₁, hget₀, hnotice (Dict.mem_keys_of_get? _ hget₀), rfl⟩

/-- A notice that returns can be repeated where no termination begins by a scheduled task. -/
theorem serve_notifyTermination_again {pid : ℕ} {procId : String}
    (hnone : s.node.NoneRunning) (hbegins : NoneBegins procId s)
    (h : serve host (.notifyTermination pid procId) s = .ok content s₁) :
    serve host (.notifyTermination pid procId) s₁ = .ok content s₁ := by
  obtain ⟨node, hloop, rfl, rfl⟩ := serve_notifyTermination_ok h
  have hagain : ComputeNode.notifyTermination host pid procId
      { pipeControllers := node.pipeControllers.map PipeController.settle }
      = .ok () { pipeControllers := node.pipeControllers.map PipeController.settle } := by
    rw [ComputeNode.notifyTermination, get_bind_apply]
    apply ComputeNode.notifyLoop_same
    intro name hname
    obtain ⟨c, hget⟩ := Option.ne_none_iff_exists'.mp (mt (Dict.get?_eq_none_iff _).mp (not_not_intro hname))
    obtain ⟨c₀, c₁, hget₀, hnotice, rfl⟩ := notice_of_notifyLoop hloop hget
    have hmem := List.mem_map_of_mem (f := Prod.snd) ((Dict.get?_eq_some_iff _).mp hget₀)
    have hidle : c₀.NoneRunning := ComputeNode.Every.get hnone hget₀
    refine ⟨c₁.settle, hget, PipeController.notice_again hidle hnotice fun hproc hpending => ?_⟩
    obtain ⟨hlast, hstatus⟩ := (PipeController.settle_status_eq_pending_iff hidle hproc hnotice).mp hpending
    exact hstatus (hbegins c₀ hmem hproc hlast)
  have hcall : onNode (ComputeNode.notifyTermination host pid procId) { s with node := node }.settle
      = .ok () { s with node := node }.settle := onNode_of_ok hagain
  rw [serve, endpoint, notifyTerminationEndpoint, bind_ok hcall]
  show EStateM.Result.ok _ (settle _) = _
  rw [settle_settle]

/-- In the pipe of that name the termination has begun, and nothing is scheduled. -/
def BegunAt (procId name : String) (s : LoadingNode) : Prop :=
  s.node.At name fun c => c.Begun procId ∧ c.tasks = []

theorem keeps_begunAt (host : Host) (pid : ℕ) {procId name : String} :
    Keeps (BegunAt procId name) (serve host (.notifyTermination pid procId)) := by
  intro s hs
  obtain ⟨c, hget, hbegun, -⟩ := hs
  have hkept := ComputeNode.keepsAt_notifyTermination host pid s.node ⟨c, hget, hbegun⟩
  have hstate : stateOf (serve host (.notifyTermination pid procId) s)
      = { s with node := stateOf (ComputeNode.notifyTermination host pid procId s.node) }.settle := by
    rw [serve, endpoint, notifyTerminationEndpoint]
    cases hcall : ComputeNode.notifyTermination host pid procId s.node with
    | ok _ node =>
      rw [bind_ok (onNode_of_ok hcall)]
      rfl
    | error e node =>
      rw [bind_error (onNode_of_error hcall)]
      rfl
  rw [hstate]
  obtain ⟨c', hget', hbegun'⟩ := hkept
  refine ⟨c'.settle, ?_, hbegun'.settle, rfl⟩
  show (Dict.map PipeController.settle _).get? name = _
  rw [Dict.get?_map, hget']
  rfl

/-- A notice that is repeated while the termination has begun completes the pipe. -/
theorem BegunAt.completed {pid : ℕ} {procId name : String} (h : BegunAt procId name s)
    (hserve : serve host (.notifyTermination pid procId) s = .ok content s₁) :
    s₁.node.At name fun c => c.status = .completed := by
  have hkept := keeps_begunAt host pid s h
  rw [hserve] at hkept
  obtain ⟨c₂, hget₂, -⟩ := hkept
  obtain ⟨c, hget, hbegun, hempty⟩ := h
  obtain ⟨node, hloop, -, rfl⟩ := serve_notifyTermination_ok hserve
  obtain ⟨c₀, c₁, hget₀, hnotice, rfl⟩ := notice_of_notifyLoop hloop hget₂
  obtain rfl := Option.some.inj (hget.symm.trans hget₀)
  exact ⟨c₁.settle, hget₂, hbegun.completed hempty hnotice⟩

/-- Where a termination begins by a scheduled task, the first notice leaves the pipe PENDING_TERMINATION. -/
theorem exists_begunAt {pid : ℕ} {procId : String} (hnone : s.node.NoneRunning)
    (hbegins : ¬ NoneBegins procId s) (h : serve host (.notifyTermination pid procId) s = .ok content s₁) :
    ∃ name, BegunAt procId name s₁ ∧ s₁.node.At name fun c => c.status = .pendingTermination := by
  obtain ⟨node, hloop, -, rfl⟩ := serve_notifyTermination_ok h
  unfold NoneBegins at hbegins
  push Not at hbegins
  -- the pipe whose scheduled task makes it PENDING_TERMINATION
  obtain ⟨c₀, hc₀, hproc, hlast, hstatus⟩ := hbegins
  obtain ⟨⟨name, _⟩, hitem, rfl⟩ := List.mem_map.mp hc₀
  have hget₀ := (Dict.get?_eq_some_iff _).mpr hitem
  have hidle : PipeController.NoneRunning _ := ComputeNode.Every.get hnone hget₀
  have hname : name ∈ (node.pipeControllers.map PipeController.settle).keys := by
    rw [Dict.keys_map, ComputeNode.keys_of_notifyLoop hloop]
    exact Dict.mem_keys_of_get? _ hget₀
  obtain ⟨c, hget⟩ := Option.ne_none_iff_exists'.mp (mt (Dict.get?_eq_none_iff _).mp (not_not_intro hname))
  obtain ⟨c₀', c₁, hget₀', hnotice, rfl⟩ := notice_of_notifyLoop hloop hget
  obtain rfl := Option.some.inj (hget₀.symm.trans hget₀')
  have hpending := (PipeController.settle_status_eq_pending_iff hidle hproc hnotice).mpr ⟨hlast, hstatus⟩
  obtain ⟨p, last, p', hp, hcall, hprocessors, -, hidle', -⟩ := PipeController.notice_ok hidle hproc hnotice
  have hmem : procId ∈ c₁.settle.processors.keys := by
    show procId ∈ c₁.processors.keys
    rw [hprocessors]
    exact (Dict.mem_keys_set _).mpr (Or.inl rfl)
  have hbegun : c₁.settle.Begun procId :=
    { mem := hmem, noneRunning := hidle', status := Or.inl hpending, tasks := fun _ hstatus => by cases hstatus }
  exact ⟨name, ⟨c₁.settle, hget, hbegun, rfl⟩, c₁.settle, hget, hpending⟩

/-! ## Retried requests -/

/-- A request whose first `k` responses are lost. The caller gets its answer and the node is as after a single
execution exactly when no response is lost or the request is repeatable. -/
theorem retried_iff {k : ℕ} (hreachable : s.node.Reachable)
    (h : serve host request s = .ok content s₁) (hsuccess : content.success) (hlost : ∀ i < k, lost i = true)
    (harrives : lost k = false) (hk : k < request.times) :
    (∃ a, retry (serve host request) lost request.times s = .ok a s₁) ↔ k = 0 ∨ request.Repeatable s := by
  have hnone := hreachable.noneRunning
  obtain ⟨left, hleft⟩ := Nat.exists_eq_succ_of_ne_zero (Nat.ne_zero_of_lt hk)
  rw [retry, hleft, retryFrom_ok h hsuccess]
  cases k with
  | zero => exact iff_of_true ⟨_, if_pos harrives⟩ (Or.inl rfl)
  | succ j =>
    have hfirst : lost 0 ≠ false := by
      rw [hlost 0 (Nat.succ_pos j)]
      exact Bool.noConfusion
    rw [if_neg hfirst, or_iff_right (Nat.succ_ne_zero j)]
    cases request with
    | loadPipe pipe =>
      refine iff_of_false ?_ id
      rintro ⟨a, hretry⟩
      -- the pipe is loaded, so no later attempt is answered with success
      rw [(serve_loadPipe_again h hsuccess).retryFrom] at hretry
      cases hretry
    | registerProc pid =>
      refine iff_of_false ?_ id
      rintro ⟨a, hretry⟩
      -- the instance is READY, so every later attempt raises
      rw [(serve_registerProc_again h).retryFrom] at hretry
      cases hretry
    | notifyTermination pid procId =>
      by_cases hbegins : NoneBegins procId s
      · refine iff_of_true ⟨(content.data, content.messages), ?_⟩ hbegins
        have hj : j < left := Nat.lt_of_succ_lt_succ (hleft ▸ hk)
        have harrives' : lost (0 + 1 + j) = false := by rwa [Nat.zero_add, Nat.add_comm]
        exact retryFrom_repeats (serve_notifyTermination_again hnone hbegins h) hsuccess hj harrives'
      · refine iff_of_false ?_ hbegins
        rintro ⟨a, hretry⟩
        -- the attempt that is answered has completed the pipe, which a single one leaves PENDING_TERMINATION
        obtain ⟨name, hbegun, c, hget, hpending⟩ := exists_begunAt hnone hbegins h
        obtain ⟨t, content', ht, hserve, -⟩ := retryFrom_returns (keeps_begunAt host pid) hbegun hretry
        obtain ⟨c', hget', hcompleted⟩ := ht.completed hserve
        obtain rfl := Option.some.inj (hget.symm.trans hget')
        rw [hpending] at hcompleted
        cases hcompleted

/-- A host that refuses no name, and on which no process has children. -/
def quietHost : Host where
  refuses _ := false
  ps _ := .ok []
  drainList pipe := pipe.processors.values

/-- A node without pipes. -/
def freshNode : LoadingNode := { node := ⟨.empty⟩, wiring := .empty, memory := ∅ }

/-- The node after a pipe of one processor has been loaded and started. -/
def startedNode : LoadingNode :=
  let s := stateOf (endpoint quietHost (.loadPipe APIPipe.oneChild) freshNode)
  { s with node := s.node.withPipe "main" ComputeNode.startedPipe }

theorem reachable_startedNode : startedNode.node.Reachable :=
  .pipe quietHost.drainList (.start fun _ => (7, "")) (.request quietHost (.loadPipe APIPipe.oneChild) .empty)
    (show _ = some (PipeController.load APIPipe.oneChild) from rfl) rfl

/-- A notice of the started instance whose first response is lost. -/
theorem retried_startedNode : ∃ content s₁,
    serve quietHost (.notifyTermination 7 "a") startedNode = .ok content s₁ ∧
      ∃ a, retry (serve quietHost (.notifyTermination 7 "a")) (fun i => i = 0) 3 startedNode = .ok a s₁ := by
  have hrun : (returned (serve quietHost (.notifyTermination 7 "a") startedNode)).any APIResponse.success = true := by
    decide +kernel
  have hbegins : NoneBegins "a" startedNode := by
    unfold NoneBegins
    decide +kernel
  obtain ⟨content, hcontent, hsuccess⟩ := (Option.any_eq_true _ _).mp hrun
  obtain ⟨s₁, h⟩ := returned_eq_some_iff.mp hcontent
  refine ⟨content, s₁, h, (retried_iff (k := 1) reachable_startedNode h hsuccess ?_ rfl ?_).mpr (Or.inr hbegins)⟩
  · intro i hi
    exact decide_eq_true (Nat.lt_one_iff.mp hi)
  · show 1 < 3
    decide

/-- A load whose first response is lost ends in a TimeoutError: each later attempt finds the pipe loaded. -/
theorem lost_load_times_out : ∃ content s₁, freshNode.node.Reachable ∧
    serve quietHost (.loadPipe APIPipe.oneChild) freshNode = .ok content s₁ ∧ content.success = true ∧
      retry (serve quietHost (.loadPipe APIPipe.oneChild)) (fun i => i = 0) (Request.loadPipe APIPipe.oneChild).times
        freshNode = .error ⟨.timeoutError, "Error on server access"⟩ s₁ := by
  have hrun : (returned (serve quietHost (.loadPipe APIPipe.oneChild) freshNode)).any APIResponse.success = true := by
    decide +kernel
  obtain ⟨content, hcontent, hsuccess⟩ := (Option.any_eq_true _ _).mp hrun
  obtain ⟨s₁, h⟩ := returned_eq_some_iff.mp hcontent
  refine ⟨content, s₁, .empty, h, hsuccess, ?_⟩
  rw [retry, show (Request.loadPipe APIPipe.oneChild).times = 9 + 1 from rfl, retryFrom_ok h hsuccess,
    if_neg Bool.noConfusion]
  exact (serve_loadPipe_again h hsuccess).retryFrom

end LoadingNode

end Upipe
