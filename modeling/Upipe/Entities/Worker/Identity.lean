import Upipe.Common.Md5
import Upipe.Common.PyJson
import Upipe.Types.Entities

/-!
# The identity of a worker

A queue names the processors at its ends by their ids, and a worker attaches the queues that name its own
id. Both ids are the name and the MD5 of the configuration's text with sorted keys. The pipe process
computes the id of a `Processor` from the configuration as it was given; a worker computes its own from
what it receives, after one JSON round trip to the node and one back.

`MemQueue` objects are represented by their definitions.
-/

namespace Upipe

open Upipe.Common

/-! ## Definitions -/

/-- `len(v)`. -/
def pyLen : PyVal → Except PyError ℕ
  | .str s => .ok s.length
  | .list xs | .tuple xs => .ok xs.length
  | .dict items => .ok items.length
  | _ => .error ⟨.typeError, "object has no len()"⟩

variable (rt : PyRuntime)

/-- `config_hash`, which `Processor` and `Worker` both have. -/
def configHash (config : PyVal) : Except PyError (Option String) := do
  let size ← pyLen config
  if size = 0 then pure none
  else do
    let text ← rt.dumps true config
    pure (some (md5 (encodeUtf8 text)))

/-- `id`, which `Processor` and `Worker` both have. -/
def entityId (name : String) (config : PyVal) : Except PyError String := do
  match ← configHash rt config with
  | none => pure name
  | some hash => pure (if hash = "" then name else name ++ ":" ++ hash)

/-- The attributes of `Processor` that make up its id. -/
structure Processor where
  name : String
  config : PyVal

namespace Processor

def configHash (p : Processor) : Except PyError (Option String) := Upipe.configHash rt p.config

def id (p : Processor) : Except PyError String := entityId rt p.name p.config

end Processor

/-- The attributes of `Worker` that its registration sets. -/
structure RegisteredWorker where
  name : String
  config : PyVal
  inQs : List APIQueue
  outQs : List APIQueue
  sinkQ : Option APIQueue
  registered : Bool

namespace RegisteredWorker

/-- `__init__` without a configuration. -/
def init (name : String) : RegisteredWorker where
  name := name
  config := .dict []
  inQs := []
  outQs := []
  sinkQ := none
  registered := false

def configHash (w : RegisteredWorker) : Except PyError (Option String) := Upipe.configHash rt w.config

def id (w : RegisteredWorker) : Except PyError String := entityId rt w.name w.config

/-- `_in_q_exist`. -/
def inQExist (w : RegisteredWorker) (qid : String) : Bool := w.inQs.any fun q => q.id = qid

/-- `_out_q_exist`. -/
def outQExist (w : RegisteredWorker) (qid : String) : Bool := w.outQs.any fun q => q.id = qid

/-- `_q_exist`. -/
def qExist (w : RegisteredWorker) (q : APIQueue) : Bool := w.inQExist q.id || w.outQExist q.id

/-- `_add_q`. The test of the size in `MemQueue` is left out: the node has opened a queue of this size. -/
def addQ (q : APIQueue) : PyM RegisteredWorker Unit := do
  if q.id = sinkQueueId then modify fun w => { w with sinkQ := some q }
  else do
    let w ← get
    let id ← ofExcept (w.id rt)
    if w.qExist q then throw ⟨.brokenPipeError, s!"Q already added to proc {id}"⟩
    if q.toP = id ∧ w.inQExist q.id = false then modify fun w => { w with inQs := w.inQs ++ [q] }
    if q.fromP = id ∧ w.outQExist q.id = false then modify fun w => { w with outQs := w.outQs ++ [q] }

/-- The loop over the queues of a Q_UPDATE. -/
def addQs : List APIQueue → PyM RegisteredWorker Unit
  | [] => pure ()
  | q :: qs => do
      addQ rt q
      addQs qs

/-- `_handle_processor_message` for a Q_UPDATE. An exception is printed. -/
def handleQUpdate (queues : List APIQueue) : PyM RegisteredWorker Unit :=
  fun w => .ok () (stateOf (addQs rt queues w))

/-- `_register`, with the configuration of the answer and the queues of its Q_UPDATE. -/
def register (config : PyVal) (queues : List APIQueue) : PyM RegisteredWorker Bool := do
  if config.truthy then modify fun w => { w with config := config }
  handleQUpdate rt queues
  modify fun w => { w with registered := true }
  pure true

end RegisteredWorker

/-! ## The law and its condition -/

/-- The configuration as a worker receives it: through the node's memory, in and out. -/
def receivedConfig (config : PyVal) : Except PyError PyVal := do
  let stored ← rt.roundTrip config
  rt.roundTrip stored

namespace RegisteredWorker

/-- The queue is attached wherever it names `id`; the sink has a place of its own. -/
def Attached (w : RegisteredWorker) (id : String) (q : APIQueue) : Prop :=
  if q.id = sinkQueueId then w.sinkQ = some q
  else (q.fromP = id → q ∈ w.outQs) ∧ (q.toP = id → q ∈ w.inQs)

/-- `_add_q` attaches every new queue. -/
def Attaches (w : RegisteredWorker) (id : String) : Prop :=
  ∀ q, w.qExist q = false → ∃ w', addQ rt q w = .ok () w' ∧ w'.Attached id q

end RegisteredWorker

/-- A worker that registers has the id of its processor. It has attached the queues of the answer that name
it, and attaches new ones. -/
def Processor.Recognised (p : Processor) : Prop :=
  ∃ config id, receivedConfig rt p.config = .ok config ∧ p.id rt = .ok id ∧
    ∀ queues : List APIQueue, (queues.map APIQueue.id).Nodup →
      ∃ w, RegisteredWorker.register rt config queues (.init p.name) = .ok true w ∧ w.id rt = .ok id ∧
        (∀ q ∈ queues, w.Attached id q) ∧ w.Attaches rt id

/-- The two serialisations differ, and have one digest. -/
def DigestsCollide (config : PyVal) : Prop :=
  ∃ received text text', receivedConfig rt config = .ok received ∧ rt.dumps true config = .ok text ∧
    rt.dumps true received = .ok text' ∧ text' ≠ text ∧ md5 (encodeUtf8 text') = md5 (encodeUtf8 text)

/-! ## Attaching queues -/

namespace RegisteredWorker

variable {rt} {w w' : RegisteredWorker} {id : String} {q : APIQueue}

/-- What `_add_q` does with a new queue. -/
def added (w : RegisteredWorker) (id : String) (q : APIQueue) : RegisteredWorker :=
  if q.id = sinkQueueId then { w with sinkQ := some q }
  else { w with
    inQs := if q.toP = id then w.inQs ++ [q] else w.inQs
    outQs := if q.fromP = id then w.outQs ++ [q] else w.outQs }

theorem addQ_new (hid : w.id rt = .ok id) (hnew : w.qExist q = false) :
    addQ rt q w = .ok () (w.added id q) := by
  obtain ⟨hin, hout⟩ := Bool.or_eq_false_iff.mp hnew
  unfold addQ added
  split
  · rfl
  · have hcall : (ofExcept (w.id rt) : PyM RegisteredWorker String) w = .ok id w := by rw [hid]; rfl
    rw [get_bind_apply, bind_ok hcall, if_neg (by rw [hnew]; exact Bool.false_ne_true)]
    by_cases hto : q.toP = id <;> by_cases hfrom : q.fromP = id <;>
      simp [hto, hfrom, hin, hout] <;> rfl

theorem id_added : (w.added id q).id rt = w.id rt := by
  unfold added
  split <;> rfl

theorem attached_added : (w.added id q).Attached id q := by
  unfold added Attached
  split
  · rfl
  · refine ⟨fun hfrom => ?_, fun hto => ?_⟩
    · exact (if_pos hfrom).symm ▸ List.mem_append_right _ List.mem_cons_self
    · exact (if_pos hto).symm ▸ List.mem_append_right _ List.mem_cons_self

/-- Other queues stay attached. -/
theorem Attached.added {q' : APIQueue} (hne : q'.id ≠ q.id) (h : w.Attached id q') :
    (w.added id q).Attached id q' := by
  unfold Attached at h ⊢
  unfold RegisteredWorker.added
  split
  · rename_i hsink
    rw [if_pos hsink] at h
    rw [if_neg (fun hsink' => hne (hsink.trans hsink'.symm))]
    exact h
  · rename_i hsink
    rw [if_neg hsink] at h
    have hgrows : ∀ {qs : List APIQueue} {c : Prop} [Decidable c], q' ∈ qs →
        q' ∈ if c then qs ++ [q] else qs := by
      intro qs c _ hmem
      split
      · exact List.mem_append_left _ hmem
      · exact hmem
    split
    · exact h
    · exact ⟨fun hfrom => hgrows (h.1 hfrom), fun hto => hgrows (h.2 hto)⟩

theorem qExist_added {q' : APIQueue} (hne : q'.id ≠ q.id) : (w.added id q).qExist q' = w.qExist q' := by
  have hany : ∀ {qs : List APIQueue} {c : Prop} [Decidable c],
      (if c then qs ++ [q] else qs).any (fun q => q.id = q'.id) = qs.any fun q => q.id = q'.id := by
    intro qs c _
    split
    · rw [List.any_append, List.any_cons, List.any_nil, decide_eq_false hne.symm, Bool.or_false,
        Bool.or_false]
    · rfl
  unfold added
  split
  · rfl
  · exact congrArg₂ or hany hany

/-- The loop over new queues attaches them all. -/
theorem addQs_new {qs : List APIQueue} (hid : w.id rt = .ok id) (hnew : ∀ q ∈ qs, w.qExist q = false)
    (hnodup : (qs.map APIQueue.id).Nodup) :
    ∃ w', addQs rt qs w = .ok () w' ∧ w'.id rt = .ok id ∧ (∀ q ∈ qs, w'.Attached id q) ∧
      ∀ q, q.id ∉ qs.map APIQueue.id → w.Attached id q → w'.Attached id q := by
  induction qs generalizing w with
  | nil => exact ⟨w, rfl, hid, fun _ hq => (nomatch hq), fun _ _ h => h⟩
  | cons q qs ih =>
    rw [List.forall_mem_cons] at hnew
    rw [List.map_cons, List.nodup_cons] at hnodup
    have hother : ∀ q' ∈ qs, q'.id ≠ q.id := by
      intro q' hq' heq
      exact hnodup.1 (heq ▸ List.mem_map_of_mem hq')
    obtain ⟨w', hcall, hid', hall, hkept⟩ := @ih (w.added id q) (id_added.trans hid)
      (fun q' hq' => (qExist_added (hother q' hq')).trans (hnew.2 q' hq')) hnodup.2
    refine ⟨w', (bind_ok (addQ_new hid hnew.1)).trans hcall, hid', ?_, ?_⟩
    · exact List.forall_mem_cons.mpr ⟨hkept q hnodup.1 attached_added, hall⟩
    · intro q' hq' h
      rw [List.map_cons, List.mem_cons, not_or] at hq'
      exact hkept q' hq'.2 (h.added hq'.1)

/-- The configuration after registration. -/
def takenConfig (config : PyVal) : PyVal := if config.truthy then config else .dict []

theorem register_init {name : String} {config : PyVal} {queues : List APIQueue} :
    register rt config queues (init name) =
      .ok true { stateOf (addQs rt queues { init name with config := takenConfig config }) with
        registered := true } := by
  unfold register handleQUpdate takenConfig
  split <;> rfl

theorem register_ok {name : String} {config : PyVal} {queues : List APIQueue}
    (hid : entityId rt name (takenConfig config) = .ok id) (hnodup : (queues.map APIQueue.id).Nodup) :
    ∃ w, register rt config queues (init name) = .ok true w ∧ w.id rt = .ok id ∧
      (∀ q ∈ queues, w.Attached id q) ∧ w.Attaches rt id := by
  obtain ⟨w, hcall, hid', hall, -⟩ :=
    @addQs_new rt { init name with config := takenConfig config } id queues hid (fun _ _ => rfl) hnodup
  refine ⟨{ w with registered := true }, ?_, hid', hall, ?_⟩
  · rw [register_init, hcall, stateOf_ok]
  · intro q hnew
    exact ⟨_, addQ_new hid' hnew, attached_added⟩

end RegisteredWorker

/-! ## The two ids -/

variable {rt} {name : String} {items : List (PyVal × PyVal)} {text : String}

/-- A worker recognises its own queues when it has the id of its processor. -/
theorem recognised_iff_ids {p : Processor} : p.Recognised rt ↔ ∃ config id,
    receivedConfig rt p.config = .ok config ∧ p.id rt = .ok id ∧
      entityId rt p.name (RegisteredWorker.takenConfig config) = .ok id := by
  refine exists_congr fun config => exists_congr fun id => ?_
  refine and_congr_right fun _ => and_congr_right fun _ => ?_
  constructor
  · intro hregister
    obtain ⟨w, hcall, hid, -⟩ := hregister [] List.nodup_nil
    rw [RegisteredWorker.register_init] at hcall
    obtain ⟨-, rfl⟩ := EStateM.Result.ok.inj hcall
    exact hid
  · exact fun hid _ hnodup => RegisteredWorker.register_ok hid hnodup

theorem entityId_empty : entityId rt name (.dict []) = .ok name := rfl

theorem entityId_dict (hne : items ≠ []) (htext : rt.dumps true (.dict items) = .ok text) :
    entityId rt name (.dict items) = .ok (name ++ ":" ++ md5 (encodeUtf8 text)) := by
  have hlength : items.length ≠ 0 := mt List.length_eq_zero_iff.mp hne
  have hhash : configHash rt (.dict items) = .ok (some (md5 (encodeUtf8 text))) := by
    show (if items.length = 0 then _ else _) = _
    rw [if_neg hlength, htext]
    rfl
  have hdigest : md5 (encodeUtf8 text) ≠ "" := by
    intro hempty
    have hlength := length_md5 (encodeUtf8 text)
    rw [hempty] at hlength
    cases hlength
  unfold entityId
  rw [hhash]
  show Except.ok (if _ then _ else _) = _
  rw [if_neg hdigest]

/-- What a worker receives of an accepted configuration. -/
theorem receivedConfig_of_dumps (htext : rt.dumps true (.dict items) = .ok text) :
    ∃ items' text', receivedConfig rt (.dict items) = .ok (.dict items') ∧ (items' = [] ↔ items = []) ∧
      rt.dumps true (.dict items') = .ok text' ∧ (text' = text ↔ rt.InTextOrder (.dict items)) := by
  obtain ⟨received, hreceived, hread, text', htext', hiff⟩ := PyRuntime.dumps_roundTrip htext
  obtain ⟨items', rfl, hempty⟩ := PyRuntime.roundTrip_dict hreceived
  refine ⟨items', text', ?_, hempty, htext', hiff⟩
  exact except_bind_eq_ok_iff.mpr ⟨_, hreceived, hread.roundTrip⟩

/-- A worker recognises its own queues exactly when the keys of each dictionary in the configuration, as
`sort_keys` sorts them, become strictly increasing strings, digests of different texts apart. -/
theorem recognised_iff (haccept : rt.dumps true (.dict items) = .ok text) :
    (Processor.mk name (.dict items)).Recognised rt ↔
      rt.InTextOrder (.dict items) ∨ DigestsCollide rt (.dict items) := by
  obtain ⟨items', text', hreceived, hempty, htext', hiff⟩ := receivedConfig_of_dumps haccept
  have hdigests : md5 (encodeUtf8 text') = md5 (encodeUtf8 text) ↔
      rt.InTextOrder (.dict items) ∨ DigestsCollide rt (.dict items) := by
    rw [← hiff]
    constructor
    · intro hdigest
      by_cases heq : text' = text
      · exact Or.inl heq
      · exact Or.inr ⟨_, text, text', hreceived, haccept, htext', heq, hdigest⟩
    · rintro (rfl | ⟨_, _, _, hreceived₂, haccept₂, htext₂, -, hdigest⟩)
      · rfl
      · obtain rfl := Except.ok.inj (hreceived.symm.trans hreceived₂)
        obtain rfl := Except.ok.inj (haccept.symm.trans haccept₂)
        obtain rfl := Except.ok.inj (htext'.symm.trans htext₂)
        exact hdigest
  rw [← hdigests, recognised_iff_ids]
  by_cases hne : items = []
  · -- neither side computes a digest
    subst hne
    obtain rfl := hempty.mpr rfl
    obtain rfl := Except.ok.inj (htext'.symm.trans haccept)
    exact iff_of_true ⟨.dict [], name, hreceived, entityId_empty, entityId_empty⟩ rfl
  have hne' : items' ≠ [] := fun hnil => hne (hempty.mp hnil)
  have hworker : entityId rt name (RegisteredWorker.takenConfig (.dict items')) =
      .ok (name ++ ":" ++ md5 (encodeUtf8 text')) := by
    obtain ⟨item, rest, rfl⟩ := List.exists_cons_of_ne_nil hne'
    exact entityId_dict hne' htext'
  constructor
  · rintro ⟨config, id, hconfig, hid, hid'⟩
    obtain rfl := Except.ok.inj (hreceived.symm.trans hconfig)
    obtain rfl := Except.ok.inj ((entityId_dict hne haccept).symm.trans hid)
    exact (String.append_right_inj _).mp (Except.ok.inj (hworker.symm.trans hid'))
  · intro hdigest
    rw [hdigest] at hworker
    exact ⟨_, _, hreceived, entityId_dict hne haccept, hworker⟩

/-! ## Configurations with strings and with numbers as keys -/

/-- `{"model": "small", "limits": {"width": 640, "tags": ["a", "b"]}}`. -/
def namedOptions : List (PyVal × PyVal) :=
  [(.str "model", .str "small"),
    (.str "limits", .dict [(.str "width", .int 640), (.str "tags", .list [.str "a", .str "b"])])]

/-- `{"thresholds": {9: "low", 10: "high"}}`. -/
def numberedOptions : List (PyVal × PyVal) :=
  [(.str "thresholds", .dict [(.int 9, .str "low"), (.int 10, .str "high")])]

theorem recognised_namedOptions :
    (Processor.mk "scale" (.dict namedOptions)).Recognised plainRuntime := by
  have haccept : (plainRuntime.dumps true (.dict namedOptions)).toOption.any (fun _ => true) = true := by
    decide +kernel
  obtain ⟨text, htext, -⟩ := exists_ok_of_any haccept
  have hinner : plainRuntime.InTextOrder (.dict [(.str "width", .int 640),
      (.str "tags", .list [.str "a", .str "b"])]) :=
    ⟨by decide +kernel, trivial, ⟨trivial, trivial, trivial⟩, trivial⟩
  have hkeys : plainRuntime.InTextOrder (.dict namedOptions) :=
    ⟨by decide +kernel, trivial, hinner, trivial⟩
  exact (recognised_iff htext).mpr (Or.inl hkeys)

/-- Sorted as numbers 9 comes in front of 10, sorted as strings behind it. -/
theorem not_recognised_numberedOptions :
    ¬ (Processor.mk "scale" (.dict numberedOptions)).Recognised plainRuntime := by
  have hreceived : receivedConfig plainRuntime (.dict numberedOptions) =
      .ok (.dict [(.str "thresholds", .dict [(.str "9", .str "low"), (.str "10", .str "high")])]) := by
    decide +kernel
  have hprocessor : entityId plainRuntime "scale" (.dict numberedOptions) =
      .ok "scale:4c89a138dbb90e0050e5da5b6b516964" := by decide +kernel
  have hworker : entityId plainRuntime "scale"
      (.dict [(.str "thresholds", .dict [(.str "9", .str "low"), (.str "10", .str "high")])]) =
      .ok "scale:353fcaa8c10fc736f7ba52bd6daa585c" := by decide +kernel
  rw [recognised_iff_ids]
  rintro ⟨config, id, hconfig, hid, hid'⟩
  obtain rfl := Except.ok.inj (hreceived.symm.trans hconfig)
  obtain rfl := Except.ok.inj (hprocessor.symm.trans hid)
  have hids := Except.ok.inj (hworker.symm.trans hid')
  revert hids
  decide

end Upipe
