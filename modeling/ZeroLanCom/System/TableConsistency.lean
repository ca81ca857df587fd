import ZeroLanCom.Library.Runs
import ZeroLanCom.System.ReceiveTask

/-!
# The three maps of the table, under any number of threads

Every write of the maps happens under `data_mutex_`, so a critical section is
one step of its thread. `processHeartbeat` has two of them with the fetch in
between, and there any other thread may note, store, remove or sweep.
-/

namespace ZeroLanCom

namespace NodeTable

/-- Infos and versions are kept for the same nodes, whose heartbeats are known, and each version
is the one of the info. -/
structure Consistent (t : NodeTable) : Prop where
  keys : ∀ id, id ∈ t.nodesInfo ↔ id ∈ t.nodesInfoId
  heard : ∀ id ∈ t.nodesInfo, id ∈ t.nodesHeartbeat
  version : ∀ id ∈ t.nodesInfo,
    t.nodesInfoId.lookup id = (t.nodesInfo.lookup id).map NodeInfo.infoID

/-- There is nothing to disagree about in an empty table. -/
theorem consistent_empty : empty.Consistent :=
  ⟨fun _ => Iff.rfl, fun _ h => absurd h (AList.notMem_empty _),
    fun _ h => absurd h (AList.notMem_empty _)⟩

/-- Noting a heartbeat only adds to the times. -/
theorem Consistent.noteHeartbeat {t : NodeTable} (h : t.Consistent) (nodeID : Str) (now : Nat) :
    (t.noteHeartbeat nodeID now).Consistent :=
  ⟨h.keys, fun id hid => (AList.mem_insert _).mpr (Or.inr (h.heard id hid)), h.version⟩

/-- Storing a node writes all three maps. -/
theorem Consistent.updateNodeUnlocked {t : NodeTable} (h : t.Consistent) (nodeID : Str)
    (info : NodeInfo) (now : Nat) : (t.updateNodeUnlocked nodeID info now).Consistent where
  keys id := by
    rw [NodeTable.updateNodeUnlocked, AList.mem_insert, AList.mem_insert, h.keys]
  heard id hid := by
    rw [NodeTable.updateNodeUnlocked, AList.mem_insert] at hid ⊢
    exact hid.imp_right (h.heard id)
  version id hid := by
    rw [lookup_infoId_updateNodeUnlocked, lookup_updateNodeUnlocked]
    split_ifs with hsame
    · rfl
    · exact h.version id (((AList.mem_insert _).mp hid).resolve_left hsame)

/-- Removing a node erases it from all three. -/
theorem Consistent.removeNode {t : NodeTable} (h : t.Consistent) (nodeID : Str) :
    (t.removeNode nodeID).Consistent where
  keys id := by
    rw [NodeTable.removeNode, AList.mem_erase, AList.mem_erase, h.keys]
  heard id hid := by
    rw [NodeTable.removeNode, AList.mem_erase] at hid ⊢
    exact ⟨hid.1, h.heard id hid.2⟩
  version id hid := by
    obtain ⟨hne, hid⟩ := AList.mem_erase.mp hid
    rw [lookup_infoId_removeNode, lookup_removeNode, if_neg hne, if_neg hne]
    exact h.version id hid

/-- A sweep takes each node out of all maps at once. -/
theorem Consistent.removeNodes {t : NodeTable} (h : t.Consistent) (ids : List Str) :
    (t.removeNodes ids).Consistent := by
  induction ids generalizing t with
  | nil => exact h
  | cons id ids ih => exact ih (h.removeNode id)

/-- A sweep whose callbacks return erases the entries it has created on the way. -/
theorem Consistent.checkHeartbeats {σ : Type*} {nodeRemoveEvent : Event NodeInfo σ}
    {order : MapOrder} {now : Nat} {p p' : NodeTable × σ} (h : p.1.Consistent)
    (hreturns : checkHeartbeats nodeRemoveEvent order now p = .done p') : p'.1.Consistent := by
  obtain ⟨_, _, rfl⟩ := checkHeartbeats_eq_done_iff.mp hreturns
  exact h.removeNodes _

end NodeTable

/-- The steps of `processHeartbeat` write the table in its two critical sections only. -/
theorem ReceiveStep.consistent {r r' : Receiver} {l : ReceiveLabel} (hstep : ReceiveStep r l r')
    (hfrom : ¬ r.task.InSweep) (h : r.table.Consistent) : r'.table.Consistent := by
  cases hstep with
  | hear t heartbeat now => exact h.noteHeartbeat heartbeat.nodeId now
  | store t nodeID info now => exact h.updateNodeUnlocked nodeID info now
  | fetch t heartbeat result => exact h
  | announce t nodeID info => exact h
  | sweep t order now => exact h
  | _ => exact absurd trivial hfrom

/-- The table, and where each thread stands that works on it. -/
structure TableThreads (θ : Type*) where
  table : NodeTable
  tasks : θ → ReceiveTask

namespace TableThreads

variable {θ σ : Type*} [DecidableEq θ]

/-- Nobody has been heard, and nobody is at work. -/
def start : TableThreads θ := ⟨.empty, fun _ => .idle⟩

/-- A step of one thread. Callbacks of removal events run inside the sweep, which releases the
lock when they have all returned. -/
inductive Step (nodeRemoveEvent : Event NodeInfo σ) : TableThreads θ → TableThreads θ → Prop
  /-- The steps of `processHeartbeat`: its two critical sections, the fetch and the event. -/
  | process (s : TableThreads θ) (i : θ) {l : ReceiveLabel} {r : Receiver}
    (hstep : ReceiveStep ⟨s.table, s.tasks i⟩ l r) (hfrom : ¬ (s.tasks i).InSweep)
    (hto : ¬ r.task.InSweep) :
    Step nodeRemoveEvent s ⟨r.table, Function.update s.tasks i r.task⟩
  /-- `removeNode`. -/
  | removeNode (s : TableThreads θ) (i : θ) (nodeID : Str) (hidle : s.tasks i = .idle) :
    Step nodeRemoveEvent s { s with table := s.table.removeNode nodeID }
  /-- `checkHeartbeats`, from the lock to its release. -/
  | sweep (s : TableThreads θ) (i : θ) (order : MapOrder) (now : Nat) {before : σ}
    {p : NodeTable × σ} (hidle : s.tasks i = .idle)
    (hreturns : checkHeartbeats nodeRemoveEvent order now (s.table, before) = .done p) :
    Step nodeRemoveEvent s { s with table := p.1 }

/-- Any number of steps of any threads. -/
def Reach (nodeRemoveEvent : Event NodeInfo σ) : TableThreads θ → TableThreads θ → Prop :=
  Relation.ReflTransGen (Step nodeRemoveEvent)

variable {nodeRemoveEvent : Event NodeInfo σ}

/-- No step of any thread spoils the table. -/
theorem consistent_step {s s' : TableThreads θ} (h : s.table.Consistent)
    (hstep : Step nodeRemoveEvent s s') : s'.table.Consistent := by
  cases hstep with
  | process i htask hfrom hto => exact htask.consistent hfrom h
  | removeNode i nodeID hidle => exact h.removeNode nodeID
  | sweep i order now hidle hreturns => exact h.checkHeartbeats hreturns

/-- Whatever the threads do, the maps agree at every release of the lock. -/
theorem table_consistent {s : TableThreads θ} (hreach : Reach nodeRemoveEvent start s) :
    s.table.Consistent :=
  Runs.reachable_invariant (I := fun s : TableThreads θ => s.table.Consistent)
    (fun _ _ h hstep => consistent_step h hstep) hreach NodeTable.consistent_empty

/-- One thread goes on while all the others stand still. -/
theorem reach_process {t : NodeTable} {tasks : θ → ReceiveTask} {i : θ} {task : ReceiveTask}
    {l : ReceiveLabel} {r : Receiver} (hstep : ReceiveStep ⟨t, task⟩ l r)
    (hfrom : ¬ task.InSweep) (hto : ¬ r.task.InSweep) :
    Reach nodeRemoveEvent ⟨t, Function.update tasks i task⟩
      ⟨r.table, Function.update tasks i r.task⟩ := by
  have hstep' : ReceiveStep ⟨t, Function.update tasks i task i⟩ l r := by
    rwa [Function.update_self]
  have hfrom' : ¬ (Function.update tasks i task i).InSweep := by rwa [Function.update_self]
  have hone : Step nodeRemoveEvent ⟨t, Function.update tasks i task⟩ _ :=
    .process _ i hstep' hfrom' hto
  rw [Function.update_idem] at hone
  exact .single hone

/-- A heartbeat that one thread processes without interruption. -/
theorem reach_heartbeatStep (nodeRemoveEvent : Event NodeInfo σ) {τ : Type*}
    (nodeUpdateEvent : Event NodeInfo τ) {tasks : θ → ReceiveTask} {i : θ}
    (hidle : tasks i = .idle) (p : NodeTable × τ) (c : HeartbeatCall) :
    Reach nodeRemoveEvent ⟨p.1, tasks⟩ ⟨(heartbeatStep nodeUpdateEvent p c).1, tasks⟩ := by
  have hrest : Function.update tasks i .idle = tasks := by rw [← hidle, Function.update_eq_self]
  have hhear := ReceiveStep.hear p.1 c.heartbeat c.noteTime
  rw [← hrest]
  by_cases hfetches : c.fetches p.1 = true
  · have hneeds : (p.1.noteHeartbeat c.heartbeat.nodeId c.noteTime).needsFetch c.heartbeat =
      true := hfetches
    rw [if_pos hneeds] at hhear
    have hfetch : Reach nodeRemoveEvent ⟨p.1, Function.update tasks i .idle⟩
        ⟨_, Function.update tasks i (.fetching c.heartbeat)⟩ := reach_process hhear id id
    cases hfetched : c.fetched with
    | none =>
      rw [heartbeatStep_of_noted fun _ => hfetched]
      exact hfetch.trans (reach_process (.fetch _ _ none) id id)
    | some info =>
      rw [heartbeatStep_of_stored hfetches hfetched]
      have hstore := hfetch.trans (reach_process (.fetch _ _ (some info)) id id)
      have hannounce := hstore.trans (reach_process (.store _ _ info c.storeTime) id id)
      exact hannounce.trans (reach_process (.announce _ _ info) id id)
  · have hneeds : ¬ (p.1.noteHeartbeat c.heartbeat.nodeId c.noteTime).needsFetch c.heartbeat =
      true := hfetches
    rw [if_neg hneeds] at hhear
    rw [heartbeatStep_of_noted fun h => absurd h hfetches]
    exact reach_process hhear id id

/-- The heartbeat that one thread processes. -/
def raceHeartbeat : HeartbeatMessage := ⟨(0, 1, 0), ascii "a", 7, 6000, ascii "lab"⟩

/-- The answer to its fetch. -/
def raceInfo : NodeInfo := { nodeID := ascii "a", infoID := 7 }

/-- The table that is left when the node was removed before it was stored. -/
def raceTable : NodeTable :=
  ((NodeTable.empty.noteHeartbeat (ascii "a") 0).removeNode (ascii "a")).updateNodeUnlocked
    (ascii "a") raceInfo 1

/-- The first of two threads is at work, and the second is not. -/
def racing (t : NodeTable) (task : ReceiveTask) : TableThreads Bool :=
  ⟨t, Function.update (fun _ => .idle) false task⟩

/-- Before it begins. -/
theorem racing_idle : racing .empty .idle = start := by
  rw [racing, Function.update_eq_self]
  rfl

/-- The first thread fetches, and the second removes the node before it is stored. -/
theorem reach_raceTable :
    Reach (⟨[]⟩ : Event NodeInfo Unit) start
      (racing raceTable (.announcing (ascii "a") raceInfo)) := by
  rw [← racing_idle]
  have hhear : Reach (⟨[]⟩ : Event NodeInfo Unit) (racing .empty .idle)
      (racing (NodeTable.empty.noteHeartbeat (ascii "a") 0) (.fetching raceHeartbeat)) :=
    reach_process (.hear _ raceHeartbeat 0) id id
  have hfetch := hhear.trans (reach_process (.fetch _ raceHeartbeat (some raceInfo)) id id)
  have hremove := hfetch.tail (.removeNode _ true (ascii "a") rfl)
  exact hremove.trans (reach_process (.store _ (ascii "a") raceInfo 1) id id)

/-- The race leaves a consistent table. -/
theorem table_consistent_race : raceTable.Consistent := table_consistent reach_raceTable

end TableThreads

end ZeroLanCom
