import ZeroLanCom.System.Discovery
import ZeroLanCom.System.LocalOrder

/-!
# Sequential runs among the interleaved ones

A process whose calls follow one another is one whose threads never meet. Its
states between two calls are states of the interleaved model, with the receive
task idle and the mutex of the subscriber manager free, and so whatever holds in
every interleaving holds in every sequence of calls.
-/

namespace ZeroLanCom

open Throwing

variable {κ : Type} {accepts : Str → Bool}

namespace Process

/-- The process between two calls. -/
def toDiscovery (s : Process κ) : Discovery κ := .resting s.localNode (s.table, s.subs)

/-- A registration in its three steps. -/
theorem reach_registerTopicSubscriber (accepts : Str → Bool) (localNode : LocalNode)
    (p : NodeTable × List (Subscriber κ)) (topicName : Str) (callback : κ) (order : MapOrder) :
    Discovery.Reach accepts (.resting localNode p) (.resting localNode
      (p.1, (registerTopicSubscriber accepts topicName callback
        (findTopicURLs p.1 localNode.getLocalNodeInfo order topicName) p.2).state)) := by
  have hlock : Discovery.Reach accepts (.resting localNode p) _ :=
    .single ⟨true, .lock _ topicName callback rfl⟩
  have hread := hlock.tail ⟨true, .read _ order rfl id⟩
  exact hread.tail ⟨_, .connect _ rfl⟩

/-- A call of the process is a sequence of steps of its threads. -/
theorem reach_step (r : MulticastReceiver) (s : Process κ) (op : ProcessOp κ) :
    Discovery.Reach accepts s.toDiscovery (s.step accepts r op).toDiscovery := by
  cases op with
  | subscribe topicName callback order =>
    exact reach_registerTopicSubscriber accepts s.localNode (s.table, s.subs) topicName callback
      order
  | publish topicName withLocalNamespace port =>
    exact .single ⟨true, .publish _ (fullTopicName topicName withLocalNamespace) port⟩
  | receive d =>
    rw [step]
    cases r.accepted s.localNode.nodeID d with
    | none => exact .refl
    | some heartbeat =>
      exact Discovery.reach_processHeartbeat accepts d.fetchNodeInfo heartbeat d.nodeIP d.noteTime
        d.storeTime s.localNode (s.table, s.subs)
  | sweep order now =>
    exact Discovery.reach_checkHeartbeats accepts order now s.localNode (s.table, s.subs)

/-- Every sequence of calls is a run of the interleaved steps. -/
theorem sequential_runs_refine (r : MulticastReceiver) (s : Process κ) (ops : List (ProcessOp κ)) :
    Discovery.Reach accepts s.toDiscovery (Runs.run (step accepts r) s ops).toDiscovery :=
  Runs.run_of_step (I := fun s' : Process κ => Discovery.Reach accepts s.toDiscovery s'.toDiscovery)
    (fun s' op (h : Relation.ReflTransGen _ _ _) => h.trans (reach_step r s' op)) .refl ops

end Process

end ZeroLanCom
