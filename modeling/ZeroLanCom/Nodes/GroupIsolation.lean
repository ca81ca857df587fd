import ZeroLanCom.Nodes.HeartbeatFormat
import ZeroLanCom.Nodes.Multicast

/-!
# Groups on one network

The receiver compares the group name of a heartbeat with its own. It reads no
more than its buffer holds, so it compares only what the buffer leaves of the
name behind the header.
-/

namespace ZeroLanCom

/-- What the receive buffer of 1024 bytes has left for the group name. -/
def groupNameRoom : Nat := 968

/-- The receiver hands the heartbeat over exactly if the groups are the same, and what it hands
over is as the sender built it. -/
def Isolated (r : MulticastReceiver) (ownID : UUID) (sender : LocalNode) (d : Datagram) : Prop :=
  ((∃ heartbeat, r.accepted ownID d = some heartbeat) ↔ sender.groupName = r.groupName) ∧
    ∀ heartbeat, r.accepted ownID d = some heartbeat →
      heartbeat.nodeId = sender.createHeartbeat.nodeId ∧
        heartbeat.infoId = sender.createHeartbeat.infoId ∧
        heartbeat.servicePort = sender.createHeartbeat.servicePort

/-- A buffer that holds the header holds a message, with what is left of the group name. -/
theorem HeartbeatMessage.encode_take {m : HeartbeatMessage} {data : Bytes}
    (h : m.encode = .ok data) (n : Nat) :
    HeartbeatMessage.encode { m with groupName := m.groupName.take n } =
      .ok (data.take (heartbeatFixedSize + n)) := by
  obtain ⟨hid, hlayout⟩ := encode_layout h
  have hheader : data = (encodeInt32 m.zlcVersion.1 ++ encodeInt32 m.zlcVersion.2.1 ++
      encodeInt32 m.zlcVersion.2.2 ++ m.nodeId ++ encodeInt32 m.infoId ++
      encodeInt32 m.servicePort) ++ m.groupName := by
    rw [hlayout]
    simp only [List.append_assoc]
  have hlength : (encodeInt32 m.zlcVersion.1 ++ encodeInt32 m.zlcVersion.2.1 ++
      encodeInt32 m.zlcVersion.2.2 ++ m.nodeId ++ encodeInt32 m.infoId ++
      encodeInt32 m.servicePort).length = heartbeatFixedSize := by
    simp only [List.length_append, length_encodeInt32, hid, heartbeatFixedSize]
  rw [encode, if_neg (not_not.mpr hid), hheader, ← hlength, List.take_length_add_append]

section Sent

variable {r : MulticastReceiver} {ownID : UUID} {sender : LocalNode} {d : Datagram}

/-- What the filters make of a heartbeat of another node of the subnet. -/
theorem accepted_of_sent (hsent : sender.createHeartbeat.encode = .ok d.data)
    (hsubnet : isInSameSubnet r.inetAton r.localIP d.nodeIP = true)
    (hid : sender.nodeID ≠ ownID) :
    r.accepted ownID d =
      if sender.groupName.take groupNameRoom = r.groupName then
        some { sender.createHeartbeat with groupName := sender.groupName.take groupNameRoom }
      else none := by
  have hbuf := HeartbeatMessage.encode_take hsent groupNameRoom
  have hdecode := HeartbeatMessage.decode_of_encode hbuf
  have hlength := HeartbeatMessage.length_of_encode hbuf
  have hsize : heartbeatFixedSize + groupNameRoom = 1024 := rfl
  rw [hsize] at hdecode hlength
  have hnonempty : ¬ (d.data.take 1024).length ≤ 0 := by
    rw [hlength, heartbeatFixedSize]
    omega
  have hname : sender.createHeartbeat.groupName = sender.groupName := rfl
  unfold MulticastReceiver.accepted
  simp only [if_neg hnonempty, hsubnet, hdecode, hname, Bool.not_true, Bool.false_eq_true,
    if_false]
  by_cases hgroup : sender.groupName.take groupNameRoom = r.groupName
  · have hother : ¬ sender.createHeartbeat.nodeId = ownID := hid
    rw [if_pos hgroup, if_neg (not_not.mpr hgroup), if_neg hother]
  · rw [if_neg hgroup, if_pos hgroup]

/-- Groups are kept apart exactly when the name of the sender's group fits into the buffer, or
neither it nor what fits of it is the receiver's. -/
theorem group_isolation_iff (hsent : sender.createHeartbeat.encode = .ok d.data)
    (hsubnet : isInSameSubnet r.inetAton r.localIP d.nodeIP = true)
    (hid : sender.nodeID ≠ ownID) :
    Isolated r ownID sender d ↔ sender.groupName.length ≤ groupNameRoom ∨
      sender.groupName ≠ r.groupName ∧ sender.groupName.take groupNameRoom ≠ r.groupName := by
  have haccepted := accepted_of_sent hsent hsubnet hid
  have hfields : ∀ heartbeat, r.accepted ownID d = some heartbeat →
      heartbeat.nodeId = sender.createHeartbeat.nodeId ∧
        heartbeat.infoId = sender.createHeartbeat.infoId ∧
        heartbeat.servicePort = sender.createHeartbeat.servicePort := by
    intro heartbeat h
    rw [haccepted] at h
    split_ifs at h
    cases h
    exact ⟨rfl, rfl, rfl⟩
  have hhanded : (∃ heartbeat, r.accepted ownID d = some heartbeat) ↔
      sender.groupName.take groupNameRoom = r.groupName := by
    rw [haccepted]
    split_ifs with hgroup <;> simp [hgroup]
  rw [Isolated, hhanded, and_iff_left hfields]
  by_cases hfits : sender.groupName.length ≤ groupNameRoom
  · simp [List.take_of_length_le hfits, hfits]
  · -- a name that has been cut differs from the name itself
    have hcut : sender.groupName.take groupNameRoom ≠ sender.groupName := by
      rw [ne_eq, List.take_eq_self_iff]
      exact hfits
    constructor
    · intro hiff
      refine Or.inr ⟨fun hsame => hcut ((hiff.mpr hsame).trans hsame.symm), fun htake => ?_⟩
      exact hcut (htake.trans (hiff.mp htake).symm)
    · rintro (hle | ⟨hname, htake⟩)
      · exact absurd hle hfits
      · exact iff_of_false htake hname

end Sent

/-- A node of a group, and its heartbeat as it arrives from the other end of the subnet. -/
def exampleSender (groupName : Str) : LocalNode :=
  ((LocalNode.new (ascii "sender") (ascii "10.0.0.2") 1 1 1 1).setServicePort 6000).setGroupName
    groupName

/-- The datagram that carries it. -/
def sentDatagram (groupName : Str) : Datagram :=
  { exampleDatagram (generateUUID 1 1 1 1) (ascii "10.0.0.2") 0 with
    data := ((exampleSender groupName).createHeartbeat.encode.toOption).getD [] }

/-- Its bytes are those the sender has encoded. -/
theorem sentDatagram_data (groupName : Str) :
    (exampleSender groupName).createHeartbeat.encode = .ok (sentDatagram groupName).data := rfl

/-- A short name is told apart from the receiver's. -/
theorem group_isolation_other_group :
    Isolated exampleReceiver exampleOwnID (exampleSender (ascii "labs"))
      (sentDatagram (ascii "labs")) :=
  (group_isolation_iff (sentDatagram_data _) (by decide) (by decide)).mpr (Or.inl (by decide))

/-- A name of one byte more than the buffer holds. -/
def longGroupName : Str := List.replicate 969 97

/-- What gets through of it is another name. -/
theorem longGroupName_cut : longGroupName.take groupNameRoom ≠ longGroupName := by
  rw [ne_eq, List.take_eq_self_iff, longGroupName, List.length_replicate, groupNameRoom]
  omega

/-- Two nodes of that group do not hear each other. -/
theorem long_group_never_heard :
    ¬ Isolated { exampleReceiver with groupName := longGroupName } exampleOwnID
      (exampleSender longGroupName) (sentDatagram longGroupName) := by
  intro h
  have haccepted : MulticastReceiver.accepted { exampleReceiver with groupName := longGroupName }
      exampleOwnID (sentDatagram longGroupName) = _ :=
    accepted_of_sent (sentDatagram_data longGroupName) (by decide) (by decide)
  obtain ⟨heartbeat, hhanded⟩ := h.1.mpr rfl
  have hcut : ¬ (exampleSender longGroupName).groupName.take groupNameRoom = longGroupName :=
    longGroupName_cut
  rw [haccepted, if_neg hcut] at hhanded
  cases hhanded

end ZeroLanCom
