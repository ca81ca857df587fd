import ZeroLanCom.Utils.Event
import ZeroLanCom.Utils.Message

/-!
# What nodes tell each other

`NodeInfo` is the full description a node serves over its `get_node_info`
service. `HeartbeatMessage` is the short announcement it multicasts, a fixed
header of 56 bytes followed by the group name.
-/

namespace ZeroLanCom

/-- One topic or service with the endpoint that provides it. -/
structure SocketInfo where
  name : Str
  ip : Str
  port : UInt16
  deriving DecidableEq, Repr

/-- The endpoint callers connect to. -/
def SocketInfo.url (t : SocketInfo) : Str := tcpUrl t.ip t.port

/-- Name and printed endpoint together determine the entry. -/
theorem SocketInfo.eq_of_url {t t' : SocketInfo} (hname : t.name = t'.name)
    (hurl : t.url = t'.url) : t = t' := by
  obtain ⟨hip, hport⟩ := tcpUrl_inj hurl
  cases t
  cases t'
  simp_all

/-- `NodeInfo`; its value-initialised default has no topics and no services. -/
structure NodeInfo where
  nodeID : UUID := []
  infoID : UInt32 := 0
  name : Str := []
  ip : Str := []
  topics : List SocketInfo := []
  services : List SocketInfo := []
  deriving DecidableEq, Repr

instance : Inhabited NodeInfo := ⟨{}⟩

@[simp] theorem NodeInfo.default_topics : (default : NodeInfo).topics = [] := rfl

/-- `HeartbeatMessage`. -/
structure HeartbeatMessage where
  zlcVersion : Int32 × Int32 × Int32
  nodeId : UUID
  infoId : Int32
  servicePort : Int32
  groupName : Str
  deriving DecidableEq, Repr

/-- The version of the library, -/
def ZLC_VERSION_MAJOR : Int32 := 0
/-- its minor number, -/
def ZLC_VERSION_MINOR : Int32 := 1
/-- and its patch level. -/
def ZLC_VERSION_PATCH : Int32 := 0

/-- `HEARTBEAT_FIXED_SIZE`: the header before the group name. -/
def heartbeatFixedSize : Nat := 56

/-- `static_cast<uint32_t>` and `htonl` of one field. -/
def encodeInt32 (x : Int32) : Bytes := be32 x.toUInt32

/-- `memcpy` of four bytes at an offset, `ntohl` and `static_cast<int32_t>`. -/
def decodeInt32 (data : Bytes) (offset : Nat) : Int32 := (readBe32 (data.drop offset)).toInt32

/-- `HeartbeatMessage::encode`. -/
def HeartbeatMessage.encode (m : HeartbeatMessage) : Except Exn Bytes :=
  if m.nodeId.length ≠ 36 then .error .stdException
  else .ok (encodeInt32 m.zlcVersion.1 ++ encodeInt32 m.zlcVersion.2.1 ++
    encodeInt32 m.zlcVersion.2.2 ++ m.nodeId ++ encodeInt32 m.infoId ++
    encodeInt32 m.servicePort ++ m.groupName)

/-- `HeartbeatMessage::decode`. -/
def HeartbeatMessage.decode (data : Bytes) : Except Exn HeartbeatMessage :=
  if data.length < heartbeatFixedSize then .error .stdException
  else .ok {
    zlcVersion := (decodeInt32 data 0, decodeInt32 data 4, decodeInt32 data 8)
    nodeId := (data.drop 12).take 36
    infoId := decodeInt32 data 48
    servicePort := decodeInt32 data 52
    groupName := if heartbeatFixedSize < data.length then data.drop 56 else [] }

/-- A message with an identifier of the right length can be encoded. -/
theorem HeartbeatMessage.exists_encode {m : HeartbeatMessage} (h : m.nodeId.length = 36) :
    ∃ data, m.encode = .ok data := by
  rw [encode, if_neg (not_not.mpr h)]
  exact ⟨_, rfl⟩

/-- The identifier is read from its fixed place in the header. -/
theorem HeartbeatMessage.nodeId_of_decode {data : Bytes} {m : HeartbeatMessage}
    (h : decode data = .ok m) : m.nodeId = (data.drop 12).take 36 := by
  unfold decode at h
  split at h
  · cases h
  · cases h
    rfl

/-- The identifier is written to its fixed place in the header. -/
theorem HeartbeatMessage.nodeId_of_encode {m : HeartbeatMessage} {data : Bytes}
    (h : m.encode = .ok data) : (data.drop 12).take 36 = m.nodeId := by
  unfold encode at h
  split at h
  · cases h
  · rename_i hlen
    cases h
    have hid : m.nodeId.length = 36 := not_not.mp hlen
    have hversion : (encodeInt32 m.zlcVersion.1 ++ encodeInt32 m.zlcVersion.2.1 ++
        encodeInt32 m.zlcVersion.2.2).length = 12 := rfl
    rw [List.append_assoc, List.append_assoc, List.append_assoc, List.drop_left' hversion,
      List.take_left' hid]

end ZeroLanCom
