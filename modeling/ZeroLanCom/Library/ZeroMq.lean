import Mathlib.Data.Finset.Basic
import Mathlib.Tactic.Common

/-!
# ZeroMQ sockets as state machines

Only what a caller can observe of a socket: the frames a `recv` yields, the
turns in which a call is allowed, and the endpoints a socket is connected to.
A refused call reports its `Errno` and leaves the socket as it was.
-/

namespace ZeroMq

/-- The error numbers a caller can tell apart. -/
inductive Errno where
  | EFSM
  | EINVAL
  | ENOENT
  | ETERM
  deriving DecidableEq, Repr

/-- A multipart message, which has at least one frame. -/
structure Multipart (φ : Type*) where
  first : φ
  rest : List φ
  deriving DecidableEq, Repr

variable {ι φ υ : Type*}

/-- All frames of a message, of which there is at least one. -/
def Multipart.frames (m : Multipart φ) : List φ := m.first :: m.rest

/-- Whose turn it is. A request is read frame by frame, and a reply is owed from its last
frame on; `sent` are the frames of the reply handed over so far. -/
inductive RepPhase (ι φ : Type*) where
  | idle
  | receiving (peer : ι) (next : φ) (rest : List φ)
  | replying (peer : ι) (sent : List φ)
  deriving DecidableEq, Repr

/-- A REP socket with the requests that have arrived and the replies it has sent, each with
the peer it comes from or goes to. -/
structure RepSocket (ι φ : Type*) where
  phase : RepPhase ι φ
  incoming : List (ι × Multipart φ)
  replies : List (ι × List φ)
  deriving DecidableEq, Repr

namespace RepSocket

/-- A bound socket nobody has talked to. -/
def fresh : RepSocket ι φ := ⟨.idle, [], []⟩

/-- Whole requests arrive in order. -/
def arrive (s : RepSocket ι φ) (peer : ι) (m : Multipart φ) : RepSocket ι φ :=
  { s with incoming := s.incoming ++ [(peer, m)] }

/-- The phase after a frame was handed out, given the frames of its request behind it. -/
def afterFrame (peer : ι) : List φ → RepPhase ι φ
  | [] => .replying peer []
  | f :: fs => .receiving peer f fs

/-- `recv`: a frame with its more flag, or nothing once the receive timeout elapses. -/
def recv (s : RepSocket ι φ) : Except Errno (Option (φ × Bool) × RepSocket ι φ) :=
  match s.phase with
  | .replying _ _ => .error .EFSM
  | .receiving peer f rest =>
    .ok (some (f, !rest.isEmpty), { s with phase := afterFrame peer rest })
  | .idle =>
    match s.incoming with
    | [] => .ok (none, s)
    | (peer, m) :: later =>
      .ok (some (m.first, !m.rest.isEmpty),
        { s with phase := afterFrame peer m.rest, incoming := later })

/-- `send`: only the reply to the request read last, and only after its last frame. -/
def send (s : RepSocket ι φ) (frame : φ) (more : Bool) : Except Errno (RepSocket ι φ) :=
  match s.phase with
  | .replying peer sent =>
    if more then .ok { s with phase := .replying peer (sent ++ [frame]) }
    else .ok { s with phase := .idle, replies := s.replies ++ [(peer, sent ++ [frame])] }
  | _ => .error .EFSM

/-- The frames the next calls of `recv` yield before a reply is owed. -/
def unread (s : RepSocket ι φ) : List φ :=
  match s.phase with
  | .replying _ _ => []
  | .receiving _ f rest => f :: rest
  | .idle =>
    match s.incoming with
    | [] => []
    | (_, m) :: _ => m.frames

/-- The peers whose requests have arrived but are not answered, oldest first. -/
def waiting (s : RepSocket ι φ) : List ι :=
  (match s.phase with
    | .idle => []
    | .receiving peer _ _ => [peer]
    | .replying peer _ => [peer]) ++ s.incoming.map Prod.fst

/-- The peers that have been sent a whole reply, in order. -/
def answered (s : RepSocket ι φ) : List ι := s.replies.map Prod.fst

end RepSocket

/-- A SUB socket, by the set of endpoints it is connected to. -/
structure SubSocket (υ : Type*) where
  endpoints : Finset υ
  deriving DecidableEq

namespace SubSocket

variable [DecidableEq υ]

/-- A socket without connections. -/
def fresh : SubSocket υ := ⟨∅⟩

/-- `connect`: malformed endpoints are rejected, a second connect to one has no effect. -/
def connect (accepts : υ → Bool) (s : SubSocket υ) (url : υ) : Except Errno (SubSocket υ) :=
  if accepts url then .ok ⟨insert url s.endpoints⟩ else .error .EINVAL

/-- `disconnect`: an endpoint the socket does not have is an error. -/
def disconnect (s : SubSocket υ) (url : υ) : Except Errno (SubSocket υ) :=
  if url ∈ s.endpoints then .ok ⟨s.endpoints.erase url⟩ else .error .ENOENT

end SubSocket

end ZeroMq
