/-
Replies of a connection.

`handle_stream` handles one message after the other. Whether a response is
written is a field of the connection, which only the flags of an OP_MSG set;
errors are written without looking at it. What reading, parsing and processing
a message come to is part of the message, and writing to the stream succeeds.
-/
import Mathlib.Data.Nat.Init
import Mathlib.Data.List.Basic

namespace DocumentDb.Gateway

-- ==== messages

/-- Of a message, for an OP_MSG with its flag MORE_TO_COME. -/
inductive OpCode where
  | msg (moreToCome : Bool)
  | query
  deriving DecidableEq, Repr

/-- How handling a message ends. -/
inductive Outcome where
  /-- The task is gone, and with it the connection. -/
  | panics
  /-- `read_request` fails, a shutdown is under way, or parsing fails before
  the flags are stored. -/
  | failsBeforeFlags
  | failsAfterFlags
  | responds
  deriving DecidableEq, Repr

/-- A message: what of its header the reply repeats, and how it ends. -/
structure Message where
  opCode : OpCode
  requestId : Int
  outcome : Outcome
  deriving DecidableEq, Repr

/-- The header of a reply. An OP_MSG is answered by an OP_MSG, an OP_QUERY by
an OP_REPLY. -/
structure Reply where
  isOpMsg : Bool
  responseTo : Int
  deriving DecidableEq, Repr

namespace Message

def writeResponse (m : Message) : Reply := ⟨m.opCode != .query, m.requestId⟩

/-- Once the flags of a message are read. -/
def requiresResponse (before : Bool) (m : Message) : Bool :=
  match m.opCode with
  | .msg moreToCome => !moreToCome
  | .query => before

/-- `requires_response` after a message. -/
def requiresResponseAfter (before : Bool) (m : Message) : Bool :=
  if m.outcome = .failsBeforeFlags then before else m.requiresResponse before

/-- With the error that `handle_stream` writes for it: the replies to one message. -/
def handleMessage (requiresResponse : Bool) (m : Message) : List Reply :=
  match m.outcome with
  | .panics => []
  | .failsBeforeFlags | .failsAfterFlags => [m.writeResponse]
  | .responds => if m.requiresResponse requiresResponse then [m.writeResponse] else []

/-- The request ids that the replies to a message are due to carry. -/
def due (m : Message) : List Int := if m.opCode = .msg true then [] else [m.requestId]

/-- A message gets the replies that are due: one without a reply of its own must
not fail, and an OP_QUERY that succeeds must find the field set. -/
def AnsweredAsDue (requiresResponse : Bool) (m : Message) : Prop :=
  match m.opCode, m.outcome with
  | .msg true, outcome => outcome = .panics ∨ outcome = .responds
  | .msg false, outcome => outcome ≠ .panics
  | .query, outcome => outcome ≠ .panics ∧ (outcome = .responds → requiresResponse = true)

theorem handleMessage_due_iff (requiresResponse : Bool) (m : Message) :
    (m.handleMessage requiresResponse).map Reply.responseTo = m.due ↔
      m.AnsweredAsDue requiresResponse := by
  obtain ⟨opCode, requestId, outcome⟩ := m
  rcases opCode with (_ | _) | _ <;> cases requiresResponse <;> rcases outcome <;>
    simp [handleMessage, Message.requiresResponse, due, AnsweredAsDue, writeResponse]

theorem due_eq_nil_iff (m : Message) : m.due = [] ↔ m.opCode = .msg true := by
  by_cases h : m.opCode = .msg true <;> simp [due, h]

end Message

-- ==== the connection

/-- The replies to each of the messages. Behind a message whose handling panics there are
none. -/
def handleStream : Bool → List Message → List (List Reply)
  | _, [] => []
  | requiresResponse, m :: rest =>
    m.handleMessage requiresResponse ::
      if m.outcome = .panics then rest.map fun _ => []
      else handleStream (m.requiresResponseAfter requiresResponse) rest

/-- On a connection, which starts with `requires_response` set, every message
that is not an OP_MSG with MORE_TO_COME gets one reply with its request id and
every other one none, exactly if each OP_MSG with the flag succeeds, the OP_MSG
whose flags were read last before an OP_QUERY that succeeds does not have it,
and behind a panic there are only OP_MSGs with it. -/
theorem one_reply_each_iff (requiresResponse : Bool) (messages : List Message) :
    (handleStream requiresResponse messages).map (·.map Reply.responseTo) =
        messages.map Message.due ↔
      ∀ (i : Nat) (m : Message), messages[i]? = some m →
        if (messages.take i).any (·.outcome = .panics) then m.opCode = .msg true
        else m.AnsweredAsDue ((messages.take i).foldl Message.requiresResponseAfter
          requiresResponse) := by
  induction messages generalizing requiresResponse with
  | nil => simp [handleStream]
  | cons m rest ih =>
    rw [handleStream, List.map_cons, List.map_cons, List.cons.injEq, m.handleMessage_due_iff,
      ← Nat.and_forall_add_one]
    refine and_congr (by simp) ?_
    by_cases hpanics : m.outcome = .panics
    · rw [if_pos hpanics, List.map_map, List.map_inj_left]
      simp only [List.mem_iff_getElem?, forall_exists_index]
      rw [forall_comm]
      simp [hpanics, Message.due_eq_nil_iff]
    · simp [hpanics, ih]

/-- An OP_QUERY behind an OP_MSG with MORE_TO_COME gets no reply. -/
theorem query_without_reply :
    let messages : List Message := [⟨.msg true, 1, .responds⟩, ⟨.query, 2, .responds⟩]
    (handleStream true messages).map (·.map Reply.responseTo) ≠ messages.map Message.due := by
  decide

end DocumentDb.Gateway
