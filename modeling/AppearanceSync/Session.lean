import AppearanceSync.Message

/-!
# Sessions

A session is one client's connection.  It joins, becomes active with the first message that is
sent to it, and is gone once the server has disconnected it or a message could not be sent.

What is sent waits in the session's inbox until the client takes it.  The client can close its
inbox: it takes nothing more, and nothing more can be sent.
-/

namespace AppearanceSync

/-- The number of a session. -/
structure SessionId where
  number : Nat
deriving DecidableEq

namespace SessionId

instance : Inhabited SessionId := ⟨⟨0⟩⟩

instance : Ord SessionId := ⟨fun a b => compare a.number b.number⟩

instance : Std.TransOrd SessionId where
  eq_swap := Std.OrientedOrd.eq_swap (α := Nat)
  isLE_trans := Std.TransOrd.isLE_trans (α := Nat)

instance : Std.LawfulEqOrd SessionId where
  compare_self := Std.ReflOrd.compare_self (α := Nat)
  eq_of_compare {a b} h := by
    cases a
    cases b
    exact congrArg SessionId.mk (Std.LawfulEqOrd.eq_of_compare (α := Nat) h)

/-- The number in decimal. -/
def text (session : SessionId) : String := toString session.number

end SessionId

/-- The messages that were sent to a session and that its client has not taken, oldest first. -/
structure Inbox where
  waiting : Array Message
  /-- Whether the client still wants messages. -/
  isOpen : Bool
deriving DecidableEq

namespace Inbox

def empty : Inbox := ⟨#[], true⟩

def push (inbox : Inbox) (m : Message) : Inbox := { inbox with waiting := inbox.waiting.push m }

def takeAll (inbox : Inbox) : Inbox := { inbox with waiting := #[] }

def close (inbox : Inbox) : Inbox := { inbox with isOpen := false }

end Inbox

/-- How far a session has come. -/
inductive SessionStage
  /-- Its snapshot has not been sent yet. -/
  | joining
  | active
  | gone
deriving DecidableEq

/-- A client's connection. -/
structure Session where
  id : SessionId
  stage : SessionStage
  inbox : Inbox
deriving DecidableEq

namespace Session

/-- A session that has just connected. -/
def connecting (id : SessionId) : Session := ⟨id, .joining, .empty⟩

/-- Sends a message; a session whose inbox is closed is gone instead. -/
def send (s : Session) (m : Message) : Session :=
  if s.inbox.isOpen then { s with stage := .active, inbox := s.inbox.push m }
  else { s with stage := .gone }

/-- The server gives the session up. -/
def disconnect (s : Session) : Session := { s with stage := .gone }

end Session
end AppearanceSync
