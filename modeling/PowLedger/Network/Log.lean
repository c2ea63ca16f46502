import PowLedger.Network.Watcher

/-!
# The log of a local network

Watchers note what they are told and what they do about it. Behind the notes, in order, the log
holds the announcements that have come through the line that is listened to.
-/

namespace PowLedger

/-- Something that a watcher has noted. -/
inductive Note where
  /-- It was told of an event. -/
  | told (watcher : String) (event : Event)
  /-- It looked at an attempt: the height that is built, if the attempt is under way. -/
  | attemptSeen (watcher : String) (height : Option Nat)
  /-- It made an attempt, or wanted to. -/
  | attemptMade (watcher : String) (result : Except Fault MineOutcome)

namespace Note

/-- The note of an event as text. -/
def eventText : Event → String
  | .blockAdded b => s!"block:{b.height}:{b.hash}"
  | .transactionAdded tx => s!"tx:{tx.id.hex}"

/-- The height of an attempt as text. -/
def heightText : Option Nat → String
  | none => "None"
  | some h => s!"Some({h})"

/-- How an attempt has gone as text. -/
def resultText : Except Fault MineOutcome → String
  | .ok _ => "mined"
  | .error f => f.message

/-- A note as a line of text. -/
def text : Note → String
  | .told watcher e => watcher ++ "|" ++ eventText e
  | .attemptSeen watcher height => watcher ++ "|attempt:" ++ heightText height
  | .attemptMade watcher r => watcher ++ "|remine:" ++ resultText r

end Note

/-- An announcement as a line of text. -/
def Announcement.text : Announcement → String
  | .block h hash => s!"announced block:{h.height.toNat}:{hash}"
  | .transaction txid => s!"announced tx:{txid.hex}"

/-- What the watchers of a network have noted, and what has been announced, oldest first. -/
structure Log where
  notes : List Note
  announcements : List Announcement

namespace Log

/-- The log without anything. -/
def empty : Log := ⟨[], []⟩

/-- Adds a note. -/
def add (l : Log) (n : Note) : Log :=
  { l with notes := l.notes ++ [n] }

/-- Adds an announcement. -/
def addAnnouncement (l : Log) (a : Announcement) : Log :=
  { l with announcements := l.announcements ++ [a] }

/-- The lines of a log. -/
def text (l : Log) : List String :=
  l.notes.map Note.text ++ l.announcements.map Announcement.text

end Log

end PowLedger
