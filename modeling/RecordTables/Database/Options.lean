/-!
# Options of a connection

How a connection is opened.  An option that is left out keeps the default of the engine.
-/

namespace RecordTables

/-- What becomes of the journal of a transaction. -/
inductive JournalMode where
  | delete
  | truncate
  | persist
  | memory
  | wal
  | off
  deriving DecidableEq, Repr

def JournalMode.keyword : JournalMode → String
  | .delete => "DELETE"
  | .truncate => "TRUNCATE"
  | .persist => "PERSIST"
  | .memory => "MEMORY"
  | .wal => "WAL"
  | .off => "OFF"

/-- How often written data is forced to the disk. -/
inductive Synchronous where
  | off
  | normal
  | full
  | extra
  deriving DecidableEq, Repr

def Synchronous.keyword : Synchronous → String
  | .off => "OFF"
  | .normal => "NORMAL"
  | .full => "FULL"
  | .extra => "EXTRA"

/-- How a connection is opened. -/
structure OpenOptions where
  /-- A file that is not there is made. -/
  createIfMissing : Bool := true
  readOnly : Bool := false
  journalMode : Option JournalMode := none
  synchronous : Option Synchronous := none
  /-- For how many milliseconds a statement waits for a lock. -/
  busyTimeout : Option Nat := none
  deriving DecidableEq, Repr, Inhabited

namespace OpenOptions

/-- A log ahead of the file, forced to the disk now and then. -/
def writeAhead : OpenOptions := { journalMode := some .wal, synchronous := some .normal }

/-- Reading alone, from a file that has to be there. -/
def reading : OpenOptions := { createIfMissing := false, readOnly := true }

end OpenOptions

end RecordTables
