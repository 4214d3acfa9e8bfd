/-!
# Failures of the underlying connection

What an operating system, or whatever stands in for one, reports when reading,
writing or connecting fails: a kind, which decides how the failure is treated,
and a text, which is only passed on.
-/

namespace Switchboard

/-- The kinds of failure that a connection can report. -/
inductive IoKind where
  | notFound | permissionDenied | connectionRefused | connectionReset | hostUnreachable | networkUnreachable
  | connectionAborted | notConnected | addrInUse | addrNotAvailable | networkDown | brokenPipe
  | alreadyExists | wouldBlock | notADirectory | isADirectory | directoryNotEmpty | readOnlyFilesystem
  | staleNetworkFileHandle | invalidInput | invalidData | timedOut | writeZero | storageFull
  | notSeekable | quotaExceeded | fileTooLarge | resourceBusy | executableFileBusy | deadlock
  | crossesDevices | tooManyLinks | invalidFilename | argumentListTooLong | interrupted | unsupported
  | unexpectedEof | outOfMemory | other | uncategorized
  deriving Repr, DecidableEq

namespace IoKind

/-- The name under which a kind is reported. -/
def name : IoKind → String
  | notFound => "NotFound"
  | permissionDenied => "PermissionDenied"
  | connectionRefused => "ConnectionRefused"
  | connectionReset => "ConnectionReset"
  | hostUnreachable => "HostUnreachable"
  | networkUnreachable => "NetworkUnreachable"
  | connectionAborted => "ConnectionAborted"
  | notConnected => "NotConnected"
  | addrInUse => "AddrInUse"
  | addrNotAvailable => "AddrNotAvailable"
  | networkDown => "NetworkDown"
  | brokenPipe => "BrokenPipe"
  | alreadyExists => "AlreadyExists"
  | wouldBlock => "WouldBlock"
  | notADirectory => "NotADirectory"
  | isADirectory => "IsADirectory"
  | directoryNotEmpty => "DirectoryNotEmpty"
  | readOnlyFilesystem => "ReadOnlyFilesystem"
  | staleNetworkFileHandle => "StaleNetworkFileHandle"
  | invalidInput => "InvalidInput"
  | invalidData => "InvalidData"
  | timedOut => "TimedOut"
  | writeZero => "WriteZero"
  | storageFull => "StorageFull"
  | notSeekable => "NotSeekable"
  | quotaExceeded => "QuotaExceeded"
  | fileTooLarge => "FileTooLarge"
  | resourceBusy => "ResourceBusy"
  | executableFileBusy => "ExecutableFileBusy"
  | deadlock => "Deadlock"
  | crossesDevices => "CrossesDevices"
  | tooManyLinks => "TooManyLinks"
  | invalidFilename => "InvalidFilename"
  | argumentListTooLong => "ArgumentListTooLong"
  | interrupted => "Interrupted"
  | unsupported => "Unsupported"
  | unexpectedEof => "UnexpectedEof"
  | outOfMemory => "OutOfMemory"
  | other => "Other"
  | uncategorized => "Uncategorized"

/-- Every kind, once. -/
def all : List IoKind :=
  [.notFound, .permissionDenied, .connectionRefused, .connectionReset, .hostUnreachable,
   .networkUnreachable, .connectionAborted, .notConnected, .addrInUse, .addrNotAvailable,
   .networkDown, .brokenPipe, .alreadyExists, .wouldBlock, .notADirectory, .isADirectory,
   .directoryNotEmpty, .readOnlyFilesystem, .staleNetworkFileHandle, .invalidInput,
   .invalidData, .timedOut, .writeZero, .storageFull, .notSeekable, .quotaExceeded,
   .fileTooLarge, .resourceBusy, .executableFileBusy, .deadlock, .crossesDevices,
   .tooManyLinks, .invalidFilename, .argumentListTooLong, .interrupted, .unsupported,
   .unexpectedEof, .outOfMemory, .other,
    .uncategorized]

/-- The kind with a given name. -/
def ofName? (name : String) : Option IoKind := all.find? (·.name == name)

theorem ofName?_name (k : IoKind) : ofName? k.name = some k := by
  cases k <;> decide

end IoKind

/-- A failure reported by the connection. -/
structure IoError where
  kind : IoKind
  text : String
  deriving Repr, DecidableEq

end Switchboard
