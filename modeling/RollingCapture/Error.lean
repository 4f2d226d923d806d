import RollingCapture.Capability
import RollingCapture.Compression
import RollingCapture.LinkType
import RollingCapture.Disk.Failure
import RollingCapture.Text.Utf8

/-! Everything that can go wrong in a capture run, by cause, and the one function that words it. -/
namespace RollingCapture

inductive StreamProblem where
  /-- The file header lacks this many bytes for its next field. -/
  | incomplete (lacking : Nat)
  | headerNotRecognized
  /-- A record does not fit into the read window. -/
  | recordTooLarge
  | unreadable
  /-- The data end inside a record. -/
  | truncatedRecord
  deriving DecidableEq, Repr

def StreamProblem.message : StreamProblem → String
  | incomplete n => s!"Incomplete({n})"
  | headerNotRecognized => "HeaderNotRecognized"
  | recordTooLarge => "BufferTooSmall"
  | unreadable => "ReadError"
  | truncatedRecord => "truncated record"

inductive FormatProblem where
  | opening (compression : Compression) (problem : StreamProblem)
  | reading (problem : StreamProblem)
  | io (failure : IoFailure)
  | linkTypeDiffers (found expected : LinkType)
  | other (text : String)
  deriving DecidableEq, Repr

def FormatProblem.message : FormatProblem → String
  | opening .plain p => s!"not a pcap file: {p.message}"
  | opening .lz4 p => s!"not a pcap stream inside the lz4 frame: {p.message}"
  | reading p => p.message
  | io f => f.message
  | linkTypeDiffers found expected =>
    s!"link type {found.describe} differs from {expected.describe} in earlier files"
  | other text => text

/-- Why a compressed stream could not be written or read. -/
inductive CompressionProblem where
  | writing (failure : IoFailure)
  | reading (problem : StreamProblem)
  | other (text : String)
  deriving DecidableEq, Repr

def CompressionProblem.message : CompressionProblem → String
  | writing f => f.detail
  | reading p => p.message
  | other text => text

inductive ConfigProblem where
  | noOutput
  | snaplenNotPositive (snaplen : Int)
  | negativeTimeout (ms : Int)
  | twoFilters
  | twoInputs
  | zeroStatsInterval
  | notASize (text : String)
  | nothingToRead
  | other (text : String)
  deriving DecidableEq, Repr

def ConfigProblem.message : ConfigProblem → String
  | noOutput => "no output file given"
  | snaplenNotPositive n => s!"snapshot length {n} must be positive"
  | negativeTimeout ms => s!"read timeout {ms} ms must not be negative"
  | twoFilters => "give the filter inline or in a file, not both"
  | twoInputs => "capture from an interface or read files, not both"
  | zeroStatsInterval => "statistics interval must not be zero"
  | notASize text => s!"{text}: not a size"
  | nothingToRead => "no files to read"
  | other text => text

inductive PrivilegeProblem where
  | noSuchUser (user : String)
  | other (text : String)
  deriving DecidableEq, Repr

def PrivilegeProblem.message : PrivilegeProblem → String
  | noSuchUser user => s!"{user}: no such user"
  | other text => text

inductive Error where
  | libraryUnavailable (reason : String)
  | unsupported (capability : Capability)
  | captureUnavailable (interface message : String)
  | library (message : String)
  | readFailure (message : String)
  | timeoutExpired
  | noMorePackets
  | fileOpen (path : String) (cause : IoFailure)
  | write (path : String) (cause : IoFailure)
  | compression (path : String) (problem : CompressionProblem)
  | format (path : String) (problem : FormatProblem)
  | invalidConfig (problem : ConfigProblem)
  | privilege (problem : PrivilegeProblem)
  | malformedText (cause : Text.Utf8Error)
  | nullString
  | nulInString
  deriving DecidableEq, Repr

namespace Error

/-- The error in words, with the file or interface that it is about in front. -/
def message : Error → String
  | libraryUnavailable reason => s!"capture library unavailable: {reason}"
  | unsupported c => s!"{c.symbol}: not supported by the capture library"
  | captureUnavailable interface m => s!"{interface}: {m}"
  | library m => s!"libpcap error: {m}"
  | readFailure m => s!"read failure: {m}"
  | timeoutExpired => "timeout expired"
  | noMorePackets => "no more packets to read from the file"
  | fileOpen path cause => s!"{path}: couldn't open file: {cause.message}"
  | write path cause => s!"{path}: packet write failure: {cause.message}"
  | compression path p => s!"{path}: lz4: {p.message}"
  | format path p => s!"{path}: {p.message}"
  | invalidConfig p => s!"invalid configuration: {p.message}"
  | privilege p => s!"relinquish privileges: {p.message}"
  | malformedText cause => s!"libpcap returned invalid UTF-8: {cause.message}"
  | nullString => "libpcap returned a null string"
  | nulInString => "invalid input string (internal null)"

/-- Whether the error ends a run. A timeout is the only one after which a run goes on. -/
def isFatal : Error → Bool
  | timeoutExpired => false
  | _ => true

end Error

end RollingCapture
