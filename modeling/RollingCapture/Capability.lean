/-! The operations a capture library may supply, each behind one exported symbol. -/
namespace RollingCapture

inductive Capability where
  | openLive | close | nextPacket | stats | findAllDevs | freeAllDevs | datalink | datalinkName
  | getErr | datalinkDescription | compile | setFilter | freeCode | create | setSnaplen
  | setPromisc | setTimeout | setRfmon | activate | libVersion
  deriving DecidableEq, Repr

namespace Capability

def all : List Capability :=
  [openLive, close, nextPacket, stats, findAllDevs, freeAllDevs, datalink, datalinkName, getErr,
    datalinkDescription, compile, setFilter, freeCode, create, setSnaplen, setPromisc, setTimeout,
    setRfmon, activate, libVersion]

/-- Every operation, in the order in which they are bound. -/
def bindingOrder : List Capability :=
  [openLive, close, nextPacket, stats, findAllDevs, freeAllDevs, datalink, datalinkName,
    datalinkDescription, getErr, compile, setFilter, freeCode, create, setSnaplen, setPromisc,
    setTimeout, setRfmon, activate, libVersion]

/-- The operations that a capture cannot do without. -/
def required : List Capability :=
  [openLive, close, nextPacket, stats, findAllDevs, freeAllDevs, datalink, datalinkName, getErr]

def isRequired (c : Capability) : Bool := required.contains c

def symbol : Capability → String
  | openLive => "pcap_open_live"
  | close => "pcap_close"
  | nextPacket => "pcap_next_ex"
  | stats => "pcap_stats"
  | findAllDevs => "pcap_findalldevs"
  | freeAllDevs => "pcap_freealldevs"
  | datalink => "pcap_datalink"
  | datalinkName => "pcap_datalink_val_to_name"
  | getErr => "pcap_geterr"
  | datalinkDescription => "pcap_datalink_val_to_description"
  | compile => "pcap_compile"
  | setFilter => "pcap_setfilter"
  | freeCode => "pcap_freecode"
  | create => "pcap_create"
  | setSnaplen => "pcap_set_snaplen"
  | setPromisc => "pcap_set_promisc"
  | setTimeout => "pcap_set_timeout"
  | setRfmon => "pcap_set_rfmon"
  | activate => "pcap_activate"
  | libVersion => "pcap_lib_version"

def name : Capability → String
  | openLive => "OpenLive"
  | close => "Close"
  | nextPacket => "NextPacket"
  | stats => "Stats"
  | findAllDevs => "FindAllDevs"
  | freeAllDevs => "FreeAllDevs"
  | datalink => "Datalink"
  | datalinkName => "DatalinkName"
  | getErr => "GetErr"
  | datalinkDescription => "DatalinkDescription"
  | compile => "Compile"
  | setFilter => "SetFilter"
  | freeCode => "FreeCode"
  | create => "Create"
  | setSnaplen => "SetSnaplen"
  | setPromisc => "SetPromisc"
  | setTimeout => "SetTimeout"
  | setRfmon => "SetRfmon"
  | activate => "Activate"
  | libVersion => "LibVersion"

def ofName? (name : String) : Option Capability := all.find? (·.name == name)

def listText (cs : List Capability) : String :=
  "[" ++ ", ".intercalate (cs.map Capability.name) ++ "]"

end Capability

end RollingCapture
