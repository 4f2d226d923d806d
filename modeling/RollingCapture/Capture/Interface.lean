import RollingCapture.Capture.Library
import RollingCapture.Device

/-! Live capture through the capture library. Whoever opens a handle releases it, also where opening
fails halfway. -/
namespace RollingCapture.Capture

structure InterfaceSession where
  handle : Handle
  name : String
  linkType : LinkType
  snaplen : UInt32
  deriving DecidableEq, Repr

namespace Library

/-- The devices that can be captured from. The list is freed whether or not all of it can be read.
-/
def listDevices (l : Library) : Except Error (List Device) × Library :=
  match l.require [.findAllDevs, .freeAllDevs] with
  | .error e => (.error e, l)
  | .ok () =>
    let listing := l.behaviour.listing
    if listing.code = 0 then
      let found := !listing.devices.isEmpty
      let l := l.called (.findAllDevs found)
      (listing.devices.mapM RawDevice.read, if found then l.called .freeAllDevs else l)
    else (.error (cut listing.complaint).complaint, l.called (.findAllDevs false))

def linkName (l : Library) (t : LinkType) : Except Error String × Library :=
  match l.require [.datalinkName] with
  | .error e => (.error e, l)
  | .ok () =>
    (RawText.get ((l.behaviour.names.lookup t.code.toInt).getD none),
      l.called (.datalinkName t.code))

def linkDescription (l : Library) (t : LinkType) : Except Error String × Library :=
  match l.require [.datalinkDescription] with
  | .error e => (.error e, l)
  | .ok () =>
    (RawText.get ((l.behaviour.descriptions.lookup t.code.toInt).getD none),
      l.called (.datalinkDescription t.code))

def version (l : Library) : Except Error String × Library :=
  match l.require [.libVersion] with
  | .error e => (.error e, l)
  | .ok () => (l.behaviour.version.get, l.called .libVersion)

def openDirectly (l : Library) (r : Request) : Except Error Handle × Library :=
  match l.require [.openLive] with
  | .error e => (.error e, l)
  | .ok () =>
    let call := Call.openLive r.device.name r.snaplen r.promisc r.timeoutMs
    match l.behaviour.openLive with
    | some t => (.error (.captureUnavailable r.device.name (cut t).getD), l.called (call none))
    | none =>
      let (h, l) := l.hand
      (.ok h, l.called (call (some h)))

/-- Opens a device in the steps that monitor mode needs: it can only be set before the capture is
activated. Warnings, whose codes are positive, are no failure. -/
def openStepwise (l : Library) (r : Request) : Except Error Handle × Library :=
  match l.require [.create, .setSnaplen, .setPromisc, .setTimeout, .setRfmon, .activate] with
  | .error e => (.error e, l)
  | .ok () =>
    let call := Call.create r.device.name
    match l.behaviour.create with
    | some t => (.error (.captureUnavailable r.device.name (cut t).getD), l.called (call none))
    | none =>
      let (h, l) := l.hand
      let l := [call (some h), .setSnaplen h r.snaplen, .setPromisc h r.promisc,
        .setTimeout h r.timeoutMs, .setRfmon h true, .activate h].foldl called l
      if l.behaviour.activate < 0 then
        let (t, l) := l.lastError h
        (.error (.captureUnavailable r.device.name t.getD), l.release h)
      else (.ok h, l)

def openLive (l : Library) (r : Request) : Except Error InterfaceSession × Library :=
  if r.device.name.toList.contains '\x00' then (.error .nulInString, l)
  else
    match if r.monitor then l.openStepwise r else l.openDirectly r with
    | (.error e, l) => (.error e, l)
    | (.ok h, l) =>
      match l.require [.datalink] with
      | .error e => (.error e, l.release h)
      | .ok () =>
        (.ok { handle := h
               name := r.device.name
               linkType := ⟨l.behaviour.datalink⟩
               snaplen := r.snaplen.toUInt32 }, l.called (.datalink h))

/-- Takes the next read off the list. Past its end the input is over. -/
def takeRead (l : Library) : Read × Library :=
  match l.behaviour.reads with
  | [] => (.code (-2), l)
  | read :: reads => (read, { l with behaviour := { l.behaviour with reads } })

def takeStats (l : Library) : Option Statistics × Library :=
  match l.behaviour.stats with
  | [] => (none, l)
  | s :: stats => (s, { l with behaviour := { l.behaviour with stats } })

def nextPacket (l : Library) (h : Handle) : Except Error Packet × Library :=
  match l.require [.nextPacket] with
  | .error e => (.error e, l)
  | .ok () =>
    match (l.called (.nextPacket h)).takeRead with
    | (.packet p, l) => (.ok { p with data := p.data.take p.header.caplen.toNat }, l)
    | (.code n, l) =>
      if n = 0 then (.error .timeoutExpired, l)
      else if n = -2 then (.error .noMorePackets, l)
      else
        let (t, l) := l.lastError h
        (.error (.readFailure t.getD), l)

/-- A read that gives a packet, or has waited in vain, is taken off the list. -/
theorem length_nextPacket {l l' : Library} {h : Handle} {result : Except Error Packet}
    (found : l.nextPacket h = (result, l'))
    (goesOn : result.isOk ∨ result = .error .timeoutExpired) :
    l'.behaviour.reads.length < l.behaviour.reads.length := by
  unfold nextPacket at found
  split at found
  · rename_i e missing
    simp only [Prod.mk.injEq] at found
    obtain ⟨rfl, -⟩ := found
    unfold require at missing
    rcases goesOn with ok | timeout
    · simp [Except.isOk, Except.toBool] at ok
    · simp only [Except.error.injEq] at timeout
      subst timeout
      split at missing
      · simp at missing
      · split at missing <;> simp at missing
  · simp only [takeRead, called] at found
    split at found
    · rename_i taken
      simp only [Prod.mk.injEq] at found
      obtain ⟨-, rfl⟩ := found
      split at taken
      · simp at taken
      · rename_i more
        simp only [Prod.mk.injEq] at taken
        obtain ⟨-, rfl⟩ := taken
        simp [more]
    · rename_i n _ taken
      split at taken
      · rename_i empty
        simp only [Prod.mk.injEq, Read.code.injEq] at taken
        obtain ⟨rfl, rfl⟩ := taken
        simp only at found
        obtain ⟨rfl, -⟩ := found
        simp [Except.isOk, Except.toBool] at goesOn
      · rename_i more
        simp only [Prod.mk.injEq] at taken
        obtain ⟨rfl, rfl⟩ := taken
        split at found
        · simp only [Prod.mk.injEq] at found
          obtain ⟨-, rfl⟩ := found
          simp [more]
        · split at found
          · simp only [Prod.mk.injEq] at found
            obtain ⟨rfl, -⟩ := found
            simp [Except.isOk, Except.toBool] at goesOn
          · simp only [Prod.mk.injEq] at found
            obtain ⟨rfl, -⟩ := found
            simp [Except.isOk, Except.toBool] at goesOn

/-- Installs a filter program. A compiled program is freed whether or not it could be installed. -/
def installFilter (l : Library) (h : Handle) (program : String) (optimize : Bool) :
    Except Error Unit × Library :=
  match l.require [.compile, .setFilter, .freeCode] with
  | .error e => (.error e, l)
  | .ok () =>
    if program.toList.contains '\x00' then (.error .nulInString, l)
    else
      let done := l.behaviour.compile ≠ -1
      let l := l.called (.compile h program optimize done)
      if done then
        let l := (l.called (.setFilter h)).called .freeCode
        if l.behaviour.setFilter = -1 then
          let (e, l) := l.failWith h
          (.error e, l)
        else (.ok (), l)
      else
        let (e, l) := l.failWith h
        (.error e, l)

/-- The statistics of a capture, unless its handle was released. -/
def statistics (l : Library) (h : Handle) : Except Error Statistics × Library :=
  if l.held.contains h then
    match l.require [.stats] with
    | .error e => (.error e, l)
    | .ok () =>
      match (l.called (.stats h)).takeStats with
      | (some s, l) => (.ok s, l)
      | (none, l) =>
        let (e, l) := l.failWith h
        (.error e, l)
  else (.error (.readFailure "capture closed"), l)

end Library

end RollingCapture.Capture
