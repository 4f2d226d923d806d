import RollingCapture.Capture.Session

/-! Where sessions come from: a script, or the capture library. -/
namespace RollingCapture.Capture

inductive Provider where
  | scripted (p : ScriptedProvider)
  | live
  deriving Repr

namespace Provider

def devices (w : World) : Provider → Except Error (List Device) × World
  | scripted p => (ScriptedProvider.answer "devices" p.devices, w.asked .devices)
  | live =>
    let (result, library) := w.library.listDevices
    (result, { w with library })

def firstDevice (w : World) (p : Provider) : Except Error (Option Device) × World :=
  let (result, w) := p.devices w
  (result.map List.head?, w)

def openLive (w : World) (r : Request) : Provider → Except Error Session × World
  | scripted p =>
    ((ScriptedProvider.answer "open" p.opening).map .scripted, w.asked (.opening r))
  | live =>
    match w.library.openLive r with
    | (.error e, library) => (.error e, { w with library })
    | (.ok s, library) =>
      (.ok (.live s), World.note { w with library } .debug
        (s!"opened {s.name} (" ++ s.linkType.describe ++ s!", snaplen {r.snaplen.toInt})"))

def linkName (w : World) (t : LinkType) : Provider → Except Error String × World
  | scripted p => (ScriptedProvider.answer "datalink_name" p.linkName, w.asked (.linkName t))
  | live =>
    let (result, library) := w.library.linkName t
    (result, { w with library })

def linkDescription (w : World) (t : LinkType) : Provider → Except Error String × World
  | scripted p =>
    (ScriptedProvider.answer "datalink_description" p.linkDescription,
      w.asked (.linkDescription t))
  | live =>
    let (result, library) := w.library.linkDescription t
    (result, { w with library })

/-- A link type as messages show it: the provider's words for it or, without its name, what is
known of it anyway. -/
def linkText (w : World) (t : LinkType) (p : Provider) : String × World :=
  let (name, w) := p.linkName w t
  let (description, w) := p.linkDescription w t
  match name, description with
  | .ok name, .ok description => (s!"{name} ({description})", w)
  | .ok name, .error _ => (name, w)
  | .error e, _ => (t.describe, w.note .debug e.message)

end Provider

end RollingCapture.Capture
