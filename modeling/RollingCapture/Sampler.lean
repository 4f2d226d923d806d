import RollingCapture.Error
import RollingCapture.Log
import RollingCapture.Packet

/-! Sampling the statistics of a capture while it runs. A capture library that has no statistics is
asked once and not again. -/
namespace RollingCapture

/-- The samples taken so far. -/
structure Sampler where
  last : Option Statistics := none
  /-- Every sample, the first one first. -/
  seen : Array Statistics := #[]
  asked : Nat := 0
  unsupported : Bool := false
  deriving Repr

namespace Sampler

/-- Takes in what the capture answers to one request. -/
def take (s : Sampler) (log : Log) (reply : Except Error Statistics) : Sampler × Log :=
  if s.unsupported then (s, log)
  else
    let s := { s with asked := s.asked + 1 }
    match reply with
    | .ok stats =>
      ({ s with last := some stats, seen := s.seen.push stats }, log.note .trace stats.describe)
    | .error (.unsupported c) =>
      ({ s with unsupported := true },
        log.note .warn ("statistics unavailable: " ++ (Error.unsupported c).message))
    | .error e => (s, log.note .debug ("statistics: " ++ e.message))

def takeAll (s : Sampler) (log : Log) (replies : List (Except Error Statistics)) : Sampler × Log :=
  replies.foldl (fun (s, log) reply => s.take log reply) (s, log)

def isUnsupported : Except Error Statistics → Bool
  | .error (.unsupported _) => true
  | _ => false

/-- The samples among `replies`, up to the first answer that there are none. -/
def samples (replies : List (Except Error Statistics)) : List Statistics :=
  (replies.takeWhile fun reply => !isUnsupported reply).filterMap Except.toOption

variable {s : Sampler}

theorem takeAll_cons (s : Sampler) (log : Log) (reply : Except Error Statistics)
    (replies : List (Except Error Statistics)) :
    s.takeAll log (reply :: replies) = (s.take log reply).1.takeAll (s.take log reply).2 replies := rfl

theorem takeAll_of_unsupported (unsupported : s.unsupported = true) (log : Log)
    (replies : List (Except Error Statistics)) : s.takeAll log replies = (s, log) := by
  induction replies with
  | nil => rfl
  | cons reply replies ih =>
    have ignored : s.take log reply = (s, log) := by rw [take, if_pos unsupported]
    rw [takeAll_cons, ignored, ih]

/-- One answer is the last sample, if it is one, and ends the sampling, if there are none. -/
theorem take_spec (supported : s.unsupported = false) (log : Log) (reply : Except Error Statistics) :
    (s.take log reply).1.last = reply.toOption.or s.last ∧
      (s.take log reply).1.unsupported = isUnsupported reply := by
  have asks : ¬ s.unsupported = true := by simp [supported]
  rw [take, if_neg asks]
  rcases reply with e | stats
  · cases e with
    | unsupported => exact ⟨rfl, rfl⟩
    | _ => exact ⟨rfl, supported⟩
  · exact ⟨rfl, supported⟩

/-- The last sample is kept, whatever the log. -/
theorem last_takeAll (supported : s.unsupported = false) (log : Log)
    (replies : List (Except Error Statistics)) :
    (s.takeAll log replies).1.last = (samples replies).getLast?.or s.last := by
  induction replies generalizing s log with
  | nil => rfl
  | cons reply replies ih =>
    obtain ⟨last, next⟩ := take_spec supported log reply
    rw [takeAll_cons]
    cases answer : isUnsupported reply with
    | true =>
      rw [takeAll_of_unsupported (next.trans answer), last]
      rcases reply with e | stats
      · simp [samples, answer, Except.toOption]
      · contradiction
    | false =>
      rw [ih (next.trans answer), last]
      rcases reply with e | stats
      · simp [samples, answer, Except.toOption]
      · simp [samples, answer, Except.toOption, List.getLast?_cons]

end Sampler

end RollingCapture
