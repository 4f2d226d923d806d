import RollingCapture.Capture.Library
import Mathlib.Data.List.Nodup

/-! The calls of a capture library as an account of what it hands out. A handle is opened, used and
closed; a compiled program and a list of devices are freed right after they were made. -/
namespace RollingCapture.Capture

namespace Call

def handle? : Call → Option Handle
  | setSnaplen h _ | setPromisc h _ | setTimeout h _ | setRfmon h _ | activate h | datalink h
  | nextPacket h | compile h _ _ _ | setFilter h | stats h | getErr h | close h => some h
  | openLive .. | create .. | freeCode | findAllDevs _ | freeAllDevs | datalinkName _
  | datalinkDescription _ | libVersion => none

def returned? : Call → Option Handle
  | openLive _ _ _ _ result | create _ result => result
  | _ => none

/-- What has to come right after a call: a compiled program is installed and freed, a list of devices
is freed. -/
def settlement : Call → List Call
  | compile h _ _ true => [setFilter h, freeCode]
  | findAllDevs true => [freeAllDevs]
  | _ => []

/-- A call that opens and closes nothing, and is passed only handles that are open. -/
def IsUse (held : List Handle) (c : Call) : Prop :=
  c.returned? = none ∧ ∀ h, c.handle? = some h → h ∈ held ∧ c ≠ .close h

theorem IsUse.of_handle_eq_none {held : List Handle} {c : Call} (returned : c.returned? = none)
    (passed : c.handle? = none) : c.IsUse held :=
  ⟨returned, by simp [passed]⟩

theorem IsUse.of_mem {held : List Handle} {c : Call} {h : Handle} (member : h ∈ held)
    (returned : c.returned? = none) (passed : c.handle? = some h) (open_ : c ≠ .close h) :
    c.IsUse held := by
  refine ⟨returned, ?_⟩
  rintro h' passed'
  obtain rfl := Option.some.inj (passed.symm.trans passed')
  exact ⟨member, open_⟩

theorem settlement_of_mem {c d : Call} (member : d ∈ c.settlement) : d.settlement = [] := by
  unfold settlement at member
  split at member
  · rcases List.mem_pair.1 member with rfl | rfl <;> rfl
  · rw [List.mem_singleton.1 member]; rfl
  · exact absurd member List.not_mem_nil

theorem nodup_settlement (c : Call) : c.settlement.Nodup := by
  unfold settlement
  split <;> simp

/-- What is freed in a settlement is what the call owes. -/
theorem count_settlement {c free : Call} (owes : c ∉ [freeCode, freeAllDevs])
    (frees : free ∈ [freeCode, freeAllDevs]) :
    (c :: c.settlement).count free = (c :: c.settlement).countP (free ∈ ·.settlement) := by
  have other : c ≠ free := by
    rintro rfl
    exact owes frees
  have inside : c.settlement.countP (free ∈ ·.settlement) = 0 :=
    List.countP_eq_zero.2 fun d member => by simp [settlement_of_mem member]
  rw [List.count_cons_of_ne other, c.nodup_settlement.count, List.countP_cons, inside, Nat.zero_add]
  simp

end Call

def HandedOut (calls : List Call) (h : Handle) : Prop := ∃ c ∈ calls, c.returned? = some h

/-- `h` was closed once, and no later call was passed it. -/
def ClosedOnce (calls : List Call) (h : Handle) : Prop :=
  ∃ before after, calls = before ++ .close h :: after ∧ .close h ∉ before ∧
    ∀ c ∈ after, c.handle? ≠ some h

/-- The calls of a library are in order, and of the handles that were handed out those in `held` are
open. -/
structure Accounts (calls : List Call) (held : List Handle) : Prop where
  handles : ∀ h, HandedOut calls h →
    (held.count h = 1 ∧ .close h ∉ calls) ∨ (h ∉ held ∧ ClosedOnce calls h)
  settled : ∀ before c after, calls = before ++ c :: after → c.settlement <+: after
  frees : ∀ free ∈ [Call.freeCode, .freeAllDevs],
    calls.count free = calls.countP (free ∈ ·.settlement)

inductive Stage where
  | unknown | opened | closed
  deriving DecidableEq

/-- The calls follow the life of a handle, and leave it at a stage. -/
inductive Lives (h : Handle) : List Call → Stage → Prop where
  | start : Lives h [] .unknown
  | opening {calls : List Call} {c : Call} : Lives h calls .unknown → c.returned? = some h →
      c.handle? = none → Lives h (calls ++ [c]) .opened
  | use {calls : List Call} {c : Call} : Lives h calls .opened → c.returned? = none →
      c ≠ .close h → Lives h (calls ++ [c]) .opened
  | closing {calls : List Call} : Lives h calls .opened → Lives h (calls ++ [.close h]) .closed
  | other {calls : List Call} {c : Call} {s : Stage} : Lives h calls s → c.returned? ≠ some h →
      c.handle? ≠ some h → Lives h (calls ++ [c]) s

/-- Every call is settled right after it, and nothing is freed besides. -/
inductive Settled : List Call → Prop where
  | nil : Settled []
  | cons {c : Call} {calls : List Call} : c ∉ [Call.freeCode, .freeAllDevs] → Settled calls →
      Settled (c :: (c.settlement ++ calls))

variable {h : Handle} {c : Call} {calls more : List Call} {s : Stage} {held : List Handle}

/-- Where nothing is open, all is closed. -/
theorem Accounts.closedOnce (accounts : Accounts calls []) (handed : HandedOut calls h) :
    ClosedOnce calls h := by
  rcases accounts.handles h handed with ⟨open_, -⟩ | ⟨-, closed⟩
  · exact absurd open_ (by simp)
  · exact closed

namespace Lives

theorem close_notMem (lives : Lives h calls s) (before : s ≠ .closed) : .close h ∉ calls := by
  induction lives with
  | start => exact List.not_mem_nil
  | opening lives returned passed ih =>
    rintro closed
    rcases List.mem_append.1 closed with earlier | now
    · exact ih (by decide) earlier
    · rw [← List.mem_singleton.1 now] at passed
      exact absurd passed (by simp [Call.handle?])
  | use lives returned open_ ih =>
    rintro closed
    rcases List.mem_append.1 closed with earlier | now
    · exact ih before earlier
    · exact open_ (List.mem_singleton.1 now).symm
  | closing => exact absurd rfl before
  | other lives returned passed ih =>
    rintro closed
    rcases List.mem_append.1 closed with earlier | now
    · exact ih before earlier
    · rw [← List.mem_singleton.1 now] at passed
      exact passed rfl

theorem not_handedOut (lives : Lives h calls .unknown) : ¬ HandedOut calls h := by
  generalize unknown : Stage.unknown = s at lives
  induction lives with
  | start => simp [HandedOut]
  | opening => cases unknown
  | use => cases unknown
  | closing => cases unknown
  | other lives returned passed ih =>
    rintro ⟨c, member, handed⟩
    rcases List.mem_append.1 member with earlier | now
    · exact ih unknown ⟨c, earlier, handed⟩
    · exact returned (List.mem_singleton.1 now ▸ handed)

theorem closedOnce (lives : Lives h calls .closed) : ClosedOnce calls h := by
  generalize closed : Stage.closed = s at lives
  induction lives with
  | start => cases closed
  | opening => cases closed
  | use => cases closed
  | closing lives => exact ⟨_, [], rfl, lives.close_notMem (by decide), by simp⟩
  | @other calls c s lives returned passed ih =>
    obtain ⟨before, after, rfl, fresh, unused⟩ := ih closed
    refine ⟨before, after ++ [c], by simp, fresh, ?_⟩
    intro d member
    rcases List.mem_append.1 member with earlier | now
    · exact unused d earlier
    · exact List.mem_singleton.1 now ▸ passed

theorem uses (lives : Lives h calls s) (opened : h ∈ held → s = .opened)
    (uses : ∀ c ∈ more, c.IsUse held) : Lives h (calls ++ more) s := by
  induction more generalizing calls with
  | nil => simpa using lives
  | cons c more ih =>
    obtain ⟨returned, use⟩ := uses c List.mem_cons_self
    have next : Lives h (calls ++ [c]) s := by
      by_cases passed : c.handle? = some h
      · obtain ⟨member, open_⟩ := use h passed
        obtain rfl := opened member
        exact lives.use returned open_
      · exact lives.other (by simp [returned]) passed
    simpa using ih next fun d member => uses d (List.mem_cons_of_mem _ member)

end Lives

namespace Settled

theorem append (settled : Settled calls) (rest : Settled more) : Settled (calls ++ more) := by
  induction settled with
  | nil => exact rest
  | cons owes _ ih => simpa using cons owes ih

theorem single (owes : c.settlement = []) (frees : c ∉ [Call.freeCode, .freeAllDevs]) :
    Settled [c] := by
  have settled := cons frees nil
  rwa [owes] at settled

theorem of_forall
    (plain : ∀ c ∈ calls, c.settlement = [] ∧ c ∉ [Call.freeCode, .freeAllDevs]) :
    Settled calls := by
  induction calls with
  | nil => exact nil
  | cons c calls ih =>
    obtain ⟨owes, frees⟩ := plain c List.mem_cons_self
    have rest := ih fun d member => plain d (List.mem_cons_of_mem _ member)
    exact (single owes frees).append rest

theorem settlement_prefix (settled : Settled calls) {before after : List Call}
    (split : calls = before ++ c :: after) : c.settlement <+: after := by
  induction settled generalizing before with
  | nil => simp at split
  | @cons first rest _ _ ih =>
    cases before with
    | nil =>
      obtain ⟨rfl, rfl⟩ := List.cons.inj split
      exact List.prefix_append _ _
    | cons b before =>
      obtain ⟨-, split⟩ := List.cons.inj split
      rcases List.append_eq_append_iff.1 split with ⟨bs, -, later⟩ | ⟨bs, inside, later⟩
      · exact ih later
      · cases bs with
        | nil => exact @ih [] later.symm
        | cons d bs =>
          obtain ⟨rfl, -⟩ := List.cons.inj later
          have owes := Call.settlement_of_mem (inside ▸ List.mem_append_right _ List.mem_cons_self)
          exact owes ▸ List.nil_prefix

theorem count_eq (settled : Settled calls) {free : Call}
    (frees : free ∈ [Call.freeCode, .freeAllDevs]) :
    calls.count free = calls.countP (free ∈ ·.settlement) := by
  induction settled with
  | nil => rfl
  | @cons c rest owes _ ih =>
    rw [← List.cons_append, List.count_append, List.countP_append, ih,
      Call.count_settlement owes frees]

end Settled

end RollingCapture.Capture
