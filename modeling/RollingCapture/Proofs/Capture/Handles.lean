import RollingCapture.Capture.Interface
import RollingCapture.Proofs.Capture.Calls

/-! What the operations of live capture make of the library's account. Opening a capture leaves one
handle more or, where it fails, all as it was; everything else uses what is open and settles what it
owes. The library may lack any operation but closing, and answer as it likes. -/
namespace RollingCapture.Capture

variable {h : Handle} {c : Call} {calls : List Call} {l l' l'' : Library} {held : List Handle}

namespace Library

def stage (l : Library) (h : Handle) : Stage :=
  if l.handles ≤ h.id then .unknown else if h ∈ l.held then .opened else .closed

/-- A library that can close handles, and whose calls agree with what is open. -/
structure Sound (l : Library) : Prop where
  closes : l.has .close = true
  lives : ∀ h, Lives h l.calls.toList (l.stage h)
  known : ∀ h ∈ l.held, h.id < l.handles
  nodup : l.held.Nodup
  settled : Settled l.calls.toList

/-- `l'` has come from `l` by calls that use what is open and settle what they owe. -/
structure Uses (l l' : Library) : Prop where
  has : l'.has = l.has
  handles : l'.handles = l.handles
  held : l'.held = l.held
  calls : ∃ calls, l'.calls.toList = l.calls.toList ++ calls ∧ Settled calls ∧
    ∀ c ∈ calls, c.IsUse l.held

namespace Uses

theorem refl (l : Library) : l.Uses l :=
  ⟨rfl, rfl, rfl, [], by simp, .nil, by simp⟩

theorem trans (first : l.Uses l') (second : l'.Uses l'') : l.Uses l'' := by
  obtain ⟨calls, added, settled, uses⟩ := first.calls
  obtain ⟨more, added', settled', uses'⟩ := second.calls
  refine ⟨second.has.trans first.has, second.handles.trans first.handles,
    second.held.trans first.held, calls ++ more, ?_, settled.append settled', ?_⟩
  · rw [added', added, List.append_assoc]
  · intro c member
    rcases List.mem_append.1 member with earlier | later
    · exact uses c earlier
    · exact first.held ▸ uses' c later

end Uses

theorem foldl_called (l : Library) (calls : List Call) :
    calls.foldl called l = { l with calls := l.calls ++ calls.toArray } := by
  induction calls generalizing l with
  | nil => simp
  | cons c calls ih => simp [ih, called]

theorem uses_foldl (calls : List Call) (settled : Settled calls)
    (uses : ∀ c ∈ calls, c.IsUse l.held) : l.Uses (calls.foldl called l) := by
  rw [foldl_called]
  exact ⟨rfl, rfl, rfl, calls, by simp, settled, uses⟩

theorem uses_called (owes : c.settlement = []) (frees : c ∉ [Call.freeCode, .freeAllDevs])
    (use : c.IsUse l.held) : l.Uses (l.called c) :=
  uses_foldl [c] (.single owes frees) (by simpa using use)

theorem Sound.stage_of_mem (sound : l.Sound) (member : h ∈ l.held) : l.stage h = .opened := by
  rw [stage, if_neg (Nat.not_le.2 (sound.known h member)), if_pos member]

theorem Uses.sound (uses : l.Uses l') (sound : l.Sound) : l'.Sound := by
  obtain ⟨calls, added, settled, use⟩ := uses.calls
  refine ⟨uses.has ▸ sound.closes, ?_, ?_, uses.held ▸ sound.nodup, ?_⟩
  · intro h
    have stage_eq : l'.stage h = l.stage h := by simp only [stage, uses.handles, uses.held]
    rw [stage_eq, added]
    exact (sound.lives h).uses sound.stage_of_mem use
  · rw [uses.held, uses.handles]
    exact sound.known
  · rw [added]
    exact sound.settled.append settled

theorem uses_takeRead (l : Library) : l.Uses l.takeRead.2 := by
  unfold takeRead
  split <;> exact ⟨rfl, rfl, rfl, [], by simp, .nil, by simp⟩

theorem uses_takeStats (l : Library) : l.Uses l.takeStats.2 := by
  unfold takeStats
  split <;> exact ⟨rfl, rfl, rfl, [], by simp, .nil, by simp⟩

theorem uses_lastError (member : h ∈ l.held) : l.Uses (l.lastError h).2 := by
  unfold lastError
  split
  · exact uses_called rfl (by simp) (.of_mem member rfl rfl (by simp))
  · exact .refl l

theorem uses_listDevices (l : Library) : l.Uses l.listDevices.2 := by
  unfold listDevices
  split
  · exact .refl l
  · dsimp only
    split
    · by_cases found : (!l.behaviour.listing.devices.isEmpty) = true
      · rw [if_pos found, found]
        exact uses_foldl [.findAllDevs true, .freeAllDevs]
          (.cons (c := .findAllDevs true) (by simp) .nil)
          (by simp [Call.IsUse, Call.returned?, Call.handle?])
      · rw [if_neg found, Bool.eq_false_iff.2 found]
        exact uses_called rfl (by simp) (.of_handle_eq_none rfl rfl)
    · exact uses_called rfl (by simp) (.of_handle_eq_none rfl rfl)

theorem uses_linkName (l : Library) (t : LinkType) : l.Uses (l.linkName t).2 := by
  unfold linkName
  split
  · exact .refl l
  · exact uses_called rfl (by simp) (.of_handle_eq_none rfl rfl)

theorem uses_linkDescription (l : Library) (t : LinkType) : l.Uses (l.linkDescription t).2 := by
  unfold linkDescription
  split
  · exact .refl l
  · exact uses_called rfl (by simp) (.of_handle_eq_none rfl rfl)

theorem uses_version (l : Library) : l.Uses l.version.2 := by
  unfold version
  split
  · exact .refl l
  · exact uses_called rfl (by simp) (.of_handle_eq_none rfl rfl)

theorem uses_nextPacket (member : h ∈ l.held) : l.Uses (l.nextPacket h).2 := by
  unfold nextPacket
  split
  · exact .refl l
  · have asked : l.Uses (l.called (.nextPacket h)) :=
      uses_called rfl (by simp) (.of_mem member rfl rfl (by simp))
    have taken := asked.trans (uses_takeRead _)
    split
    · rename_i read
      rw [read] at taken
      exact taken
    · rename_i read
      rw [read] at taken
      split
      · exact taken
      · split
        · exact taken
        · exact taken.trans (uses_lastError (taken.held ▸ member))

theorem uses_failWith (member : h ∈ l.held) : l.Uses (l.failWith h).2 :=
  uses_lastError member

theorem uses_installFilter (member : h ∈ l.held) (program : String) (optimize : Bool) :
    l.Uses (l.installFilter h program optimize).2 := by
  unfold installFilter
  split
  · exact .refl l
  · dsimp only
    split
    · exact .refl l
    · by_cases done : l.behaviour.compile ≠ -1
      · have installed : l.Uses ([Call.compile h program optimize true, .setFilter h, .freeCode].foldl
            called l) :=
          uses_foldl _ (.cons (c := .compile h program optimize true) (by simp) .nil)
            (by simp [Call.IsUse, Call.returned?, Call.handle?, member])
        rw [if_pos done, decide_eq_true done]
        split
        · exact installed.trans (uses_failWith (installed.held ▸ member))
        · exact installed
      · have refused : l.Uses (l.called (.compile h program optimize false)) :=
          uses_called rfl (by simp) (.of_mem member rfl rfl (by simp))
        rw [if_neg done, decide_eq_false done]
        exact refused.trans (uses_failWith (refused.held ▸ member))

/-- A handle that is closed is not passed to the library again. -/
theorem uses_statistics (l : Library) (h : Handle) : l.Uses (l.statistics h).2 := by
  unfold statistics
  split
  · rename_i held
    have member : h ∈ l.held := by simpa using held
    split
    · exact .refl l
    · have asked : l.Uses (l.called (.stats h)) :=
        uses_called rfl (by simp) (.of_mem member rfl rfl (by simp))
      have taken := asked.trans (uses_takeStats _)
      split
      · rename_i stats
        rw [stats] at taken
        exact taken
      · rename_i stats
        rw [stats] at taken
        exact taken.trans (uses_failWith (taken.held ▸ member))
  · exact .refl l

namespace Sound

theorem accounts (sound : l.Sound) : Accounts l.calls.toList l.held where
  handles h handed := by
    have lives := sound.lives h
    cases reached : l.stage h with
    | unknown => exact absurd handed (reached ▸ lives).not_handedOut
    | opened =>
      have member : h ∈ l.held := by
        by_contra notMem
        unfold stage at reached
        split at reached
        · cases reached
        · cases reached
      exact .inl ⟨List.count_eq_one_of_mem sound.nodup member,
        lives.close_notMem (by simp [reached])⟩
    | closed =>
      have notMem : h ∉ l.held := fun member => by simp [sound.stage_of_mem member] at reached
      exact .inr ⟨notMem, (reached ▸ lives).closedOnce⟩
  settled _ _ _ split := sound.settled.settlement_prefix split
  frees _ frees := sound.settled.count_eq frees

theorem handed (sound : l.Sound) (returned : c.returned? = some l.hand.1)
    (passed : c.handle? = none) (settled : Settled [c]) : (l.hand.2.called c).Sound := by
  have new : ∀ h ∈ l.held, h ≠ l.hand.1 := by
    rintro h member rfl
    exact absurd (sound.known _ member) (Nat.lt_irrefl _)
  refine ⟨sound.closes, ?_, ?_, ?_, ?_⟩
  · intro h
    rw [called, Array.toList_push]
    by_cases h_eq : h = l.hand.1
    · subst h_eq
      have unknown : l.stage l.hand.1 = .unknown := if_pos (Nat.le_refl _)
      have opened : (l.hand.2.called c).stage l.hand.1 = .opened := by
        simp [stage, called, hand]
      exact opened ▸ (unknown ▸ sound.lives l.hand.1).opening returned passed
    · have other : h ≠ ⟨l.handles⟩ := h_eq
      have bound : l.handles + 1 ≤ h.id ↔ l.handles ≤ h.id := by
        have id : h.id ≠ l.handles := fun id => other (congrArg Handle.mk id)
        omega
      have stays : (l.hand.2.called c).stage h = l.stage h := by
        simp only [stage, called, hand, bound, List.mem_cons, other, false_or]
      refine stays ▸ (sound.lives h).other ?_ (by simp [passed])
      rw [returned]
      exact fun handed => h_eq (Option.some.inj handed).symm
  · intro h member
    rcases List.mem_cons.1 member with rfl | member
    · exact Nat.lt_succ_self _
    · exact Nat.lt_succ_of_lt (sound.known h member)
  · exact List.nodup_cons.2 ⟨fun member => new _ member rfl, sound.nodup⟩
  · rw [called, Array.toList_push]
    exact sound.settled.append settled

end Sound

theorem release_eq (closes : l.has .close = true) (h : Handle) :
    l.release h = { l with held := l.held.filter (· ≠ h) }.called (.close h) :=
  if_pos closes

theorem Sound.release (sound : l.Sound) (member : h ∈ l.held) : (l.release h).Sound := by
  rw [release_eq sound.closes]
  refine ⟨sound.closes, ?_, ?_, sound.nodup.filter _, ?_⟩
  · intro h'
    rw [called, Array.toList_push]
    have known := sound.known h member
    by_cases h_eq : h' = h
    · subst h_eq
      have closed : ({ l with held := l.held.filter (· ≠ h') }.called (.close h')).stage h'
          = .closed := by
        simp [stage, called, Nat.not_le.2 known]
      exact closed ▸ (sound.stage_of_mem member ▸ sound.lives h').closing
    · have stays : ({ l with held := l.held.filter (· ≠ h) }.called (.close h)).stage h'
          = l.stage h' := by
        simp [stage, called, h_eq]
      exact stays ▸ (sound.lives h').other (by simp [Call.returned?])
        (by simpa [Call.handle?] using Ne.symm h_eq)
  · intro h' kept
    exact sound.known h' (List.mem_of_mem_filter kept)
  · rw [called, Array.toList_push]
    exact sound.settled.append (.single rfl (by simp))

theorem held_release (sound : l.Sound) (opened : l.held = h :: held) : (l.release h).held = held := by
  have nodup := sound.nodup
  rw [opened, List.nodup_cons] at nodup
  have others : held.filter (· ≠ h) = held := by
    refine List.filter_eq_self.2 fun h' member => decide_eq_true ?_
    rintro rfl
    exact nodup.1 member
  rw [release_eq sound.closes, called, opened, List.filter_cons_of_neg (by simp), others]

/-- What opening comes to: what is held stays as it was, or there is one handle more. -/
inductive Opens (handle : α → Handle) (l : Library) : Except Error α × Library → Prop
  | failed {l' : Library} {e : Error} : l'.Sound → l'.held = l.held → Opens handle l (.error e, l')
  | opened {l' : Library} {a : α} : l'.Sound → l'.held = handle a :: l.held →
      Opens handle l (.ok a, l')

theorem Opens.of_release {handle : α → Handle} {e : Error} (sound : l'.Sound)
    (opened : l'.held = h :: l.held) : Opens handle l (.error e, l'.release h) := by
  have member : h ∈ l'.held := by
    rw [opened]
    exact List.mem_cons_self
  exact .failed (sound.release member) (held_release sound opened)

theorem opens_openDirectly (sound : l.Sound) (r : Request) : l.Opens id (l.openDirectly r) := by
  unfold openDirectly
  split
  · exact .failed sound rfl
  · dsimp only
    split
    · have refused : l.Uses
          (l.called (.openLive r.device.name r.snaplen r.promisc r.timeoutMs none)) :=
        uses_called rfl (by simp) (.of_handle_eq_none rfl rfl)
      exact .failed (refused.sound sound) refused.held
    · exact .opened (sound.handed rfl rfl (.single rfl (by simp))) rfl

/-- A capture that cannot be activated is given up again. -/
theorem opens_openStepwise (sound : l.Sound) (r : Request) : l.Opens id (l.openStepwise r) := by
  unfold openStepwise
  split
  · exact .failed sound rfl
  · dsimp only
    split
    · have refused : l.Uses (l.called (.create r.device.name none)) :=
        uses_called rfl (by simp) (.of_handle_eq_none rfl rfl)
      exact .failed (refused.sound sound) refused.held
    · have created : (l.hand.2.called (.create r.device.name (some l.hand.1))).Sound :=
        sound.handed rfl rfl (.single rfl (by simp))
      have prepared : (l.hand.2.called (.create r.device.name (some l.hand.1))).Uses
          ([Call.setSnaplen l.hand.1 r.snaplen, .setPromisc l.hand.1 r.promisc,
            .setTimeout l.hand.1 r.timeoutMs, .setRfmon l.hand.1 true, .activate l.hand.1].foldl called
              (l.hand.2.called (.create r.device.name (some l.hand.1)))) :=
        uses_foldl _ (.of_forall (by simp [Call.settlement]))
          (by simp [Call.IsUse, Call.returned?, Call.handle?, called, hand])
      rw [List.foldl_cons]
      split
      · have asked := prepared.trans (uses_lastError (h := l.hand.1)
          (prepared.held ▸ List.mem_cons_self))
        exact .of_release (asked.sound created) asked.held
      · exact .opened (prepared.sound created) prepared.held

/-- A session whose link type cannot be asked for is given up again. -/
theorem opens_openLive (sound : l.Sound) (r : Request) :
    l.Opens InterfaceSession.handle (l.openLive r) := by
  unfold openLive
  split
  · exact .failed sound rfl
  · have opens : l.Opens id (if r.monitor then l.openStepwise r else l.openDirectly r) := by
      split
      · exact opens_openStepwise sound r
      · exact opens_openDirectly sound r
    revert opens
    generalize (if r.monitor then l.openStepwise r else l.openDirectly r) = outcome
    intro opens
    cases opens with
    | failed sound held_eq => exact .failed sound held_eq
    | @opened l' h sound more =>
      have member : h ∈ l'.held := by
        rw [more]
        exact List.mem_cons_self
      dsimp only
      split
      · exact .of_release sound more
      · have asked : l'.Uses (l'.called (.datalink h)) :=
          uses_called rfl (by simp) (.of_mem member rfl rfl (by simp))
        exact .opened (asked.sound sound) (asked.held.trans more)

end Library

end RollingCapture.Capture
