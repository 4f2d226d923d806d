import Mathlib.Data.List.Nodup
import RollingCapture.Proofs.Rotation.Refinement

/-! When the files of a run give back what was written to it. A name is good for one second, and a file
that is full within the second that opened it is opened again: what it held is lost, and no error tells
of it. -/
namespace RollingCapture.Rotation

open CaptureFile

/-- Whether a capture file can give a packet back: its times fit into 32 bits, and its bytes are there
and fit into the window of a reader. -/
def Storable (p : Packet) : Prop :=
  (0 ≤ p.header.sec ∧ p.header.sec < 4294967296) ∧ (0 ≤ p.header.usec ∧ p.header.usec < 4294967296) ∧
    Record.IsWhole p ∧ p.header.caplen.toNat ≤ 262127

instance (p : Packet) : Decidable (Storable p) := inferInstanceAs (Decidable (_ ∧ _))

def trimmed (p : Packet) : Packet := { p with data := p.data.take p.header.caplen.toNat }

def readFiles (d : Disk) : List String → Except Error (List Packet)
  | [] => .ok []
  | path :: paths => do
    let r ← Reader.ofPath d path
    let packets ← r.readAll d
    return packets ++ (← readFiles d paths)

variable {s : Splitter} {d₀ d : Disk} {localOffset : Int} {openings reads : List Opening}
  {o x : Opening} {path : String} {paths : List String} {id : Nat} {h h' h'' : Host}
  {r' r'' : Rotator} {packets : List Packet}

theorem stored_eq_trimmed {p : Packet} (storable : Storable p) : Record.stored p = trimmed p := by
  obtain ⟨⟨secNonneg, secSmall⟩, ⟨usecNonneg, usecSmall⟩, -⟩ := storable
  rw [Record.stored, trimmed, Int.emod_eq_of_lt secNonneg secSmall,
    Int.emod_eq_of_lt usecNonneg usecSmall]

namespace Opening

def secs (o : Opening) : List Int := o.packets.map (·.header.sec)

theorem secs_eq_cons (begun : o.Begun) : ∃ more, o.secs = o.sec :: more := by
  obtain ⟨first, more, packets, sec⟩ := begun
  exact ⟨more.map (·.header.sec), by rw [secs, packets, List.map_cons, sec]⟩

theorem sec_mem_secs (begun : o.Begun) : o.sec ∈ o.secs := by
  obtain ⟨more, secs⟩ := secs_eq_cons begun
  rw [secs]
  exact List.mem_cons_self

theorem sec_le_of_mem (begun : o.Begun) (ordered : o.secs.Pairwise (· ≤ ·)) {t : Int}
    (member : t ∈ o.secs) : o.sec ≤ t := by
  obtain ⟨more, secs⟩ := secs_eq_cons begun
  rw [secs] at ordered member
  rcases List.mem_cons.1 member with rfl | later
  · exact Int.le_refl _
  · exact List.rel_of_pairwise_cons ordered later

theorem pairwise_sec (begun : ∀ o ∈ openings, o.Begun)
    (ordered : (openings.flatMap secs).Pairwise (· ≤ ·)) :
    openings.Pairwise (·.sec ≤ ·.sec) := by
  rw [List.pairwise_flatMap] at ordered
  apply ordered.2.imp_of_mem
  intro a b memberA memberB before
  exact before _ (sec_mem_secs (begun _ memberA)) _ (sec_mem_secs (begun _ memberB))

theorem last?_spec (times : openings.Pairwise (·.sec ≤ ·.sec)) (last : last? openings id = some x) :
    x ∈ openings ∧ x.entry = .file id ∧ ∀ o ∈ openings, o.entry = .file id → o.sec ≤ x.sec := by
  obtain ⟨front, split⟩ := List.getLast?_eq_some_iff.1 last
  have sorted : (front ++ [x]).Pairwise (·.sec ≤ ·.sec) := split ▸ times.filter _
  have among {o : Opening} : o ∈ front ++ [x] ↔ o ∈ openings ∧ o.entry = .file id := by
    rw [← split, List.mem_filter, decide_eq_true_eq]
  obtain ⟨inside, here⟩ := among.1 (List.mem_append_right front List.mem_cons_self)
  refine ⟨inside, here, ?_⟩
  intro o member entry_eq
  rcases List.mem_append.1 (among.2 ⟨member, entry_eq⟩) with earlier | mem
  · exact (List.pairwise_append.1 sorted).2.2 o earlier x List.mem_cons_self
  · exact List.mem_singleton.1 mem ▸ Int.le_refl _

theorem exists_last? (member : o ∈ openings) (here : o.entry = .file id) :
    ∃ x, last? openings id = some x := by
  have nonempty : openings.filter (·.entry = .file id) ≠ [] :=
    List.ne_nil_of_mem (List.mem_filter.2 ⟨member, by simpa using here⟩)
  exact ⟨_, List.getLast?_eq_some_getLast nonempty⟩

end Opening

/-- What reading the file at `path` gives is what `x` put into it. -/
def Yields (d : Disk) (openings : List Opening) (path : String) (x : Opening) : Prop :=
  ∃ id, d.openToRead path = .ok (.file id) ∧ Opening.last? openings id = some x

theorem Files.exists_readAll_of_yields (files : Files s d₀ localOffset openings none d)
    (yields : Yields d openings path x) (storable : ∀ p ∈ x.packets, Storable p) :
    ∃ reader, Reader.ofPath d path = .ok reader ∧
      reader.readAll d = .ok (x.packets.map trimmed) := by
  obtain ⟨id, opened, last⟩ := yields
  obtain ⟨reader, opens, gives⟩ :=
    files.exists_readAll opened last fun p member => (storable p member).2.2
  have kept : x.packets.map Record.stored = x.packets.map trimmed := by
    apply List.map_congr_left
    intro p member
    exact stored_eq_trimmed (storable p member)
  exact ⟨reader, opens, by rw [gives, kept]⟩

theorem Files.exists_yields {r : Reader} (files : Files s d₀ localOffset openings none d)
    (keepsAll : s.plan.maxFiles = 0) (member : o ∈ openings)
    (opens : Reader.ofPath d (s.name localOffset o.sec) = .ok r) :
    ∃ x, Yields d openings (s.name localOffset o.sec) x := by
  have named := files.named keepsAll o (by simpa using member)
  rcases here : o.entry with _ | id | kind
  · rw [here] at named
    simp [Reader.ofPath, named] at opens
  · obtain ⟨x, last⟩ := Opening.exists_last? member here
    exact ⟨x, id, here ▸ named, last⟩
  · rw [here] at named
    obtain ⟨e, refused⟩ := Reader.ofPath_of_special named
    rw [refused] at opens
    cases opens

/-- Reading the files gives what the openings that they yield have put in. -/
theorem Files.readFiles_eq_ok_iff {read : List Packet}
    (files : Files s d₀ localOffset openings none d)
    (keepsAll : s.plan.maxFiles = 0) (storable : ∀ o ∈ openings, ∀ p ∈ o.packets, Storable p)
    (times : openings.Pairwise (·.sec ≤ ·.sec))
    (names : ∀ path ∈ paths, ∃ o ∈ openings, s.name localOffset o.sec = path) :
    readFiles d paths = .ok read ↔ ∃ reads, List.Forall₂ (Yields d openings) paths reads ∧
      read = reads.flatMap fun x => x.packets.map trimmed := by
  induction paths generalizing read with
  | nil =>
    simp only [readFiles, Except.ok.injEq, List.forall₂_nil_left_iff, exists_eq_left,
      List.flatMap_nil]
    exact eq_comm
  | cons path paths ih =>
    have others (path) (member : path ∈ paths) := names path (List.mem_cons_of_mem _ member)
    have given {x : Opening} (yields : Yields d openings path x) :=
      files.exists_readAll_of_yields yields (storable x (Opening.last?_spec times yields.choose_spec.2).1)
    constructor
    · intro ran
      obtain ⟨r, opens, rest⟩ := Disk.bind_eq_ok ran
      obtain ⟨first, gives, rest⟩ := Disk.bind_eq_ok rest
      obtain ⟨after, later, joined⟩ := Disk.bind_eq_ok rest
      obtain ⟨o, member, rfl⟩ := names path List.mem_cons_self
      obtain ⟨x, yields⟩ := files.exists_yields keepsAll member opens
      obtain ⟨r', opens', gives'⟩ := given yields
      obtain rfl := Except.ok.inj (opens.symm.trans opens')
      obtain rfl := Except.ok.inj (gives.symm.trans gives')
      obtain ⟨reads, yields', rfl⟩ := (ih others).1 later
      exact ⟨x :: reads, .cons yields yields', (Except.ok.inj joined).symm⟩
    · rintro ⟨reads, pairs, rfl⟩
      obtain ⟨x, reads, yields, yields', rfl⟩ := List.forall₂_cons_left_iff.1 pairs
      obtain ⟨r, opens, gives⟩ := given yields
      rw [readFiles, opens]
      simp only [bind, Except.bind, gives, (ih others).2 ⟨reads, yields', rfl⟩]
      rfl

theorem exists_of_mem_right {α β : Type} {R : α → β → Prop} {as : List α} {bs : List β} {b : β}
    (pairs : List.Forall₂ R as bs) (member : b ∈ bs) : ∃ a ∈ as, R a b := by
  induction pairs with
  | nil => contradiction
  | @cons a c as bs here _ ih =>
    rcases List.mem_cons.1 member with rfl | later
    · exact ⟨a, List.mem_cons_self, here⟩
    · obtain ⟨a', among, rel⟩ := ih later
      exact ⟨a', List.mem_cons_of_mem _ among, rel⟩

/-- What is read at `path` is one of the openings, and none that has this name is later. -/
def Follows (name : Int → String) (openings : List Opening) (path : String) (x : Opening) : Prop :=
  x ∈ openings ∧ ∀ o ∈ openings, name o.sec = path → o.sec ≤ x.sec

section Recovery

variable {name : Int → String} {rest : List Opening}

/-- What is read at other names than the first is later than the second that the first stands for. -/
theorem sec_not_mem_of_follows (begun : ∀ a ∈ o :: rest, a.Begun)
    (ordered : ((o :: rest).flatMap Opening.secs).Pairwise (· ≤ ·))
    (others : List.Forall₂ (Follows name (o :: rest))
      ((rest.map (name ·.sec)).filter (fun path => !path == name o.sec)).eraseDups reads) :
    o.sec ∉ reads.flatMap Opening.secs := by
  intro member
  obtain ⟨y, among, held⟩ := List.mem_flatMap.1 member
  obtain ⟨path, inPaths, inside, notBefore⟩ := exists_of_mem_right others among
  rw [List.mem_eraseDups, List.mem_filter] at inPaths
  obtain ⟨r, inRest, rfl⟩ := List.mem_map.1 inPaths.1
  have other : r.sec ≠ o.sec := by
    intro equal
    simp [equal] at inPaths
  have after : o.sec ≤ r.sec :=
    List.rel_of_pairwise_cons (Opening.pairwise_sec begun ordered) inRest
  have reached : r.sec ≤ y.sec := notBefore r (List.mem_cons_of_mem _ inRest) rfl
  have least := Opening.sec_le_of_mem (begun y inside) ((List.pairwise_flatMap.1 ordered).1 y inside) held
  omega

theorem follows_tail (times : (o :: rest).Pairwise (·.sec ≤ ·.sec))
    (unique : o.sec ∉ rest.map (·.sec))
    (others : List.Forall₂ (Follows name (o :: rest)) (rest.map (name ·.sec)).eraseDups reads) :
    List.Forall₂ (Follows name rest) (rest.map (name ·.sec)).eraseDups reads := by
  refine ((List.forall₂_and_left _ _).2 ⟨fun _ => id, others⟩).imp ?_
  rintro path y ⟨inPaths, inside, notBefore⟩
  have reaches (r) (inRest : r ∈ rest) := notBefore r (List.mem_cons_of_mem _ inRest)
  obtain ⟨r, inRest, found⟩ := List.mem_map.1 (List.mem_eraseDups.1 inPaths)
  refine ⟨(List.mem_cons.1 inside).resolve_left ?_, reaches⟩
  rintro rfl
  have after : y.sec ≤ r.sec := List.rel_of_pairwise_cons times inRest
  have reached := reaches r inRest found
  exact unique (List.mem_map.2 ⟨r, inRest, by omega⟩)

/-- Reading each name once, where names tell seconds apart, gives back all packets only if no second
opened two files and each file holds what was put into it first. -/
theorem nodup_and_eq_of_recovered (begun : ∀ o ∈ openings, o.Begun)
    (ordered : (openings.flatMap Opening.secs).Pairwise (· ≤ ·))
    (telling : ∀ a ∈ openings, ∀ b ∈ openings, name a.sec = name b.sec → a.sec = b.sec)
    (follows : List.Forall₂ (Follows name openings) (openings.map (name ·.sec)).eraseDups reads)
    (secs_eq : reads.flatMap Opening.secs = openings.flatMap Opening.secs) :
    (openings.map (·.sec)).Nodup ∧ reads = openings := by
  induction openings generalizing reads with
  | nil => simpa using follows
  | cons o rest ih =>
    rw [List.map_cons, List.eraseDups_cons] at follows
    obtain ⟨x, others, ⟨inside, -⟩, others', rfl⟩ := List.forall₂_cons_left_iff.1 follows
    have beyond := List.count_eq_zero.2 (sec_not_mem_of_follows begun ordered others')
    have times := Opening.pairwise_sec begun ordered
    rw [List.flatMap_cons] at ordered
    rw [List.flatMap_cons, List.flatMap_cons] at secs_eq
    -- The packets of the first second are counted on both sides.
    have counts := congrArg (List.count o.sec) secs_eq
    rw [List.count_append, List.count_append, beyond] at counts
    have own : 0 < o.secs.count o.sec :=
      List.count_pos_iff.2 (Opening.sec_mem_secs (begun o List.mem_cons_self))
    have first : x = o := by
      rcases List.mem_cons.1 inside with here | there
      · exact here
      · have within : x.secs.Sublist (rest.flatMap Opening.secs) :=
          List.sublist_flatten_of_mem (List.mem_map_of_mem there)
        have := within.count_le o.sec
        omega
    subst first
    have unique : x.sec ∉ rest.map (·.sec) := by
      intro member
      obtain ⟨r, inRest, equal⟩ := List.mem_map.1 member
      have zero : (rest.flatMap Opening.secs).count x.sec = 0 := by omega
      apply List.count_eq_zero.1 zero
      apply List.mem_flatMap.2 ⟨r, inRest, ?_⟩
      exact equal ▸ Opening.sec_mem_secs (begun r (List.mem_cons_of_mem _ inRest))
    have clean : (rest.map (name ·.sec)).filter (fun path => !path == name x.sec) =
        rest.map (name ·.sec) := by
      rw [List.filter_eq_self]
      intro path member
      obtain ⟨r, inRest, rfl⟩ := List.mem_map.1 member
      have differs : name r.sec ≠ name x.sec := by
        intro equal
        apply unique
        exact List.mem_map.2 ⟨r, inRest,
          telling r (List.mem_cons_of_mem _ inRest) x List.mem_cons_self equal⟩
      simpa using differs
    rw [clean] at others'
    obtain ⟨nodup, rfl⟩ := ih (fun r inRest => begun r (List.mem_cons_of_mem _ inRest))
      (List.pairwise_append.1 ordered).2.1
      (fun a inA b inB => telling a (List.mem_cons_of_mem _ inA) b (List.mem_cons_of_mem _ inB))
      (follows_tail times unique others') (List.append_cancel_left secs_eq)
    exact ⟨List.nodup_cons.2 ⟨unique, nodup⟩, rfl⟩

end Recovery

theorem eraseDups_of_nodup {names : List String} (nodup : names.Nodup) : names.eraseDups = names := by
  induction names with
  | nil => rfl
  | cons name names ih =>
    obtain ⟨new, nodup⟩ := List.nodup_cons.1 nodup
    have clean : names.filter (fun other => !other == name) = names := by
      rw [List.filter_eq_self]
      intro other member
      have differs : other ≠ name := fun equal => new (equal ▸ member)
      simpa using differs
    rw [List.eraseDups_cons, clean, ih nodup]

/-- All packets are read from the files just where each second opened one file, and where that is a
regular file that no other second opened. -/
theorem Files.readFiles_eq_all_iff (files : Files s d₀ localOffset openings none d)
    (keepsAll : s.plan.maxFiles = 0) (begun : ∀ o ∈ openings, o.Begun)
    (ordered : (openings.flatMap Opening.secs).Pairwise (· ≤ ·))
    (storable : ∀ o ∈ openings, ∀ p ∈ o.packets, Storable p)
    (telling : ∀ a ∈ openings, ∀ b ∈ openings,
      s.name localOffset a.sec = s.name localOffset b.sec → a.sec = b.sec) :
    readFiles d (openings.map (s.name localOffset ·.sec)).eraseDups =
        .ok ((openings.flatMap (·.packets)).map trimmed) ↔
      (∀ o ∈ openings, ∃ id, o.entry = .file id) ∧
      (∀ a ∈ openings, ∀ b ∈ openings, ∀ id, a.entry = .file id → b.entry = .file id →
        a.sec = b.sec) ∧
      (openings.map (·.sec)).Nodup := by
  have times := Opening.pairwise_sec begun ordered
  have named (o) (member : o ∈ openings) : d.openToRead (s.name localOffset o.sec) = .ok o.entry :=
    files.named keepsAll o (by simpa using member)
  have distinct (nodup : (openings.map (·.sec)).Nodup) :
      (openings.map (s.name localOffset ·.sec)).eraseDups =
        openings.map (s.name localOffset ·.sec) := by
    have apart := List.inj_on_of_nodup_map nodup
    apply eraseDups_of_nodup
    apply (nodup.of_map _).map_on
    intro a inA b inB name_eq
    exact apart inA inB (telling a inA b inB name_eq)
  have names : ∀ path ∈ (openings.map (s.name localOffset ·.sec)).eraseDups,
      ∃ o ∈ openings, s.name localOffset o.sec = path := by
    intro path member
    simpa using member
  rw [files.readFiles_eq_ok_iff keepsAll storable times names]
  constructor
  · rintro ⟨reads, pairs, equal⟩
    have follows : List.Forall₂ (Follows (s.name localOffset) openings)
        (openings.map (s.name localOffset ·.sec)).eraseDups reads := by
      apply pairs.imp
      rintro path x ⟨id, opened, last⟩
      obtain ⟨inside, -, latest⟩ := Opening.last?_spec times last
      refine ⟨inside, ?_⟩
      intro o member found
      apply latest o member
      exact Except.ok.inj ((named o member).symm.trans (found ▸ opened))
    have secs_eq : reads.flatMap Opening.secs = openings.flatMap Opening.secs := by
      have seconds := congrArg (List.map (·.header.sec)) equal
      simp only [List.map_flatMap, List.map_map] at seconds
      exact seconds.symm
    obtain ⟨nodup, rfl⟩ := nodup_and_eq_of_recovered begun ordered telling follows secs_eq
    rw [distinct nodup, List.forall₂_map_left_iff, List.forall₂_same] at pairs
    have held (o) (member : o ∈ reads) {id : Nat} (here : o.entry = .file id) :
        Opening.last? reads id = some o := by
      obtain ⟨id', opened, last⟩ := pairs o member
      have there : o.entry = .file id' := Except.ok.inj ((named o member).symm.trans opened)
      rw [← Entry.file.inj (there.symm.trans here), last]
    refine ⟨?_, ?_, nodup⟩
    · intro o member
      obtain ⟨id, opened, -⟩ := pairs o member
      exact ⟨id, Except.ok.inj ((named o member).symm.trans opened)⟩
    · intro a inA b inB id hereA hereB
      rw [Option.some.inj ((held a inA hereA).symm.trans (held b inB hereB))]
  · rintro ⟨regular, apart, nodup⟩
    refine ⟨openings, ?_, List.map_flatMap⟩
    rw [distinct nodup, List.forall₂_map_left_iff, List.forall₂_same]
    intro o member
    obtain ⟨id, here⟩ := regular o member
    obtain ⟨x, last⟩ := Opening.exists_last? member here
    obtain ⟨inside, there, -⟩ := Opening.last?_spec times last
    have o_eq := List.inj_on_of_nodup_map nodup member inside (apart o member x inside id here there)
    exact ⟨id, here ▸ named o member, o_eq ▸ last⟩

theorem mem_eraseDups_map {name : Int → String} :
    path ∈ (openings.map (name ·.sec)).eraseDups ↔ ∃ o ∈ openings, name o.sec = path := by
  rw [List.mem_eraseDups, List.mem_map]

namespace Files

theorem leads_iff (files : Files s d₀ localOffset openings none d) (keepsAll : s.plan.maxFiles = 0)
    (member : o ∈ openings) :
    d.openToRead (s.name localOffset o.sec) = .ok (.file id) ↔ o.entry = .file id := by
  rw [files.named keepsAll o (by simpa using member), Except.ok.injEq]

theorem regular_iff (files : Files s d₀ localOffset openings none d)
    (keepsAll : s.plan.maxFiles = 0) :
    (∀ path ∈ (openings.map (s.name localOffset ·.sec)).eraseDups,
        ∃ id, d.openToRead path = .ok (.file id)) ↔ ∀ o ∈ openings, ∃ id, o.entry = .file id := by
  constructor
  · intro regular o member
    obtain ⟨id, found⟩ := regular _ (mem_eraseDups_map.2 ⟨o, member, rfl⟩)
    exact ⟨id, (files.leads_iff keepsAll member).1 found⟩
  · intro regular path member
    obtain ⟨o, inside, rfl⟩ := mem_eraseDups_map.1 member
    obtain ⟨id, here⟩ := regular o inside
    exact ⟨id, (files.leads_iff keepsAll inside).2 here⟩

theorem apart_iff (files : Files s d₀ localOffset openings none d) (keepsAll : s.plan.maxFiles = 0)
    (telling : ∀ a ∈ openings, ∀ b ∈ openings,
      s.name localOffset a.sec = s.name localOffset b.sec → a.sec = b.sec) :
    (∀ a ∈ (openings.map (s.name localOffset ·.sec)).eraseDups,
        ∀ b ∈ (openings.map (s.name localOffset ·.sec)).eraseDups, ∀ id,
        d.openToRead a = .ok (.file id) → d.openToRead b = .ok (.file id) → a = b) ↔
      ∀ a ∈ openings, ∀ b ∈ openings, ∀ id, a.entry = .file id → b.entry = .file id →
        a.sec = b.sec := by
  constructor
  · intro apart a inA b inB id hereA hereB
    exact telling a inA b inB (apart _ (mem_eraseDups_map.2 ⟨a, inA, rfl⟩) _
      (mem_eraseDups_map.2 ⟨b, inB, rfl⟩) id ((files.leads_iff keepsAll inA).2 hereA)
      ((files.leads_iff keepsAll inB).2 hereB))
  · intro apart pathA inA pathB inB id foundA foundB
    obtain ⟨a, insideA, rfl⟩ := mem_eraseDups_map.1 inA
    obtain ⟨b, insideB, rfl⟩ := mem_eraseDups_map.1 inB
    rw [apart a insideA b insideB id ((files.leads_iff keepsAll insideA).1 foundA)
      ((files.leads_iff keepsAll insideB).1 foundB)]

end Files

/-- Packets in the order of time, written without an error under names that tell all fields of it, are
read back just where no two segments begin in the same second, as long as the names lead to regular
files, and to one each. The latter holds of every pattern that does not climb. -/
theorem packets_read_back_iff_seconds_distinct {plan : Plan} {linkType : LinkType}
    {snaplen : UInt32} (keepsAll : plan.maxFiles = 0)
    (fields : FilePattern.HasAllFields plan.pattern)
    (ordered : packets.Pairwise (·.header.sec ≤ ·.header.sec))
    (storable : ∀ p ∈ packets, Storable p)
    (ran : (Rotator.new plan linkType snaplen h).1.writeAll
      (Rotator.new plan linkType snaplen h).2 packets = (.ok (), r', h'))
    (closed : r'.close h' = (.ok (), r'', h'')) :
    let segments := Splitter.segments ⟨plan, linkType, snaplen⟩ packets
    let paths := ((Rotator.new plan linkType snaplen h).1.opened
      (Rotator.new plan linkType snaplen h).2 packets).eraseDups
    let leads (path : String) (id : Nat) : Prop := h''.disk.openToRead path = .ok (.file id)
    let apart : Prop := ∀ a ∈ paths, ∀ b ∈ paths, ∀ id, leads a id → leads b id → a = b
    (readFiles h''.disk paths = .ok (packets.map trimmed) ↔
      (∀ path ∈ paths, ∃ id, leads path id) ∧ apart ∧
        (segments.map (·.head?.map (·.header.sec))).Nodup) ∧
      (¬ FilePattern.Climbs plan.pattern → apart) := by
  intro segments paths leads apart
  obtain ⟨openings, describes, begun, names, cut⟩ :=
    exists_openings (Describes.new plan linkType snaplen h) ran closed
  let s : Splitter := ⟨plan, linkType, snaplen⟩
  have files : Files s h.disk h.localOffset openings none h''.disk := describes.files
  have cut : openings.map (·.packets) = segments := cut
  have packets_eq : openings.flatMap (·.packets) = packets := by
    rw [List.flatMap_def, cut]
    exact Splitter.flatten_segments packets
  have storable (o) (member : o ∈ openings) (p) (inside : p ∈ o.packets) : Storable p :=
    storable p (packets_eq ▸ List.mem_flatMap.2 ⟨o, member, inside⟩)
  have ordered : (openings.flatMap Opening.secs).Pairwise (· ≤ ·) := by
    have times : openings.flatMap Opening.secs = packets.map (·.header.sec) := by
      rw [← packets_eq, List.map_flatMap]
      rfl
    rw [times, List.pairwise_map]
    exact ordered
  have range (o) (member : o ∈ openings) :
      CivilTime.earliest ≤ o.sec ∧ o.sec ≤ CivilTime.latest := by
    obtain ⟨first, more, split, sec⟩ := begun o member
    have bounds := (storable o member first (split ▸ List.mem_cons_self)).1
    rw [sec] at bounds
    simp only [CivilTime.earliest, CivilTime.latest]
    omega
  have telling (a) (inA : a ∈ openings) (b) (inB : b ∈ openings)
      (name_eq : s.name h.localOffset a.sec = s.name h.localOffset b.sec) : a.sec = b.sec :=
    FilePattern.expand_injective fields ⟨(range a inA).1, (range b inB).1⟩
      ⟨(range a inA).2, (range b inB).2⟩ name_eq
  have seconds : segments.map (·.head?.map (·.header.sec)) = (openings.map (·.sec)).map some := by
    rw [← cut, List.map_map, List.map_map]
    apply List.map_congr_left
    intro o member
    obtain ⟨first, more, split, sec⟩ := begun o member
    simp [split, sec]
  have paths_eq : paths = (openings.map (s.name h.localOffset ·.sec)).eraseDups :=
    congrArg List.eraseDups names.symm
  constructor
  · have whole := files.readFiles_eq_all_iff keepsAll begun ordered storable telling
    rwa [← files.regular_iff keepsAll, ← files.apart_iff keepsAll telling, ← paths_eq, packets_eq,
      ← List.nodup_map_iff (fun _ _ => Option.some.inj), ← seconds] at whole
  · intro level a inA b inB id foundA foundB
    obtain ⟨oA, -, rfl⟩ := mem_eraseDups_map.1 (paths_eq ▸ inA)
    obtain ⟨oB, -, rfl⟩ := mem_eraseDups_map.1 (paths_eq ▸ inB)
    exact name_eq_of_openToRead level foundA foundB

/-- Two packets of one second, each of which fills a file: the first is lost. -/
theorem packet_of_shared_second_lost :
    let plan : Plan := { pattern := "%Y%m%d-%H%M%S.pcap", calendar := .utc, maxBytes := 10 }
    let p : Packet := ⟨⟨0, 0, 1, 1⟩, [1]⟩
    let q : Packet := ⟨⟨0, 1, 1, 1⟩, [2]⟩
    let started := Rotator.new plan .ethernet 65535 { disk := .fresh }
    plan.maxFiles = 0 ∧ FilePattern.HasAllFields plan.pattern ∧ Storable p ∧ Storable q ∧
      ∃ r' h' r'' h'', started.1.writeAll started.2 [p, q] = (.ok (), r', h') ∧
        r'.close h' = (.ok (), r'', h'') ∧
        readFiles h''.disk (started.1.opened started.2 [p, q]).eraseDups ≠
          .ok ([p, q].map trimmed) := by
  intro plan p q started
  have fields : FilePattern.HasAllFields plan.pattern := by decide
  have storable : ∀ x ∈ [p, q], Storable x := by decide
  have cut : Splitter.segments ⟨plan, .ethernet, 65535⟩ [p, q] = [[p], [q]] := by decide +kernel
  obtain ⟨r', h', r'', h'', ran, closed, -⟩ := Rotator.exists_of_leaves
    (show started.1.leaves started.2 [p, q] (fun _ => true) = true by decide +kernel)
  refine ⟨rfl, fields, storable p (by simp), storable q (by simp), r', h', r'', h'', ran, closed, ?_⟩
  intro read
  obtain ⟨recovered, -⟩ :=
    packets_read_back_iff_seconds_distinct rfl fields (by simp [p, q]) storable ran closed
  obtain ⟨-, -, distinct⟩ := recovered.1 read
  rw [cut] at distinct
  exact absurd distinct (by decide)

end RollingCapture.Rotation
