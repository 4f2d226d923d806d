import RollingCapture.Proofs.Replay.Concatenation
import RollingCapture.Proofs.Run.Pulling

/-! The snapshot length of a replay is that of its first file, for good. A later file with a larger one
brings longer packets, and they go into files whose header promises shorter ones. Packets within the
snapshot length of their session leave files that keep their promise. -/
namespace RollingCapture

open CaptureFile

/-- However often the file is read, no packet has more than `limit` bytes. -/
def CaptureFile.Reader.Within (d : Disk) (limit : UInt32) (r : Reader) : Prop :=
  ∀ n p, .ok (some p) ∈ r.answers d n → p.header.caplen ≤ limit

theorem CaptureFile.Reader.within_of_frames {d : Disk} {limit : UInt32} {r : Reader} {packets : List Packet}
    (frames : r.frames d = (packets, none)) (short : ∀ p ∈ packets, p.header.caplen ≤ limit) :
    r.Within d limit := by
  intro n p member
  have steady : r.Steady d := .inr (by rw [frames])
  have inside := steady.mem_frames member
  rw [frames] at inside
  exact short p inside

/-- A file that was opened for writing is read back under its last opening: with the snapshot length of
the session, and with no packets but those that were put in. -/
theorem Rotation.Files.exists_reader {s : Rotation.Splitter} {d₀ d : Disk} {localOffset : Int}
    {openings : List Rotation.Opening} {o : Rotation.Opening} {path : String} {id : Nat}
    (files : Rotation.Files s d₀ localOffset openings none d)
    (opened : d.openToRead path = .ok (.file id)) (last : Rotation.Opening.last? openings id = some o)
    (whole : ∀ p ∈ o.packets, Record.IsWhole p) :
    ∃ reader, Reader.ofPath d path = .ok reader ∧ reader.snaplen = s.snaplen ∧
      ∀ n p, .ok (some p) ∈ reader.answers d n → ∃ q ∈ o.packets, p = Record.stored q := by
  have settled := files.settled id (by simp)
  rw [Rotation.Settled, last] at settled
  obtain ⟨reader, opens, -, -, header, -⟩ := Reader.ofPath_of_stores opened settled
  obtain ⟨missing, feeds, -, -⟩ := Reader.feeds_of_ofPath opened settled (List.append_nil _) opens
  refine ⟨reader, opens, by rw [Reader.snaplen, header], fun n p member => ?_⟩
  have front := Reader.answers_prefix (by rw [header]) feeds whole n
  have given : p ∈ (reader.answers d n).filterMap Reader.packet? :=
    List.mem_filterMap.2 ⟨_, member, rfl⟩
  obtain ⟨q, inside, stored_eq⟩ := List.mem_map.1 (front.subset given)
  exact ⟨q, inside, stored_eq.symm⟩

namespace Capture.Replay

variable {h h' : Host} {paths : List String} {r : Replay}

/-- Of files whose packets keep to the snapshot length of their own file, a replay gives packets that do
too. The session has the snapshot length of the first file throughout, and its packets keep to that if no
file with its link type has a larger one. Whatever the session, a run whose packets keep to the snapshot
length of the session leaves files whose packets keep to the one in their header. -/
theorem replay_within_file_snaplens (opened : ofPaths h paths = (.ok r, h'))
    (within : ∀ path ∈ paths, ∀ file, Reader.ofPath h.disk path = .ok file →
      file.linkType = r.linkType → file.Within h.disk file.snaplen) :
    (∃ path first, paths.head? = some path ∧ Reader.ofPath h.disk path = .ok first ∧
      ∀ n, (r.after h' n).1.snaplen = first.snaplen) ∧
    (∀ n p, r.answer h' n = .ok p →
      ∃ file, (r.after h' (n + 1)).1.name ∈ paths ∧
        Reader.ofPath h.disk (r.after h' (n + 1)).1.name = .ok file ∧ file.linkType = r.linkType ∧
        p.header.caplen ≤ file.snaplen) ∧
    ((∀ path ∈ paths, ∀ file, Reader.ofPath h.disk path = .ok file → file.linkType = r.linkType →
      file.snaplen ≤ r.snaplen) → ∀ n p, r.answer h' n = .ok p → p.header.caplen ≤ r.snaplen) ∧
    ∀ (c : Config) (s : Session) (w : World) answer s' w', Run.dump c s w = (answer, s', w') →
      (∀ p ∈ Run.pulls c s w, p.header.caplen ≤ s.snaplen) →
      ∃ openings, openings.flatMap (·.packets) <+: Run.pulls c s w ∧
        (∀ id, Rotation.Settled ⟨c.plan, s.linkType, s.snaplen⟩ w.disk openings w'.disk id) ∧
        ∀ path id o, w'.disk.openToRead path = .ok (.file id) →
          Rotation.Opening.last? openings id = some o →
          ∃ file, Reader.ofPath w'.disk path = .ok file ∧ file.snaplen = s.snaplen ∧
            file.Within w'.disk file.snaplen := by
  obtain ⟨path, pending, first, rfl, opens, rfl, disk⟩ := exists_begun opened
  have stands : (begun path pending first).Stands h'.disk (path :: pending) :=
    disk ▸ stands_begun opens pending
  have gives (n : Nat) (p : Packet) (given : (begun path pending first).answer h' n = .ok p) :
      ∃ file, ((begun path pending first).after h' (n + 1)).1.name ∈ path :: pending ∧
        Reader.ofPath h.disk ((begun path pending first).after h' (n + 1)).1.name = .ok file ∧
        file.linkType = first.linkType ∧ p.header.caplen ≤ file.snaplen := by
    obtain ⟨file, k, opens', type, member⟩ := (answer_of_stands stands n).1 p given
    obtain ⟨stands', type', -⟩ := stands_after stands (n + 1)
    rw [disk] at opens' member
    have linkType_eq := type.trans type'
    exact ⟨file, stands'.named, opens', linkType_eq,
      within _ stands'.named file opens' linkType_eq k p member⟩
  refine ⟨⟨path, first, rfl, opens, fun n => (stands_after stands n).2.2.1⟩, gives, ?_, ?_⟩
  · intro most n p given
    obtain ⟨file, member, opens', type, short⟩ := gives n p given
    exact UInt32.le_trans short (most _ member file opens' type)
  · intro c s w answer s' w' dumped short
    obtain ⟨openings, files, front, whole⟩ := Run.exists_openings_of_dump dumped
    refine ⟨openings, front, fun id => files.settled id (by simp), fun path id o found last => ?_⟩
    have inside {q : Packet} (member : q ∈ o.packets) : q ∈ openings.flatMap (·.packets) :=
      List.mem_flatMap.2 ⟨o, Rotation.Opening.mem_of_last? last, member⟩
    obtain ⟨file, opens', snaplen, stored⟩ :=
      files.exists_reader found last fun q member => whole q (inside member)
    refine ⟨file, opens', snaplen, fun n p given => ?_⟩
    obtain ⟨q, member, rfl⟩ := stored n p given
    rw [snaplen]
    exact short q (front.subset (inside member))

/-- The second file was captured with another snapshot length than the first. -/
theorem packet_longer_than_session_snaplen :
    let p : Packet := ⟨⟨1, 0, 4, 4⟩, List.replicate 4 1⟩
    let q : Packet := ⟨⟨2, 0, 10, 10⟩, List.replicate 10 2⟩
    let disk := (Disk.fresh.addFileWith "a.pcap" (FileHeader.write .ethernet 4 ++ Record.bytes p).toArray
      ).addFileWith "b.pcap" (FileHeader.write .ethernet 10 ++ Record.bytes q).toArray
    ∃ r h', ofPaths { disk } ["a.pcap", "b.pcap"] = (.ok r, h') ∧ r.answer h' 1 = .ok q ∧
      (∀ n, (r.after h' n).1.snaplen = 4) ∧
      ∃ file, Reader.ofPath disk (r.after h' 2).1.name = .ok file ∧ q.header.caplen ≤ file.snaplen := by
  intro p q disk
  obtain ⟨a, opensA, headerA, -, framesA⟩ : ∃ file, Reader.ofPath disk "a.pcap" = .ok file ∧
      file.header = ⟨.written, 4, .ethernet⟩ ∧ file.compression = .plain ∧
      file.frames disk = ([p], none) :=
    Reader.exists_ofPath_of_answers (by decide +kernel)
  obtain ⟨b, opensB, headerB, -, framesB⟩ : ∃ file, Reader.ofPath disk "b.pcap" = .ok file ∧
      file.header = ⟨.written, 10, .ethernet⟩ ∧ file.compression = .plain ∧
      file.frames disk = ([q], none) :=
    Reader.exists_ofPath_of_answers (by decide +kernel)
  have second : (ofPaths { disk } ["a.pcap", "b.pcap"]).1.toOption.map
      (·.answer (ofPaths { disk } ["a.pcap", "b.pcap"]).2 1) = some (.ok q) := by decide +kernel
  obtain ⟨h', opened, -⟩ := ofPaths_of_ok (h := { disk }) opensA ["b.pcap"]
  rw [opened] at second
  have given : (begun "a.pcap" ["b.pcap"] a).answer h' 1 = .ok q := Option.some.inj second
  obtain ⟨⟨path, first, head, opens, snaplen⟩, gives, -⟩ := replay_within_file_snaplens opened (by
    intro path member file opens _
    rcases List.mem_cons.1 member with rfl | member
    · obtain rfl := Except.ok.inj (opensA.symm.trans opens)
      exact Reader.within_of_frames framesA (by rw [Reader.snaplen, headerA]; decide)
    · obtain rfl := List.mem_singleton.1 member
      obtain rfl := Except.ok.inj (opensB.symm.trans opens)
      exact Reader.within_of_frames framesB (by rw [Reader.snaplen, headerB]; decide))
  obtain ⟨file, -, opens', -, short⟩ := gives 1 q given
  refine ⟨_, h', opened, given, fun n => ?_, file, opens', short⟩
  obtain rfl := Option.some.inj head
  obtain rfl := Except.ok.inj (opensA.symm.trans opens)
  rw [snaplen, Reader.snaplen, headerA]

end Capture.Replay

end RollingCapture
