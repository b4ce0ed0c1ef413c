import TalusVSwitch.StationRun

namespace TalusVSwitch

namespace Station

variable {inet_ntoa : SockAddr → Bytes} {config : Config} {station : Station} {mac : Mac}

/-- The events that concern the age of an entry. -/
def Ages : StationEvent → Prop
  | .checkMac _ | .runTask _ | .elapse _ => True
  | _ => False

/-- Nothing else touches an entry of a peer, the removal tasks or the clock. -/
theorem act_quiet {event : StationEvent} (quiet : ¬ Ages event) (other : mac ≠ MAC_BROADCAST) :
    (station.act inet_ntoa config event).1.table.lookup mac = station.table.lookup mac ∧
      (station.act inet_ntoa config event).1.ageing.tasks = station.ageing.tasks ∧
      (station.act inet_ntoa config event).1.ageing.now = station.ageing.now := by
  cases event with
  | pollInterface frame behind =>
    obtain ⟨table, kept, result | ⟨peer, result⟩ | result⟩ :=
      pollInterface_cases config station ⟨frame, behind⟩
    all_goals
      rw [act, result]
      exact ⟨kept.others mac other, rfl, rfl⟩
  | resume index enumeration =>
    simp only [act]
    split
    · exact ⟨rfl, rfl, rfl⟩
    · rename_i task _
      obtain ⟨table, kept, result, _⟩ := resume_cases config enumeration
        { station with pending := station.pending.eraseIdx index } task
      rw [result]
      exact ⟨kept.others mac other, rfl, rfl⟩
  | handleCmd index enumeration =>
    simp only [act]
    split <;> exact ⟨rfl, rfl, rfl⟩
  | keepLinks | probe | sendQueryPeers | sendQueryPeerInfo => exact ⟨rfl, rfl, rfl⟩
  | checkMac | runTask | elapse => exact absurd trivial quiet

/-- A frame the node learns from, with this source. -/
def HeardFrom (config : Config) (mac : Mac) : Occurrence → Prop
  | .receive buf _ _ => VSwitch.Learns config buf ∧ buf.sMac = mac
  | .act _ => False

instance (config : Config) (buf : Buffer) : Decidable (VSwitch.Learns config buf) :=
  decidable_of_iff (buf.dMac ≠ 0 ∧ buf.isTvsCmd = false ∧ buf.sMac ≠ MAC_BROADCAST ∧
      buf.sMac ≠ config.macLocal)
    ⟨fun ⟨addressed, data, source, foreign⟩ => ⟨addressed, data, source, foreign⟩,
      fun learns => ⟨learns.addressed, learns.data, learns.source, learns.foreign⟩⟩

instance (config : Config) (mac : Mac) : DecidablePred (HeardFrom config mac)
  | .receive buf _ _ => inferInstanceAs (Decidable (VSwitch.Learns config buf ∧ buf.sMac = mac))
  | .act _ => inferInstanceAs (Decidable False)

theorem receive_quiet {buf : Buffer} {peer : SockAddr} {ttl : UInt8}
    (silent : ¬ HeardFrom config mac (.receive buf peer ttl)) :
    (station.receive config buf peer ttl).table.lookup mac = station.table.lookup mac := by
  rw [receive_table]
  by_cases learns : VSwitch.Learns config buf
  · rw [VSwitch.learnFrom_of_learns learns]
    apply MacMap.lookup_addMacPeer_ne
    rintro rfl
    exact silent ⟨learns, rfl⟩
  · rw [VSwitch.learnFrom_of_not_learns learns]

theorem receive_tasks {buf : Buffer} {peer : SockAddr} {ttl : UInt8} :
    (station.receive config buf peer ttl).ageing.tasks = station.ageing.tasks := by
  simp only [receive]

theorem receive_heard {buf : Buffer} {peer : SockAddr} {ttl : UInt8}
    (heard : HeardFrom config mac (.receive buf peer ttl)) :
    (station.receive config buf peer ttl).table =
      station.table.addMacPeer station.ageing.now mac peer ttl := by
  obtain ⟨learns, rfl⟩ := heard
  rw [receive_table, VSwitch.learnFrom_of_learns learns]

end Station

/-- A node, with the time it last heard a MAC. -/
structure Watch where
  station : Station
  heard : Option Nat

namespace Watch

section Machine

variable (inet_ntoa : SockAddr → Bytes) (config : Config) (mac : Mac)

def step (watch : Watch) (occurrence : Occurrence) : Watch where
  station := watch.station.next inet_ntoa config occurrence
  heard :=
    if Station.HeardFrom config mac occurrence then some watch.station.ageing.now else watch.heard

/-- The peer talks from one address, and no scan finds it silent for more than 20000 ms. -/
structure Talks (sock : SockAddr) (watch : Watch) (occurrence : Occurrence) : Prop where
  single : ∀ buf peer ttl, occurrence = .receive buf peer ttl →
    Station.HeardFrom config mac occurrence → peer = sock
  scanned : ∀ enumeration time, occurrence = .act (.checkMac enumeration) →
    watch.heard = some time → watch.station.ageing.now ≤ time + 20 * 1000

end Machine

variable {inet_ntoa : SockAddr → Bytes} {config : Config} {mac : Mac} {sock : SockAddr} {watch : Watch}

/-- The entry of a peer that talks is as old as its last frame, and no task is to remove it. -/
structure Known (mac : Mac) (sock : SockAddr) (watch : Watch) : Prop where
  entry : ∀ time, watch.heard = some time → ∃ peerInfo,
    watch.station.table.lookup mac = some peerInfo ∧ peerInfo.sock = sock ∧ peerInfo.ticker = time
  unheard : watch.heard = none → watch.station.table.lookup mac = none
  tasks : ∀ task ∈ watch.station.ageing.tasks, task.mac = mac → task.due = false

theorem step_of_silent {occurrence : Occurrence}
    (silent : ¬ Station.HeardFrom config mac occurrence) :
    watch.step inet_ntoa config mac occurrence =
      ⟨watch.station.next inet_ntoa config occurrence, watch.heard⟩ := by
  rw [step, if_neg silent]

theorem step_of_heard {occurrence : Occurrence} (heard : Station.HeardFrom config mac occurrence) :
    watch.step inet_ntoa config mac occurrence =
      ⟨watch.station.next inet_ntoa config occurrence, some watch.station.ageing.now⟩ := by
  rw [step, if_pos heard]

theorem Known.congr (known : Known mac sock watch) (after : Watch) (heard : after.heard = watch.heard)
    (table : after.station.table.lookup mac = watch.station.table.lookup mac)
    (tasks : after.station.ageing.tasks ⊆ watch.station.ageing.tasks) : Known mac sock after := by
  refine ⟨?_, ?_, fun task queued => known.tasks task (tasks queued)⟩
  · rw [heard, table]
    exact known.entry
  · rw [heard, table]
    exact known.unheard

theorem known_receive (named : sock ≠ .unspec) (known : Known mac sock watch) {buf : Buffer}
    {peer : SockAddr} {ttl : UInt8}
    (single : Station.HeardFrom config mac (.receive buf peer ttl) → peer = sock) :
    Known mac sock (watch.step inet_ntoa config mac (.receive buf peer ttl)) := by
  have tasks := @Station.receive_tasks config watch.station buf peer ttl
  by_cases heard : Station.HeardFrom config mac (.receive buf peer ttl)
  · rw [step_of_heard heard, Station.next_receive]
    have source := single heard
    subst source
    refine ⟨fun time last => ?_, (by rintro ⟨⟩), fun task queued => ?_⟩
    · cases last
      simp only [Station.receive_heard heard, MacMap.lookup_addMacPeer]
      cases before : watch.heard with
      | none =>
        rw [known.unheard before, Option.getD_none, MacPeer.learn_fresh]
        exact ⟨_, rfl, rfl, rfl⟩
      | some earlier =>
        obtain ⟨peerInfo, found, rfl, _⟩ := known.entry earlier before
        rw [found, Option.getD_some]
        rcases peerInfo.learn_cases watch.station.ageing.now peerInfo.sock ttl with
          ⟨_, learned⟩ | ⟨different, _⟩ | ⟨different, _⟩
        · rw [learned]
          exact ⟨_, rfl, rfl, rfl⟩
        · rw [compareSockAddr_self named] at different
          cases different
        · rw [compareSockAddr_self named] at different
          cases different
    · rw [tasks] at queued
      exact known.tasks task queued
  · rw [step_of_silent heard, Station.next_receive]
    have kept := @Station.receive_quiet config watch.station mac buf peer ttl heard
    refine known.congr ⟨watch.station.receive config buf peer ttl, watch.heard⟩ rfl kept ?_
    rw [tasks]
    exact List.Subset.refl _

/-- The task of a scan that finds the peer talking removes nothing. -/
theorem known_checkMac (known : Known mac sock watch) {enumeration : Enumeration}
    (scanned : ∀ time, watch.heard = some time → watch.station.ageing.now ≤ time + 20 * 1000)
    {task : RemovalTask} (same : task.mac = mac)
    (posted : task ∈ MacMap.checkMac (enumeration.order watch.station.table)
      watch.station.ageing.now) : task.due = false := by
  cases due : task.due with
  | false => rfl
  | true =>
    exfalso
    cases heard : watch.heard with
    | none =>
      obtain ⟨entry, member, rfl⟩ := List.mem_map.mp posted
      have found := AList.mem_lookup_iff.mpr ((enumeration.perm _).subset member)
      have absent := known.unheard heard
      rw [← same] at absent
      cases absent.symm.trans found
    | some time =>
      obtain ⟨peerInfo, found, _, ticker⟩ := known.entry time heard
      rw [← same] at found
      have idle := Ageing.checkMac_idle posted due found
      have recent := scanned time heard
      omega

theorem known_act (other : mac ≠ MAC_BROADCAST) (known : Known mac sock watch) {event : StationEvent}
    (scanned : ∀ enumeration time, event = .checkMac enumeration → watch.heard = some time →
      watch.station.ageing.now ≤ time + 20 * 1000) :
    Known mac sock ⟨(watch.station.act inet_ntoa config event).1, watch.heard⟩ := by
  by_cases ages : Station.Ages event
  · cases event with
    | checkMac enumeration =>
      refine ⟨known.entry, known.unheard, fun task queued same => ?_⟩
      rcases List.mem_append.mp queued with before | posted
      · exact known.tasks task before same
      · exact known_checkMac known (fun time => scanned enumeration time rfl) same posted
    | runTask index =>
      simp only [Station.act, Ageing.step]
      cases run : watch.station.ageing.tasks[index]? with
      | none => exact known.congr _ rfl rfl (List.Subset.refl _)
      | some task =>
        refine known.congr _ rfl ?_ List.eraseIdx_subset
        by_cases same : task.mac = mac
        · have idle := known.tasks task (List.mem_of_getElem? run) same
          simp only [Station.table, MacMap.runRemoval_of_not_due idle]
        · exact MacMap.lookup_runRemoval_ne (Ne.symm same)
    | elapse => exact known.congr _ rfl rfl (List.Subset.refl _)
    | _ => exact ages.elim
  · obtain ⟨table, tasks, _⟩ := @Station.act_quiet inet_ntoa config watch.station mac _ ages other
    refine known.congr ⟨_, _⟩ rfl table ?_
    simp only [tasks, List.Subset.refl]

theorem known_step (other : mac ≠ MAC_BROADCAST) (named : sock ≠ .unspec) (watch : Watch)
    (occurrence : Occurrence) (talks : Talks config mac sock watch occurrence)
    (known : Known mac sock watch) : Known mac sock (watch.step inet_ntoa config mac occurrence) := by
  cases occurrence with
  | receive buf peer ttl => exact known_receive named known (talks.single buf peer ttl rfl)
  | act event =>
    rw [step_of_silent id, Station.next_act]
    exact known_act other known (fun enumeration time same => talks.scanned enumeration time (by rw [same]))

theorem station_run (watch : Watch) (occurrences : List Occurrence) :
    (Execution.run (step inet_ntoa config mac) watch occurrences).station =
      Execution.run (Station.next inet_ntoa config) watch.station occurrences := by
  induction occurrences generalizing watch with
  | nil => rfl
  | cons occurrence rest ih => exact ih _

/-- A node before it has heard anything. -/
def start (config : Config) (now : Nat) : Watch := ⟨Station.start config now, none⟩

/-- A peer that keeps talking is never forgotten. In every run in which a peer talks from
one address, and in which no scan of the table comes more than 20000 ms after its last frame,
the entry stays from its first frame on, at that address and no older than its last frame,
whatever else the node receives and in whatever order its removal tasks run. -/
theorem talking_stays (inet_ntoa : SockAddr → Bytes) (config : Config) (now : Nat) (mac : Mac)
    (other : mac ≠ MAC_BROADCAST) (sock : SockAddr) (named : sock ≠ .unspec)
    (occurrences : List Occurrence)
    (talks : Execution.EveryStep (step inet_ntoa config mac) (Talks config mac sock)
      (start config now) occurrences) :
    let watch := Execution.run (step inet_ntoa config mac) (start config now) occurrences
    watch.station =
        Execution.run (Station.next inet_ntoa config) (Station.start config now) occurrences ∧
      ∀ time, watch.heard = some time → ∃ peerInfo,
        watch.station.table.lookup mac = some peerInfo ∧ peerInfo.sock = sock ∧
          peerInfo.ticker = time := by
  intro watch
  have initial : Known mac sock (start config now) := by
    refine ⟨?_, fun _ => Station.start_lookup_ne other, fun _ queued => ?_⟩
    · rintro time ⟨⟩
    · cases queued
  have known := Execution.EveryStep.preserves (known_step other named) initial talks
  exact ⟨station_run _ occurrences, known.entry⟩

/-- A peer heard once, with a scan five seconds later. -/
theorem talking_stays_scanned :
    let config : Config := ⟨0x20000, 8, .inet 1 9001, []⟩
    let occurrences : List Occurrence :=
      [.receive ⟨macBytes 0x20000 ++ macBytes 0x30000, [0]⟩ (.inet 7 9001) 4, .act (.elapse 5000),
        .act (.checkMac .stored), .act (.runTask 1)]
    ∃ peerInfo, (Execution.run (Station.next (fun _ => []) config) (Station.start config 0)
      occurrences).table.lookup 0x30000 = some peerInfo ∧ peerInfo.sock = .inet 7 9001 ∧
        peerInfo.ticker = 0 := by
  intro config occurrences
  obtain ⟨same, known⟩ := talking_stays (fun _ => []) config 0 0x30000 (by decide) (.inet 7 9001)
    (by decide) occurrences (by
      refine ⟨⟨?_, ?_⟩, ⟨?_, ?_⟩, ⟨?_, ?_⟩, ⟨?_, ?_⟩, trivial⟩
      · rintro buf peer ttl ⟨⟩ -
        rfl
      · rintro enumeration time ⟨⟩
      · rintro buf peer ttl ⟨⟩
      · rintro enumeration time ⟨⟩
      · rintro buf peer ttl ⟨⟩
      · rintro enumeration time - last
        cases last
        decide
      · rintro buf peer ttl ⟨⟩
      · rintro enumeration time ⟨⟩)
  rw [← same]
  exact known 0 (by decide)

end Watch

namespace Station

variable {inet_ntoa : SockAddr → Bytes} {config : Config} {station : Station} {mac : Mac}

/-- An entry that is gone, or that a task waits to remove. -/
def Doomed (mac : Mac) (station : Station) : Prop :=
  station.table.lookup mac = none ∨ ∃ task ∈ station.ageing.tasks, task.mac = mac ∧ task.due = true

theorem doomed_checkMac (other : mac ≠ MAC_BROADCAST)
    (idle : ∀ peerInfo, station.table.lookup mac = some peerInfo →
      peerInfo.ticker + 20 * 1000 < station.ageing.now) (enumeration : Enumeration) :
    Doomed mac (station.next inet_ntoa config (.act (.checkMac enumeration))) := by
  cases found : station.table.lookup mac with
  | none => exact .inl found
  | some peerInfo =>
    have entry : (⟨mac, peerInfo⟩ : MacEntry) ∈ enumeration.order station.table :=
      (enumeration.perm _).mem_iff.mpr (AList.mem_lookup_iff.mp found)
    refine .inr ⟨⟨mac, station.ageing.now - peerInfo.ticker⟩, ?_, rfl, ?_⟩
    · exact List.mem_append_right _ (List.mem_map_of_mem entry)
    · have late := idle peerInfo found
      simp only [RemovalTask.due, Bool.and_eq_true, decide_eq_true_eq, bne_iff_ne]
      exact ⟨by omega, other⟩

/-- Only a frame of the peer saves its entry. -/
theorem doomed_next (other : mac ≠ MAC_BROADCAST) (station : Station) (occurrence : Occurrence)
    (silent : ¬ HeardFrom config mac occurrence) (doomed : Doomed mac station) :
    Doomed mac (station.next inet_ntoa config occurrence) := by
  cases occurrence with
  | receive buf peer ttl =>
    have kept := @receive_quiet config station mac buf peer ttl silent
    have tasks := @receive_tasks config station buf peer ttl
    simpa only [Doomed, next_receive, kept, tasks] using doomed
  | act event =>
    rw [next_act]
    by_cases ages : Ages event
    · cases event with
      | checkMac enumeration =>
        rcases doomed with gone | ⟨task, queued, same, due⟩
        · exact .inl gone
        · exact .inr ⟨task, List.mem_append_left _ queued, same, due⟩
      | runTask index =>
        simp only [act, Ageing.step]
        cases run : station.ageing.tasks[index]? with
        | none => exact doomed
        | some removal =>
          by_cases removes : removal.mac = mac ∧ removal.due = true
          · obtain ⟨rfl, due⟩ := removes
            left
            simp only [table, MacMap.runRemoval_of_due due, MacMap.removePeer]
            exact AList.lookup_erase _ _
          · rcases doomed with gone | ⟨task, queued, same, due⟩
            · left
              by_contra present
              obtain ⟨peerInfo, found⟩ := Option.ne_none_iff_exists'.mp present
              have still := MacMap.lookup_runRemoval found
              cases gone.symm.trans still
            · right
              obtain ⟨inside, picked⟩ := List.getElem?_eq_some_iff.mp run
              have either := (List.getElem_cons_eraseIdx_perm inside).mem_iff.mpr queued
              rcases List.mem_cons.mp either with first | later
              · rw [picked] at first
                subst first
                exact absurd ⟨same, due⟩ removes
              · exact ⟨task, later, same, due⟩
      | elapse => exact doomed
      | _ => exact ages.elim
    · obtain ⟨kept, tasks, _⟩ := @act_quiet inet_ntoa config station mac _ ages other
      simpa only [Doomed, kept, tasks] using doomed

/-- A peer that falls silent is forgotten. In every run from any state, a scan that comes more
than 20000 ms after the entry was last refreshed removes it, unless the peer is heard again:
once no task for its MAC is left to run, the entry is gone, whatever came in between. -/
theorem silent_goes (inet_ntoa : SockAddr → Bytes) (config : Config) (station : Station) (mac : Mac)
    (other : mac ≠ MAC_BROADCAST)
    (idle : ∀ peerInfo, station.table.lookup mac = some peerInfo →
      peerInfo.ticker + 20 * 1000 < station.ageing.now)
    (enumeration : Enumeration) (rest : List Occurrence)
    (silent : ∀ occurrence ∈ rest, ¬ HeardFrom config mac occurrence) :
    let last := Execution.run (next inet_ntoa config) station (.act (.checkMac enumeration) :: rest)
    (∀ task ∈ last.ageing.tasks, task.mac ≠ mac) → last.table.lookup mac = none := by
  intro last settled
  have doomed : Doomed mac last := Execution.run_admitted (doomed_next other)
    (doomed_checkMac other idle enumeration) silent
  rcases doomed with gone | ⟨task, queued, same, _⟩
  · exact gone
  · exact absurd same (settled task queued)

/-- A peer heard once, with a scan of the table a millisecond too late for it. -/
theorem silent_goes_scanned :
    let config : Config := ⟨0x20000, 8, .inet 1 9001, []⟩
    let station := Execution.run (next (fun _ => []) config) (start config 0)
      [.receive ⟨macBytes 0x20000 ++ macBytes 0x30000, [0]⟩ (.inet 7 9001) 4, .act (.elapse 20001)]
    (Execution.run (next (fun _ => []) config) station
      [.act (.checkMac .stored), .act .sendQueryPeers, .act (.runTask 0)]).table.lookup 0x30000 =
        none := by
  intro config station
  apply silent_goes (fun _ => []) config station 0x30000 (by decide) _ .stored
  · rintro occurrence listed heard
    rcases List.mem_cons.mp listed with rfl | listed
    · exact heard
    · rw [List.mem_singleton.mp listed] at heard
      exact heard
  · decide
  · rintro peerInfo ⟨⟩
    decide

end Station

end TalusVSwitch
