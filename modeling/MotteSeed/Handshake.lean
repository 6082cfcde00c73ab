import MotteSeed.TorrentMeta
import MotteSeed.Toolkit.Greeting
import MotteSeed.Toolkit.Simulation

/-! `handshake.rs`: what a handshake accepts, in whatever portions the response arrives,
and two clients that shake hands with each other over a connection. -/
namespace MotteSeed.Handshake
open Toolkit Toolkit.ByteImage Toolkit.Runs Toolkit.Greeting PeerWire TorrentMeta

inductive HandShakeError where
  | io
  | invalidHandShake
  | invalidInfoHash
  | other
  deriving DecidableEq

def pstr : Bytes := fromStr "BitTorrent protocol"

def handshakeMessage (peerId infoHash : Hash) : Bytes :=
  let buf := List.replicate 68 0
  let buf := overwrite buf 0 [19]
  let buf := overwrite buf 1 pstr
  let buf := overwrite buf 20 (List.replicate 8 0)
  let buf := overwrite buf 28 infoHash.toList
  overwrite buf 48 peerId.toList

def verifyResponse (infoHash : Hash) (buf : Bytes) : Except HandShakeError Hash :=
  if slice buf 0 1 ≠ [19] ∨ slice buf 1 19 ≠ pstr then .error .invalidHandShake
  else if slice buf 28 20 ≠ infoHash.toList then .error .invalidInfoHash
  else
    match toHash (slice buf 48 20) with
    | some peerId => .ok peerId
    | none => .error .other

/-- A call of `handshake`: inside `write_all` or `read_exact`, or at its end. -/
inductive Task where
  | running (party : Party UInt8)
  | returned (result : Except HandShakeError Hash)

inductive SocketEvent where
  | wrote (count : Nat)
  | read (bytes : Bytes)
  | ended
  | failed
  deriving DecidableEq

def Task.start (peerId infoHash : Hash) : Task := .running ⟨handshakeMessage peerId infoHash, []⟩

def Task.of (infoHash : Hash) (party : Party UInt8) : Task :=
  if party.got.length = 68 then .returned (verifyResponse infoHash party.got) else .running party

def Task.step (infoHash : Hash) : Task → SocketEvent → Option (Task × Bytes)
  | .running party, .wrote count =>
      if 0 < count ∧ count ≤ party.unsent.length then
        some (.running { party with unsent := party.unsent.drop count }, party.unsent.take count)
      else none
  | .running party, .read bytes =>
      if party.unsent.length = 0 ∧ 0 < bytes.length ∧ party.got.length + bytes.length ≤ 68 then
        some (.of infoHash { party with got := party.got ++ bytes }, [])
      else none
  -- `read_exact` has met the end of the stream before the buffer was full.
  | .running party, .ended =>
      if party.unsent.length = 0 then some (.returned (.error .io), []) else none
  | .running _, .failed => some (.returned (.error .io), [])
  | .returned _, _ => none

def handshake (infoHash : Hash) : Machine Task SocketEvent UInt8 := ⟨Task.step infoHash⟩

section Format

@[simp] theorem pstr_length : pstr.length = 19 := by decide

theorem hash_length (hash : Hash) : hash.toList.length = 20 := by simp

theorem handshake_message_fields (peerId infoHash : Hash) :
    handshakeMessage peerId infoHash =
      [19] ++ pstr ++ List.replicate 8 0 ++ infoHash.toList ++ peerId.toList := by
  calc handshakeMessage peerId infoHash
    _ = overwrite (overwrite (overwrite (overwrite ([19] ++ List.replicate 67 0) 1 pstr) 20
          (List.replicate 8 0)) 28 infoHash.toList) 48 peerId.toList := rfl
    _ = overwrite (overwrite (overwrite ([19] ++ pstr ++ List.replicate 48 0) 20
          (List.replicate 8 0)) 28 infoHash.toList) 48 peerId.toList := by
        rw [overwrite_fill [19] pstr 0 1 67 rfl, pstr_length]
    _ = overwrite (overwrite ([19] ++ pstr ++ List.replicate 8 0 ++ List.replicate 40 0) 28
          infoHash.toList) 48 peerId.toList := by
        rw [overwrite_fill ([19] ++ pstr) _ 0 20 48 (by simp), List.length_replicate]
    _ = overwrite ([19] ++ pstr ++ List.replicate 8 0 ++ infoHash.toList ++
          List.replicate 20 0) 48 peerId.toList := by
        rw [overwrite_fill ([19] ++ pstr ++ List.replicate 8 0) _ 0 28 40 (by simp), hash_length]
    _ = [19] ++ pstr ++ List.replicate 8 0 ++ infoHash.toList ++ peerId.toList := by
        rw [overwrite_fill _ peerId.toList 0 48 20 (by simp), hash_length]
        exact List.append_nil _

@[simp] theorem handshake_message_length (peerId infoHash : Hash) :
    (handshakeMessage peerId infoHash).length = 68 := by
  rw [handshake_message_fields]
  simp

theorem response_fields (buf : Bytes) (full : buf.length = 68) :
    buf = slice buf 0 1 ++ slice buf 1 19 ++ slice buf 20 8 ++ slice buf 28 20 ++
      slice buf 48 20 := by
  rw [slice_append buf 0 1 19, slice_append buf 0 20 8, slice_append buf 0 28 20,
    slice_append buf 0 48 20, slice_all buf 68 (Nat.le_of_eq full)]

/-- A response as the protocol lays it out; the reserved bytes may be anything. -/
def Response (reserved : Bytes) (infoHash peerId : Hash) : Bytes :=
  [19] ++ pstr ++ reserved ++ infoHash.toList ++ peerId.toList

theorem verify_response (reserved : Bytes) (size : reserved.length = 8)
    (infoHash theirs peerId : Hash) :
    verifyResponse infoHash (Response reserved theirs peerId) =
      if theirs = infoHash then .ok peerId else .error .invalidInfoHash := by
  have first : slice (Response reserved theirs peerId) 0 1 = [19] := rfl
  have second : slice (Response reserved theirs peerId) 1 19 = pstr := by
    rw [Response, List.append_assoc, List.append_assoc]
    exact slice_middle [19] pstr _ 1 19 rfl pstr_length
  have fourth : slice (Response reserved theirs peerId) 28 20 = theirs.toList :=
    slice_middle _ _ _ 28 20 (by simp [size]) (hash_length theirs)
  have fifth : slice (Response reserved theirs peerId) 48 20 = peerId.toList := by
    have last := slice_middle ([19] ++ pstr ++ reserved ++ theirs.toList) peerId.toList [] 48 20
      (by simp [size]) (hash_length peerId)
    rwa [List.append_nil] at last
  rw [verifyResponse, if_neg (by simp [first, second]), fourth, fifth,
    (to_hash_some_iff _ peerId).mpr rfl]
  by_cases same : theirs = infoHash
  · rw [if_neg (by simp [same]), if_pos same]
  · rw [if_pos fun equal => same (Vector.toList_inj.mp equal), if_neg same]

theorem verify_known (infoHash : Hash) (buf : Bytes) (full : buf.length = 68)
    (known : verifyResponse infoHash buf ≠ .error .invalidHandShake) :
    ∃ reserved theirs peerId, reserved.length = 8 ∧ buf = Response reserved theirs peerId := by
  have sizes : ∀ start length, start + length ≤ 68 → (slice buf start length).length = length := by
    intro start length inside
    rw [slice, List.length_take, List.length_drop]
    omega
  have hashes : ∀ start, start + 20 ≤ 68 → ∃ hash : Hash, slice buf start 20 = hash.toList := by
    intro start inside
    exact ⟨⟨(slice buf start 20).toArray, by simpa using sizes start 20 inside⟩, by
      simp [Vector.toList]⟩
  obtain ⟨theirs, fourth⟩ := hashes 28 (by omega)
  obtain ⟨peerId, fifth⟩ := hashes 48 (by omega)
  have checked : slice buf 0 1 = [19] ∧ slice buf 1 19 = pstr := by
    by_contra wrong
    refine known ?_
    rw [verifyResponse, if_pos (by rwa [not_and_or] at wrong)]
  refine ⟨slice buf 20 8, theirs, peerId, sizes 20 8 (by omega), ?_⟩
  rw [Response, ← checked.1, ← checked.2, ← fourth, ← fifth]
  exact response_fields buf full

theorem verify_ok_iff (infoHash : Hash) (buf : Bytes) (full : buf.length = 68) (peerId : Hash) :
    verifyResponse infoHash buf = .ok peerId ↔
      ∃ reserved, reserved.length = 8 ∧ buf = Response reserved infoHash peerId := by
  constructor
  · intro accepted
    obtain ⟨reserved, theirs, other, size, rfl⟩ :=
      verify_known infoHash buf full (by rw [accepted]; nofun)
    rw [verify_response reserved size] at accepted
    by_cases same : theirs = infoHash
    · rw [if_pos same] at accepted
      exact ⟨reserved, size, by rw [same, Except.ok.inj accepted]⟩
    · rw [if_neg same] at accepted
      cases accepted
  · rintro ⟨reserved, size, rfl⟩
    rw [verify_response reserved size, if_pos rfl]

theorem verify_foreign_iff (infoHash : Hash) (buf : Bytes) (full : buf.length = 68) :
    verifyResponse infoHash buf = .error .invalidInfoHash ↔ ∃ reserved theirs peerId,
      reserved.length = 8 ∧ theirs ≠ infoHash ∧ buf = Response reserved theirs peerId := by
  constructor
  · intro refused
    obtain ⟨reserved, theirs, peerId, size, rfl⟩ :=
      verify_known infoHash buf full (by rw [refused]; nofun)
    refine ⟨reserved, theirs, peerId, size, fun same => ?_, rfl⟩
    rw [verify_response reserved size, if_pos same] at refused
    cases refused
  · rintro ⟨reserved, theirs, peerId, size, differs, rfl⟩
    rw [verify_response reserved size, if_neg differs]

/-- The last conversion is of twenty bytes, so it does not fail. -/
theorem verify_checks (infoHash : Hash) (buf : Bytes) (full : buf.length = 68) :
    verifyResponse infoHash buf ≠ .error .io ∧ verifyResponse infoHash buf ≠ .error .other := by
  by_cases known : verifyResponse infoHash buf = .error .invalidHandShake
  · rw [known]
    exact ⟨nofun, nofun⟩
  · obtain ⟨reserved, theirs, peerId, size, rfl⟩ := verify_known infoHash buf full known
    rw [verify_response reserved size]
    by_cases same : theirs = infoHash
    · rw [if_pos same]
      exact ⟨nofun, nofun⟩
    · rw [if_neg same]
      exact ⟨nofun, nofun⟩

end Format

section Runs

variable (infoHash peerId : Hash)

def readBytes : SocketEvent → Bytes
  | .read bytes => bytes
  | .wrote _ | .ended | .failed => []

def response (events : List SocketEvent) : Bytes := events.flatMap readBytes

def Broken (events : List SocketEvent) : Prop := .ended ∈ events ∨ .failed ∈ events

inductive Stepped (party : Party UInt8) : SocketEvent → Task → Bytes → Prop where
  | wrote (count : Nat) (inside : count ≤ party.unsent.length) :
      Stepped party (.wrote count)
        (.running { party with unsent := party.unsent.drop count }) (party.unsent.take count)
  | read (bytes : Bytes) (sent : party.unsent = [])
      (wanted : party.got.length + bytes.length ≤ 68) :
      Stepped party (.read bytes) (.of infoHash { party with got := party.got ++ bytes }) []
  | broke (event : SocketEvent) (broken : event = .ended ∨ event = .failed) :
      Stepped party event (.returned (.error .io)) []

theorem handshake_step (task : Task) (event : SocketEvent) :
    (handshake infoHash).step task event = task.step infoHash event := rfl

theorem task_step (task next : Task) (event : SocketEvent) (out : Bytes)
    (stepped : (handshake infoHash).step task event = some (next, out)) :
    ∃ party, task = .running party ∧ Stepped infoHash party event next out := by
  rw [handshake_step] at stepped
  cases task with
  | returned result => cases event <;> cases stepped
  | running party =>
      refine ⟨party, rfl, ?_⟩
      cases event with
      | wrote count =>
          simp only [Task.step] at stepped
          split at stepped
          · rename_i allowed
            obtain ⟨rfl, rfl⟩ := Prod.mk.inj (Option.some.inj stepped)
            exact .wrote count allowed.2
          · cases stepped
      | read bytes =>
          simp only [Task.step] at stepped
          split at stepped
          · rename_i allowed
            obtain ⟨rfl, rfl⟩ := Prod.mk.inj (Option.some.inj stepped)
            exact .read bytes (List.eq_nil_of_length_eq_zero allowed.1) allowed.2.2
          · cases stepped
      | ended =>
          simp only [Task.step] at stepped
          split at stepped
          · obtain ⟨rfl, rfl⟩ := Prod.mk.inj (Option.some.inj stepped)
            exact .broke .ended (Or.inl rfl)
          · cases stepped
      | failed =>
          obtain ⟨rfl, rfl⟩ := Prod.mk.inj (Option.some.inj stepped)
          exact .broke .failed (Or.inr rfl)

/-- Where a call of `handshake` stands after these answers of the socket. -/
def Stands (events : List SocketEvent) (written : Bytes) : Task → Prop
  | .running party => ¬ Broken events ∧ party.got = response events ∧ party.got.length < 68 ∧
      written ++ party.unsent = handshakeMessage peerId infoHash ∧
      (party.got ≠ [] → party.unsent = [])
  | .returned result =>
      (Broken events ∧ result = .error .io ∧
        written <+: handshakeMessage peerId infoHash) ∨
      (¬ Broken events ∧ (response events).length = 68 ∧
        result = verifyResponse infoHash (response events) ∧
        written = handshakeMessage peerId infoHash)

theorem response_snoc (past : List SocketEvent) (event : SocketEvent) :
    response (past ++ [event]) = response past ++ readBytes event := by
  simp [response]

theorem broken_snoc (past : List SocketEvent) (event : SocketEvent) :
    Broken (past ++ [event]) ↔ Broken past ∨ event = .ended ∨ event = .failed := by
  simp only [Broken, List.mem_append, List.mem_singleton, @eq_comm _ SocketEvent.ended event,
    @eq_comm _ SocketEvent.failed event]
  tauto

theorem stepped_stands (past : List SocketEvent) (event : SocketEvent) (party : Party UInt8)
    (next : Task) (written out : Bytes)
    (stands : Stands infoHash peerId past written (.running party))
    (stepped : Stepped infoHash party event next out) :
    Stands infoHash peerId (past ++ [event]) (written ++ out) next := by
  obtain ⟨whole, got, short, sent, patient⟩ := stands
  cases stepped with
  | wrote count inside =>
      refine ⟨?_, ?_, short, ?_, ?_⟩
      · rw [broken_snoc]
        simpa using whole
      · rw [response_snoc, got]
        exact (List.append_nil _).symm
      · rw [List.append_assoc, List.take_append_drop, sent]
      · intro some_bytes
        simp [patient some_bytes]
  | read bytes done wanted =>
      have going : ¬ Broken (past ++ [.read bytes]) := by
        rw [broken_snoc]
        simpa using whole
      have now : party.got ++ bytes = response (past ++ [.read bytes]) := by
        rw [response_snoc, got]
        rfl
      have all : written ++ [] = handshakeMessage peerId infoHash := by
        rw [← sent, done]
      unfold Task.of
      split
      · rename_i full
        rw [now] at full
        exact Or.inr ⟨going, full, by rw [now], all⟩
      · rename_i partial_buf
        rw [List.length_append] at partial_buf
        refine ⟨going, now, ?_, ?_, fun _ => done⟩
        · rw [List.length_append]
          omega
        · rw [done, List.append_nil]
          exact all
  | broke _ broken =>
      refine Or.inl ⟨(broken_snoc past event).mpr (Or.inr broken), rfl, ?_⟩
      rw [List.append_nil, ← sent]
      exact List.prefix_append _ _

theorem run_stands (events : List SocketEvent) (finish : Task) (written : Bytes)
    (ran : run (handshake infoHash) (.start peerId infoHash) events = some (finish, written)) :
    Stands infoHash peerId events written finish := by
  refine run_history (handshake infoHash) (.start peerId infoHash) events
    (fun past task written => Stands infoHash peerId past written task) ?_ ?_ events
    (List.prefix_refl events) finish written ran
  · exact ⟨by simp [Broken], rfl, Nat.zero_lt_succ 67, rfl, by simp⟩
  · intro past event task log next out _ _ stands stepped
    obtain ⟨party, rfl, moved⟩ := task_step infoHash task next event out stepped
    exact stepped_stands infoHash peerId past event party next log out stands moved

/-- A handshake returns the peer id exactly after a response with the right protocol name
and info hash, with its own message written whole. It fails on another info hash or a broken
connection as such, and never for any other reason than these and a wrong name. -/
theorem handshake_returns (events : List SocketEvent) (result : Except HandShakeError Hash)
    (written : Bytes)
    (ran : run (handshake infoHash) (.start peerId infoHash) events =
      some (.returned result, written)) :
    (∀ theirs, result = .ok theirs ↔ ¬ Broken events ∧
      written = handshakeMessage peerId infoHash ∧
      ∃ reserved, reserved.length = 8 ∧ response events = Response reserved infoHash theirs) ∧
    (result = .error .invalidInfoHash ↔ ¬ Broken events ∧ ∃ reserved hash theirs,
      reserved.length = 8 ∧ hash ≠ infoHash ∧ response events = Response reserved hash theirs) ∧
    (result = .error .io ↔ Broken events) ∧
    result ≠ .error .other ∧ written <+: handshakeMessage peerId infoHash := by
  rcases run_stands infoHash peerId events _ written ran with
    ⟨broken, rfl, some_written⟩ | ⟨whole, full, rfl, rfl⟩
  · simp [broken, some_written]
  · obtain ⟨no_io, no_other⟩ := verify_checks infoHash (response events) full
    refine ⟨fun theirs => ?_, ?_, iff_of_false no_io whole, no_other, List.prefix_refl _⟩
    · rw [verify_ok_iff infoHash _ full]
      exact ⟨fun laid => ⟨whole, rfl, laid⟩, fun all => all.2.2⟩
    · rw [verify_foreign_iff infoHash _ full]
      exact ⟨fun laid => ⟨whole, laid⟩, fun all => all.2⟩

end Runs

def zeros : Hash := Vector.replicate 20 0

def ones : Hash := Vector.replicate 20 1

def onesAnswer : List SocketEvent :=
  [.wrote 68, .read (List.take 30 (handshakeMessage ones zeros)),
    .read (List.drop 30 (handshakeMessage ones zeros))]

theorem handshake_returns_ones :
    (∀ theirs, (.ok ones : Except HandShakeError Hash) = .ok theirs ↔ ¬ Broken onesAnswer ∧
      handshakeMessage zeros zeros = handshakeMessage zeros zeros ∧
      ∃ reserved, reserved.length = 8 ∧ response onesAnswer = Response reserved zeros theirs) ∧
    ((.ok ones : Except HandShakeError Hash) = .error .invalidInfoHash ↔ ¬ Broken onesAnswer ∧
      ∃ reserved hash theirs, reserved.length = 8 ∧ hash ≠ zeros ∧
        response onesAnswer = Response reserved hash theirs) ∧
    ((.ok ones : Except HandShakeError Hash) = .error .io ↔ Broken onesAnswer) ∧
    (.ok ones : Except HandShakeError Hash) ≠ .error .other ∧
    handshakeMessage zeros zeros <+: handshakeMessage zeros zeros :=
  handshake_returns zeros zeros onesAnswer (.ok ones) (handshakeMessage zeros zeros) rfl

section Clients

variable (capacity : Bool → Nat) (ids hashes : Bool → Hash)

def clients : Wire UInt8 := .start fun side => handshakeMessage (ids side) (hashes side)

def taskAt (wire : Wire UInt8) (side : Bool) : Task := .of (hashes side) (wire.party side)

theorem clients_sane (acts : List Act) (finish : Wire UInt8) (notes : List Unit)
    (ran : run (greeters 68 capacity) (clients ids hashes) acts = some (finish, notes)) :
    Sane 68 capacity (fun side => handshakeMessage (ids side) (hashes side)) finish :=
  run_sane 68 capacity _ _ finish acts notes (sane_start 68 capacity _) ran

theorem running_at (wire : Wire UInt8) (side : Bool) (short : (wire.party side).got.length < 68) :
    taskAt hashes wire side = .running (wire.party side) :=
  if_neg (Nat.ne_of_lt short)

theorem moved_answers (wire next : Wire UInt8) (act : Act) (side : Bool)
    (sane : Sane 68 capacity (fun side => handshakeMessage (ids side) (hashes side)) wire)
    (moved : Moved 68 capacity wire act next) :
    ∃ events written, run (handshake (hashes side)) (taskAt hashes wire side) events =
      some (taskAt hashes next side, written) ∧ ¬ Broken events := by
  have waiting : next.party side = wire.party side → ∃ events written,
      run (handshake (hashes side)) (taskAt hashes wire side) events =
        some (taskAt hashes next side, written) ∧ ¬ Broken events := by
    intro same
    exact ⟨[], [], by rw [taskAt, taskAt, same]; rfl, by simp [Broken]⟩
  cases moved with
  | wrote actor count some_items unsent room =>
      by_cases here : side = actor
      · subst here
        have nothing : (wire.party side).got = [] := by
          refine (sane.patient side).resolve_right fun done => ?_
          rw [done, List.length_nil] at unsent
          omega
        refine ⟨[.wrote count], (wire.party side).unsent.take count,
          run_one (handshake (hashes side)) _ _ _ _ ?_, by simp [Broken]⟩
        rw [running_at hashes wire side (by simp [nothing]),
          running_at hashes _ side (by simp [nothing])]
        rw [handshake_step, Task.step, if_pos ⟨some_items, unsent⟩]
        simp [Wire.write]
      · exact waiting (write_party_other wire actor count side here)
  | read actor count sent some_items inside wanted =>
      by_cases here : side = actor
      · subst here
        have size : ((wire.inbox side).take count).length = count := List.length_take_of_le inside
        refine ⟨[.read ((wire.inbox side).take count)], [],
          run_one (handshake (hashes side)) _ _ _ _ ?_, by simp [Broken]⟩
        rw [running_at hashes wire side (by omega)]
        rw [handshake_step, Task.step, if_pos ⟨sent, by omega, by omega⟩]
        simp [taskAt, Wire.read]
      · exact waiting (read_party_other wire actor count side here)

/-- Each end runs `handshake` on what the connection delivers to it. -/
theorem side_runs (acts : List Act) (finish : Wire UInt8) (notes : List Unit)
    (ran : run (greeters 68 capacity) (clients ids hashes) acts = some (finish, notes))
    (side : Bool) :
    ∃ events written, run (handshake (hashes side)) (.start (ids side) (hashes side)) events =
      some (taskAt hashes finish side, written) ∧ ¬ Broken events := by
  refine run_simulates (greeters 68 capacity) (handshake (hashes side))
    (fun wire => taskAt hashes wire side) (fun _ _ _ events _ => ¬ Broken events)
    (clients ids hashes) acts (by simp [Broken]) ?_ finish notes ran
  intro past act wire log next emitted asked replies _ reached whole stepped
  obtain ⟨events, written, goes, also⟩ := moved_answers capacity ids hashes wire next act side
    (clients_sane capacity ids hashes past wire log reached)
    ((step_iff 68 capacity wire next act emitted).mp stepped).1
  refine ⟨events, written, goes, ?_⟩
  simp only [Broken, List.mem_append] at whole also ⊢
  tauto

theorem finished_result (wire : Wire UInt8) (side : Bool)
    (sane : Sane 68 capacity (fun side => handshakeMessage (ids side) (hashes side)) wire)
    (result : Except HandShakeError Hash) (done : taskAt hashes wire side = .returned result) :
    result = if hashes (!side) = hashes side then .ok (ids (!side))
      else .error .invalidInfoHash := by
  unfold taskAt Task.of at done
  split at done
  · rename_i full
    obtain ⟨⟩ := done
    have got := finished_got 68 capacity _ (fun side => by simp) wire sane side full
    rw [got, handshake_message_fields]
    exact verify_response (List.replicate 8 0) (List.length_replicate) _ _ _
  · cases done

end Clients

/-- Two clients that shake hands over a connection, in any interleaving and portions: each
end is a run of `handshake`, whoever has returned has the other's id, or an error if the info
hashes differ, and no run is longer than 272 steps. They can always get to the end of it
exactly if one way of the connection holds a whole message and the other one is not closed. -/
theorem clients_shake_hands (capacity : Bool → Nat) (ids hashes : Bool → Hash) (acts : List Act)
    (finish : Wire UInt8) (notes : List Unit)
    (ran : run (greeters 68 capacity) (clients ids hashes) acts = some (finish, notes)) :
    (∀ side, ∃ events written, run (handshake (hashes side)) (.start (ids side) (hashes side))
      events = some (taskAt hashes finish side, written) ∧ ¬ Broken events) ∧
    (∀ side result, taskAt hashes finish side = .returned result →
      result = if hashes (!side) = hashes side then .ok (ids (!side))
        else .error .invalidInfoHash) ∧
    acts.length ≤ 4 * 68 ∧
    ((∃ more last later, run (greeters 68 capacity) finish more = some (last, later) ∧
      ∀ side, ∃ result, taskAt hashes last side = .returned result) ↔
        ∃ side, 68 ≤ capacity side ∧ 0 < capacity (!side)) := by
  have sane := clients_sane capacity ids hashes acts finish notes ran
  have sized : ∀ side, (handshakeMessage (ids side) (hashes side)).length = 68 := fun side => by
    simp
  refine ⟨side_runs capacity ids hashes acts finish notes ran,
    fun side result done => finished_result capacity ids hashes finish side sane result done,
    ?_, ?_, fun roomy => ?_⟩
  · have bound := run_weight 68 capacity _ finish acts notes ran
    have initial : (clients ids hashes).weight = 4 * 68 := by
      simp [Wire.weight, Wire.left, clients, Wire.start]
    omega
  · rintro ⟨more, last, later, goes, done⟩
    by_contra cramped
    have whole := (run_append_iff _ _ _ _ _ _).mpr ⟨finish, notes, later, ran, goes, rfl⟩
    obtain ⟨side, nothing⟩ := never_finish 68 capacity _ sized cramped last _ _ whole
    obtain ⟨result, returned⟩ := done side
    rw [running_at hashes last side (by simp [nothing])] at returned
    cases returned
  · obtain ⟨more, last, later, goes, done⟩ := can_finish 68 capacity _ sized roomy finish sane
    exact ⟨more, last, later, goes, fun side => ⟨_, if_pos (done side).2⟩⟩

/-- Both ways hold a message, and one client has written its own. -/
theorem clients_shake_hands_written :
    (∀ side, ∃ events written, run (handshake zeros) (.start (cond side ones zeros) zeros)
      events = some (taskAt (fun _ => zeros) ((clients (fun side => cond side ones zeros)
        (fun _ => zeros)).write true 68) side, written) ∧ ¬ Broken events) ∧
    (∀ side result, taskAt (fun _ => zeros) ((clients (fun side => cond side ones zeros)
        (fun _ => zeros)).write true 68) side = .returned result →
      result = if zeros = zeros then .ok (cond (!side) ones zeros)
        else .error .invalidInfoHash) ∧
    [Act.write true 68].length ≤ 4 * 68 ∧
    ((∃ more last later, run (greeters 68 fun _ => 100) ((clients (fun side => cond side ones zeros)
        (fun _ => zeros)).write true 68) more = some (last, later) ∧
      ∀ side, ∃ result, taskAt (fun _ => zeros) last side = .returned result) ↔
        ∃ side, 68 ≤ (fun _ : Bool => 100) side ∧ 0 < (fun _ : Bool => 100) (!side)) :=
  clients_shake_hands (fun _ => 100) (fun side => cond side ones zeros) (fun _ => zeros)
    [.write true 68] _ [] rfl

end MotteSeed.Handshake
