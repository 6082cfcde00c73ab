import MotteSeed.PeerConnection

/-! The bytes a connection reads. Awaited to its end, `read_message` cuts the
stream exactly at its frames, yet hands the parser a body without the prefix that
the parser expects. Dropped in the middle, it forgets what it has consumed, and
the next read starts inside a frame. -/
namespace MotteSeed.InboundStream
open Toolkit Toolkit.Checked Toolkit.Runs Toolkit.Framing PeerWire PeerConnection

section Awaited

def MessageFits : Message → Prop
  | .bitfield bytes => bytes.length + 1 < 2 ^ 32
  | .piece _ _ block => block.length + 9 < 2 ^ 32
  | _ => True

/-- What follows the length prefix. -/
def messageBody (message : Message) : Bytes := message.serialize.drop 4

theorem length_word (header : UInt32) (count : Nat) (fits : header.toNat + count < 2 ^ 32) :
    (header + UInt32.ofNat count).toNat = header.toNat + count := by
  rw [UInt32.toNat_add, UInt32.toNat_ofNat']
  omega

theorem serialize_framed (message : Message) (fits : MessageFits message) :
    message.serialize = frame 4 (messageBody message) ∧ Fits 4 (messageBody message) := by
  cases message with
  | bitfield bytes =>
      have bound : bytes.length + 1 < 2 ^ 32 := fits
      have size : (1 + UInt32.ofNat bytes.length).toNat = 1 + bytes.length :=
        length_word 1 bytes.length (by simpa [Nat.add_comm] using bound)
      simp [messageBody, Message.serialize, Message.serializeInto, putU32, putU8, putSlice,
        frame, Fits, size, Nat.add_comm 1]
      omega
  | piece index begin block =>
      have bound : block.length + 9 < 2 ^ 32 := fits
      have size : (9 + UInt32.ofNat block.length).toNat = 9 + block.length :=
        length_word 9 block.length (by simpa [Nat.add_comm] using bound)
      simp [messageBody, Message.serialize, Message.serializeInto, putU32, putU8, putSlice,
        frame, Fits, size]
      have rest : 4 + (4 + block.length) + 1 = 9 + block.length := by omega
      rw [rest]
      exact ⟨rfl, by omega⟩
  | _ => simp [messageBody, Message.serialize, Message.serializeInto, putU32, putU8, putU16,
      frame, Fits]

theorem read_message_frame (profile : Profile) (buf body rest : Bytes) (fits : Fits 4 body) :
    readMessage profile buf (frame 4 body ++ rest) =
      match Message.deserialize profile body with
      | .ok (message, left) => .ok (message, left, rest)
      | .error fault => .error (liftFault fault) := by
  have enough : ¬ (frame 4 body ++ rest).length < 4 := by
    simp only [List.length_append, frame_length]
    omega
  have size : BigEndian.decode ((frame 4 body ++ rest).take 4) = body.length := by
    rw [List.take_append_of_le_length (by simp), decode_prefix 4 body fits]
  have tail : (frame 4 body ++ rest).drop 4 = body ++ rest := by
    rw [List.drop_append_of_le_length (by simp), drop_prefix]
  rw [readMessage, if_neg enough]
  simp only [size, tail, List.length_append, List.take_left, List.drop_left]
  apply (if_neg (by omega)).trans
  cases Message.deserialize profile body <;> rfl

/-- No message comes back from its own serialization: the parser would need the
length prefix in front of the body to find that many bytes. -/
theorem read_message_differs (profile : Profile) (buf rest left stream : Bytes)
    (message : Message) (fits : MessageFits message) :
    readMessage profile buf (message.serialize ++ rest) ≠ .ok (message, left, stream) := by
  intro same
  obtain ⟨framed, size⟩ := serialize_framed message fits
  rw [framed, read_message_frame profile buf _ rest size] at same
  cases parsed : Message.deserialize profile (messageBody message) with
  | error fault => simp [parsed] at same
  | ok pair =>
      obtain ⟨found, remaining⟩ := pair
      simp only [parsed, Except.ok.injEq, Prod.mk.injEq] at same
      obtain ⟨rfl, rfl, rfl⟩ := same
      -- The message needs four bytes more than its body has.
      have short := deserialize_shrinks profile _ _ _ parsed
      have long := congrArg List.length framed
      rw [frame_length] at long
      omega

/-- Reading the messages off the stream one after the other, each call taking
exactly the bytes of its own message, until the stream is empty. -/
def ReadsBack (profile : Profile) : Bytes → Bytes → List Message → Prop
  | _, stream, [] => stream = []
  | buf, stream, message :: rest =>
      ∃ left remaining, readMessage profile buf stream = .ok (message, left, remaining) ∧
        stream = message.serialize ++ remaining ∧ ReadsBack profile left remaining rest

theorem reads_back_iff_empty (profile : Profile) (buf : Bytes) (messages : List Message)
    (fits : ∀ message ∈ messages, MessageFits message) :
    ReadsBack profile buf (messages.flatMap Message.serialize) messages ↔ messages = [] := by
  cases messages with
  | nil => simp [ReadsBack]
  | cons message rest =>
      simp only [ReadsBack, List.flatMap_cons, reduceCtorEq, iff_false, not_exists, not_and]
      intro left remaining same
      exact absurd same (read_message_differs profile buf _ left remaining message
        (fits message List.mem_cons_self))

theorem reads_back_interested :
    ReadsBack .wrapping [] ([Message.interested].flatMap Message.serialize) [.interested] ↔
      [Message.interested] = [] :=
  reads_back_iff_empty .wrapping [] [.interested] (by simp [MessageFits])

/-- A lone choke message is rejected as too short. -/
theorem choke_not_read_back :
    (∀ message ∈ [Message.choke], MessageFits message) ∧
      ¬ ReadsBack .wrapping [] ([Message.choke].flatMap Message.serialize) [.choke] := by
  refine ⟨by simp [MessageFits], ?_⟩
  rintro ⟨left, remaining, same, -⟩
  have rejected : readMessage .wrapping [] ([Message.choke].flatMap Message.serialize) =
      .error (.error (.message .messageTooShort)) := by decide
  rw [rejected] at same
  cases same

end Awaited

section Polled

def arrivedBytes : Turn → Bytes
  | .arrive bytes => bytes
  | _ => []

def arrived (turns : List Turn) : Bytes := turns.flatMap arrivedBytes

def deserializedFrame : Effect → Option Bytes
  | .deserialized frame => some frame
  | _ => none

def frames (log : List Effect) : List Bytes := log.filterMap deserializedFrame

/-- What has been parsed is a beginning of the stream's bodies, and where a read
of a length prefix starts, exactly these frames have been consumed. -/
def OnFrames (bodies : List Bytes) (past : List Turn) (conn : Connection)
    (log : List Effect) : Prop :=
  ∃ count, count ≤ bodies.length ∧ frames log = bodies.take count ∧
    (conn.outcome = none → conn.reading = .lengthPrefix [] →
      arrived past = stream 4 (bodies.take count) ++ conn.inbound)

/-- Every command of the run finds the pending read before its first byte. -/
def Untorn (profile : Profile) (bitfield : Option Bytes) (turns : List Turn) : Prop :=
  ∀ past command conn log, past ++ [.command command] <+: turns →
    runFrom profile bitfield past = some (conn, log) → conn.outcome = none →
      conn.reading = .lengthPrefix []

def pending (conn : Connection) : Bytes :=
  match conn.reading with
  | .lengthPrefix lengthBuf => lengthBuf
  | .body received => BigEndian.encode 4 conn.buf.length ++ conn.buf.take received

def Progressing (conn : Connection) : Prop :=
  match conn.reading with
  | .lengthPrefix lengthBuf => lengthBuf.length < 4
  | .body received => received < conn.buf.length ∧ Fits 4 conn.buf

def Tracks (bodies : List Bytes) (past : List Turn) (conn : Connection)
    (log : List Effect) : Prop :=
  ∃ count, count ≤ bodies.length ∧ frames log = bodies.take count ∧
    (conn.outcome = none → Progressing conn ∧
      arrived past = stream 4 (bodies.take count) ++ pending conn ++ conn.inbound)

theorem frames_append (first second : List Effect) :
    frames (first ++ second) = frames first ++ frames second := by
  simp [frames]

theorem arrived_snoc (past : List Turn) (next : Turn) :
    arrived (past ++ [next]) = arrived past ++ arrivedBytes next := by
  simp [arrived]

theorem arrived_began (past turns : List Turn) (began : past <+: turns) :
    arrived past <+: arrived turns := by
  obtain ⟨rest, rfl⟩ := began
  exact ⟨arrived rest, by simp [arrived]⟩

theorem pending_empty (conn : Connection) (empty : pending conn = []) :
    conn.reading = .lengthPrefix [] := by
  cases here : conn.reading with
  | lengthPrefix lengthBuf => simpa [pending, here] using empty
  | body received =>
      have length := congrArg List.length empty
      simp [pending, here] at length

theorem finish_read_frames (profile : Profile) (conn finish : Connection)
    (effects : List Effect) (ended : finishRead profile conn = (finish, effects)) :
    frames effects = [conn.buf] ∧ finish.inbound = conn.inbound ∧
      (finish.outcome = none → finish.reading = .lengthPrefix []) := by
  have silent : ∀ events : List PeerEvent, frames (events.map .event) = [] := by
    intro events
    simp [frames, deserializedFrame, Function.comp_def]
  unfold finishRead at ended
  split at ended <;> obtain ⟨rfl, rfl⟩ := Prod.mk.inj ended
  · rename_i message left parsed
    refine ⟨?_, rfl, fun _ => rfl⟩
    change conn.buf :: frames _ = _
    rw [silent]
  · exact ⟨rfl, rfl, fun live => by cases live⟩

theorem command_frames (conn after : Connection) (command : ManagerCommand)
    (effects : List Effect) (ran : handleManagerCommand conn command = (after, effects)) :
    frames effects = [] ∧ after.inbound = conn.inbound ∧ after.reading = conn.reading ∧
      after.outcome = conn.outcome := by
  unfold handleManagerCommand at ran
  split at ran <;> obtain ⟨rfl, rfl⟩ := Prod.mk.inj ran <;> exact ⟨rfl, rfl, rfl, rfl⟩

theorem tracks_frame (profile : Profile) (bodies : List Bytes) (past : List Turn)
    (conn finish : Connection) (log effects : List Effect) (count : Nat)
    (fits : ∀ body ∈ bodies, Fits 4 body) (whole : arrived past <+: stream 4 bodies)
    (parsed : frames log = bodies.take count) (size : Fits 4 conn.buf)
    (position : arrived past =
      stream 4 (bodies.take count) ++ frame 4 conn.buf ++ conn.inbound)
    (ended : finishRead profile conn = (finish, effects)) :
    Tracks bodies past finish (log ++ effects) := by
  obtain ⟨emitted, inbound, fresh⟩ := finish_read_frames profile conn finish effects ended
  have parts : stream 4 bodies =
      stream 4 (bodies.take count) ++ stream 4 (bodies.drop count) := by
    rw [stream, stream, stream, ← List.flatMap_append, List.take_append_drop]
  -- The frames before this one stand in front on both sides.
  have heads : frame 4 conn.buf ++ conn.inbound <+: stream 4 (bodies.drop count) := by
    rw [position, parts, List.append_assoc] at whole
    exact (List.prefix_append_right_inj _).mp whole
  have next := frame_heads_stream 4 conn.buf conn.inbound (bodies.drop count) (by decide) size
    (fun body inside => fits body (List.mem_of_mem_drop inside)) heads
  have here : bodies[count]? = some conn.buf := by
    rwa [List.head?_drop] at next
  have inside : count < bodies.length := (List.getElem?_eq_some_iff.mp here).1
  refine ⟨count + 1, inside, ?_, ?_⟩
  · rw [frames_append, parsed, emitted, List.take_add_one, here]
    rfl
  · intro live
    have start := fresh live
    refine ⟨by simp [Progressing, start], ?_⟩
    rw [stream_take_succ 4 bodies count conn.buf here, inbound, position]
    simp [pending, start]

theorem tracks_snoc (profile : Profile) (bodies : List Bytes) (past : List Turn)
    (next : Turn) (conn after : Connection) (log effects : List Effect)
    (fits : ∀ body ∈ bodies, Fits 4 body)
    (whole : arrived (past ++ [next]) <+: stream 4 bodies)
    (untorn : ∀ command, next = .command command → conn.reading = .lengthPrefix [])
    (holds : Tracks bodies past conn log)
    (turned : turn profile conn next = some (after, effects)) :
    Tracks bodies (past ++ [next]) after (log ++ effects) := by
  obtain ⟨live, path⟩ := turn_turned profile conn after next effects turned
  obtain ⟨count, there, parsed, position⟩ := holds
  obtain ⟨progress, position⟩ := position live
  have later : arrived (past ++ [next]) = stream 4 (bodies.take count) ++ pending conn ++
      conn.inbound ++ arrivedBytes next := by
    rw [arrived_snoc, position]
  cases path with
  | arrive bytes =>
      exact ⟨count, there, by simpa using parsed, fun _ =>
        ⟨progress, by simpa [List.append_assoc, arrivedBytes, pending] using later⟩⟩
  | commandsClosed => exact ⟨count, there, by simpa using parsed, fun going => by cases going⟩
  | fails => exact ⟨count, there, by simpa using parsed, fun going => by cases going⟩
  | inPrefix read stale lengthBuf some_bytes inside here short =>
      refine ⟨count, there, by simpa using parsed, fun _ => ⟨short, ?_⟩⟩
      rw [later]
      simp [pending, here, arrivedBytes]
  -- The buffer now has the length that the prefix announced, so its length encodes the prefix.
  | opened read stale lengthBuf inside here full width more =>
      have length_bytes :
          BigEndian.encode 4 stale.length = lengthBuf ++ conn.inbound.take read := by
        rw [width, ← full, BigEndian.encode_decode]
      have bound := BigEndian.decode_lt (lengthBuf ++ conn.inbound.take read)
      rw [full, ← width] at bound
      refine ⟨count, there, by simpa using parsed, fun _ => ⟨⟨?_, bound⟩, ?_⟩⟩
      · exact List.length_pos_iff.mpr more
      · rw [later]
        simp [pending, here, arrivedBytes, length_bytes]
  | emptyBody read lengthBuf finish effects inside here full width ended =>
      have length_bytes : BigEndian.encode 4 0 = lengthBuf ++ conn.inbound.take read := by
        rw [width, ← full, BigEndian.encode_decode]
      refine tracks_frame profile bodies _ _ after log effects count fits whole parsed
        (by simp [Fits]) ?_ ended
      rw [later]
      simp [pending, here, arrivedBytes, frame, length_bytes]
  -- The bytes at the front of the buffer are those read so far; the rest may be stale.
  | inBody read stale received inside here short =>
      simp only [Progressing, here] at progress
      have width : (conn.inbound.take read).length = read := List.length_take_of_le inside
      have same := ByteImage.overwrite_length conn.buf received (conn.inbound.take read) (by omega)
      have front := ByteImage.take_overwrite conn.buf received (conn.inbound.take read) (by omega)
      rw [width] at front
      refine ⟨count, there, by simpa using parsed, fun _ => ⟨⟨?_, ?_⟩, ?_⟩⟩
      · simpa [same] using short
      · simpa [Fits, same] using progress.2
      · rw [later]
        simp [pending, here, arrivedBytes, same, front]
  | finished read stale received finish effects inside here full ended =>
      simp only [Progressing, here] at progress
      have width : (conn.inbound.take read).length = read := List.length_take_of_le inside
      have same := ByteImage.overwrite_length conn.buf received (conn.inbound.take read) (by omega)
      have front := ByteImage.take_overwrite conn.buf received (conn.inbound.take read) (by omega)
      rw [width, full, ← same, List.take_length] at front
      refine tracks_frame profile bodies _ _ after log effects count fits whole parsed
        (by simpa [Fits, same] using progress.2) ?_ ended
      rw [later]
      rw [frame, same, front]
      simp [pending, here, arrivedBytes]
  | command command after effects ran =>
      obtain ⟨nothing, inbound, reading, outcome⟩ := command_frames _ after command effects ran
      -- The dropped read had consumed nothing.
      have start := untorn command rfl
      refine ⟨count, there, by simp [frames_append, nothing, parsed], fun _ => ⟨?_, ?_⟩⟩
      · simp [Progressing, reading]
      · rw [later, inbound]
        simp [pending, reading, start, arrivedBytes]

theorem run_tracks (profile : Profile) (bitfield : Option Bytes) (turns : List Turn)
    (bodies : List Bytes) (conn : Connection) (log : List Effect)
    (fits : ∀ body ∈ bodies, Fits 4 body) (whole : arrived turns <+: stream 4 bodies)
    (untorn : Untorn profile bitfield turns)
    (ran : runFrom profile bitfield turns = some (conn, log)) :
    Tracks bodies turns conn log := by
  refine run_from_history profile bitfield turns (Tracks bodies) ?_ ?_
    turns (List.prefix_refl turns) conn log ran
  · refine ⟨0, Nat.zero_le _, ?_, fun _ => ?_⟩ <;> cases bitfield <;>
      simp [sendBitfield, sendMessage, Connection.new, frames, deserializedFrame, Progressing,
        arrived, stream, pending]
  · intro past next conn log after effects began ran holds turned
    have live := (turn_turned profile conn after next effects turned).1
    refine tracks_snoc profile bodies past next conn after log effects fits
      ((arrived_began _ _ began).trans whole) ?_ holds turned
    rintro command rfl
    exact untorn past command conn log began ran live

theorem tracks_on_frames (bodies : List Bytes) (past : List Turn) (conn : Connection)
    (log : List Effect) (holds : Tracks bodies past conn log) :
    OnFrames bodies past conn log := by
  obtain ⟨count, there, parsed, position⟩ := holds
  refine ⟨count, there, parsed, fun live start => ?_⟩
  have place := (position live).2
  simpa [pending, start] using place

/-- A command in the middle of a frame leaves the next read inside that frame. -/
theorem torn_off_frames (profile : Profile) (bitfield : Option Bytes) (bodies : List Bytes)
    (past : List Turn) (command : ManagerCommand) (conn : Connection) (log : List Effect)
    (live : conn.outcome = none) (holds : Tracks bodies past conn log)
    (ran : runFrom profile bitfield past = some (conn, log))
    (right : ∀ after later,
      runFrom profile bitfield (past ++ [.command command]) = some (after, later) →
        OnFrames bodies (past ++ [.command command]) after later) :
    conn.reading = .lengthPrefix [] := by
  obtain ⟨count, there, parsed, position⟩ := holds
  cases ended : handleManagerCommand { conn with reading := .lengthPrefix [] } command with
  | mk after effects =>
      obtain ⟨nothing, inbound, reading, outcome⟩ := command_frames _ after command effects ended
      have turned : turn profile conn (.command command) = some (after, effects) := by
        simpa [turn, live] using ended
      obtain ⟨other, within, again, restarted⟩ := right after _
        (run_from_snoc profile bitfield past _ conn after log effects ran turned)
      have same : bodies.take other = bodies.take count := by
        rw [← again, frames_append, nothing, List.append_nil, parsed]
      -- The stream position holds for both the dropped and the new read, so nothing was pending.
      have landed := restarted (outcome.trans live) reading
      rw [arrived_snoc, (position live).2, same, inbound] at landed
      apply pending_empty
      simpa [arrivedBytes] using landed

/-- Reads stay on frame boundaries in every state of a run exactly when no
command of the run drops a read that has begun. -/
theorem inbound_on_frames_iff (profile : Profile) (bitfield : Option Bytes)
    (turns : List Turn) (bodies : List Bytes) (fits : ∀ body ∈ bodies, Fits 4 body)
    (whole : arrived turns <+: stream 4 bodies) :
    (∀ past conn log, past <+: turns → runFrom profile bitfield past = some (conn, log) →
      OnFrames bodies past conn log) ↔ Untorn profile bitfield turns := by
  constructor
  · intro right
    -- Up to the command in question no read was torn, so the position is known.
    suffices every : ∀ past, past <+: turns → Untorn profile bitfield past from
      every turns (List.prefix_refl turns)
    intro past
    induction past using List.reverseRecOn with
    | nil =>
        intro _ earlier command conn log inside
        simp at inside
    | append_singleton past next ih =>
        intro began earlier command conn log inside ran live
        have start := (List.prefix_append past [next]).trans began
        rcases List.prefix_concat_iff.mp inside with last | before
        · obtain ⟨rfl, rfl⟩ := by simpa using List.append_inj' last rfl
          have tracked := run_tracks profile bitfield earlier bodies conn log fits
            ((arrived_began earlier turns start).trans whole) (ih start) ran
          exact torn_off_frames profile bitfield bodies earlier command conn log live tracked ran
            (fun after later reached => right _ after later began reached)
        · exact ih start earlier command conn log before ran live
  · intro untorn past conn log began ran
    refine tracks_on_frames bodies past conn log (run_tracks profile bitfield past bodies conn
      log fits ((arrived_began past turns began).trans whole) ?_ ran)
    intro earlier command other seen inside
    exact untorn earlier command other seen (inside.trans began)

theorem inbound_on_frames_keep_alive :
    (∀ past conn log, past <+: [Turn.arrive [0, 0, 0, 0], .command .choke] →
      runFrom .wrapping none past = some (conn, log) → OnFrames [[]] past conn log) ↔
        Untorn .wrapping none [.arrive [0, 0, 0, 0], .command .choke] :=
  inbound_on_frames_iff .wrapping none [.arrive [0, 0, 0, 0], .command .choke] [[]]
    (by simp [Fits]) (by decide)

/-- One byte of a choke frame is read, then a keep-alive command drops the read. -/
theorem torn_choke_off_frames :
    (∀ body ∈ [[(0 : UInt8)]], Fits 4 body) ∧ arrived [.arrive [0, 0, 0, 1, 0], .poll 1 [],
        .command .keepAlive] <+: stream 4 [[0]] ∧
      ¬ ∀ past conn log,
        past <+: [Turn.arrive [0, 0, 0, 1, 0], .poll 1 [], .command .keepAlive] →
        runFrom .wrapping none past = some (conn, log) → OnFrames [[0]] past conn log := by
  refine ⟨by simp [Fits], by decide, ?_⟩
  intro right
  obtain ⟨count, within, parsed, position⟩ := right _ _ _ (List.prefix_refl _) rfl
  have none_parsed : List.take count [[(0 : UInt8)]] = [] := parsed.symm
  have place := position rfl rfl
  rw [none_parsed] at place
  revert place
  decide

end Polled

end MotteSeed.InboundStream
