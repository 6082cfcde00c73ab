import MotteSeed.PeerConnection

/-! The conversation of one connection, message by message: what `handle_message` does
with each message received, and what each manager command says to the peer. The byte
level machine runs through such a conversation. -/
namespace MotteSeed.Conversation
open Toolkit Toolkit.Checked Toolkit.Runs PeerWire PeerConnection

/-- One turn of the `select!` loop that is carried to its end. -/
inductive Talk where
  | received (message : Message)
  | commanded (command : ManagerCommand)
  deriving DecidableEq

/-- `handle_manager_command` writes to the stream and leaves `PeerState` as it is. -/
def talk (state : PeerState) : Talk → PeerState × List PeerEvent
  | .received message => handleMessage state message
  | .commanded _ => (state, [])

def converse : Machine PeerState Talk PeerEvent := ⟨fun state next => some (talk state next)⟩

section ByteLevel

def eventOf : Effect → Option PeerEvent
  | .event event => some event
  | .sent _ | .deserialized _ => none

def turnCommand : Turn → Option ManagerCommand
  | .command command => some command
  | .arrive _ | .poll _ _ | .commandsClosed | .fails _ => none

def talkCommand : Talk → Option ManagerCommand
  | .commanded command => some command
  | .received _ => none

structure Carries (before after : PeerState) (turns : List Turn) (effects : List Effect)
    (talks : List Talk) : Prop where
  ran : run converse before talks = some (after, effects.filterMap eventOf)
  commands : talks.filterMap talkCommand = turns.filterMap turnCommand

theorem finish_read_carries (profile : Profile) (conn after : Connection) (count : Nat)
    (stale : Bytes) (effects : List Effect) (ended : finishRead profile conn = (after, effects)) :
    ∃ talks, Carries conn.state after.state [.poll count stale] effects talks := by
  unfold finishRead at ended
  cases parsed : Message.deserialize profile conn.buf with
  | error fault =>
      rw [parsed] at ended
      obtain ⟨rfl, rfl⟩ := Prod.mk.inj ended
      exact ⟨[], rfl, rfl⟩
  | ok pair =>
      obtain ⟨message, left⟩ := pair
      rw [parsed] at ended
      obtain ⟨rfl, rfl⟩ := Prod.mk.inj ended
      refine ⟨[.received message], ?_, rfl⟩
      have events : ((handleMessage conn.state message).2.map Effect.event).filterMap eventOf =
          (handleMessage conn.state message).2 := by
        rw [List.filterMap_map]
        exact List.filterMap_some
      simp only [run, converse, talk, List.append_nil]
      exact congrArg some (Prod.ext rfl events.symm)

theorem command_carries (conn after : Connection) (command : ManagerCommand)
    (effects : List Effect) (ran : handleManagerCommand conn command = (after, effects)) :
    Carries conn.state after.state [.command command] effects [.commanded command] := by
  unfold handleManagerCommand at ran
  split at ran
  all_goals
    obtain ⟨rfl, rfl⟩ := Prod.mk.inj ran
    exact ⟨rfl, rfl⟩

theorem turn_carries (profile : Profile) (conn after : Connection) (next : Turn)
    (effects : List Effect) (turned : turn profile conn next = some (after, effects)) :
    ∃ talks, Carries conn.state after.state [next] effects talks := by
  obtain ⟨-, cases_of⟩ := turn_turned profile conn after next effects turned
  cases cases_of with
  | arrive | inPrefix | opened | inBody | commandsClosed | fails => exact ⟨[], rfl, rfl⟩
  | emptyBody count lengthBuf _ _ there here full width ended =>
      have carried := finish_read_carries profile _ after count [] effects ended
      exact carried
  | finished count stale received _ _ there here full ended =>
      have carried := finish_read_carries profile _ after count stale effects ended
      exact carried
  | command command _ _ ran =>
      have carried := command_carries _ after command effects ran
      exact ⟨_, carried⟩

theorem carries_append (first second third : PeerState) (past later : List Turn)
    (log effects : List Effect) (talks more : List Talk)
    (before : Carries first second past log talks)
    (after : Carries second third later effects more) :
    Carries first third (past ++ later) (log ++ effects) (talks ++ more) := by
  refine ⟨?_, ?_⟩
  · rw [List.filterMap_append]
    exact (run_append_iff converse first third talks more _).mpr
      ⟨second, _, _, before.ran, after.ran, rfl⟩
  · rw [List.filterMap_append, List.filterMap_append, before.commands, after.commands]

/-- Every run of the byte level machine is a conversation with the same commands and the
same events. -/
theorem run_from_carries (profile : Profile) (bitfield : Option Bytes) (turns : List Turn)
    (finish : Connection) (log : List Effect)
    (ran : runFrom profile bitfield turns = some (finish, log)) :
    ∃ talks, Carries (PeerState.new none) finish.state turns log talks := by
  refine run_from_history profile bitfield turns
    (fun past conn log => ∃ talks, Carries (PeerState.new none) conn.state past log talks)
    ?_ ?_ turns (List.prefix_refl turns) finish log ran
  · cases bitfield with
    | none => exact ⟨[], rfl, rfl⟩
    | some bytes => exact ⟨[], rfl, rfl⟩
  · rintro past next conn log after effects - - ⟨talks, before⟩ turned
    obtain ⟨more, step⟩ := turn_carries profile conn after next effects turned
    exact ⟨talks ++ more, carries_append _ _ _ past [next] log effects talks more before step⟩

end ByteLevel

section Mirror

inductive Line where
  | received (message : Message)
  | sent (message : Message)

def talkLines : Talk → List Line
  | .received message => [.received message]
  | .commanded command => ((commandMessage command).map Line.sent).toList

def transcript (talks : List Talk) : List Line := talks.flatMap talkLines

def latest (told : Line → Option Bool) (initial : Bool) (lines : List Line) : Bool :=
  (lines.reverse.findSome? told).getD initial

def choking : Message → Option Bool
  | .choke => some true
  | .unChoke => some false
  | _ => none

def interest : Message → Option Bool
  | .interested => some true
  | .notInterested => some false
  | _ => none

def heard (told : Message → Option Bool) : Line → Option Bool
  | .received message => told message
  | .sent _ => none

def said (told : Message → Option Bool) : Line → Option Bool
  | .sent message => told message
  | .received _ => none

def Settles (request : UInt32 × UInt32 × UInt32) : Line → Prop
  | .received (.piece index begin _) => index = request.1 ∧ begin = request.2.1
  | .sent (.cancel index begin length) => (index, begin, length) = request
  | _ => False

def Outstanding (lines : List Line) (request : UInt32 × UInt32 × UInt32) : Prop :=
  ∃ before after,
    lines = before ++ .sent (.request request.1 request.2.1 request.2.2) :: after ∧
      ∀ line ∈ after, ¬ Settles request line

/-- The state says what the conversation so far says. -/
structure Mirrors (state : PeerState) (lines : List Line) : Prop where
  peerChoking : state.peerChoking = latest (heard choking) true lines
  peerInterested : state.peerInterested = latest (heard interest) false lines
  amChoking : state.amChoking = latest (said choking) true lines
  amInterested : state.amInterested = latest (said interest) false lines
  requested : ∀ request, request ∈ state.requestedBlocks ↔ Outstanding lines request

theorem latest_append (told : Line → Option Bool) (initial : Bool) (past lines : List Line) :
    latest told initial (past ++ lines) = latest told (latest told initial past) lines := by
  unfold latest
  rw [List.reverse_append, List.findSome?_append]
  cases lines.reverse.findSome? told <;> simp

theorem transcript_snoc (past : List Talk) (next : Talk) :
    transcript (past ++ [next]) = transcript past ++ talkLines next := by
  simp [transcript]

theorem converse_total (state : PeerState) (talks : List Talk) :
    ∃ finish log, run converse state talks = some (finish, log) := by
  induction talks generalizing state with
  | nil => exact ⟨state, [], rfl⟩
  | cons next rest ih =>
      obtain ⟨finish, log, ran⟩ := ih (talk state next).1
      exact ⟨finish, _, (run_cons_iff converse state finish next rest _).mpr
        ⟨_, _, log, rfl, ran, rfl⟩⟩

theorem own_side_initial (talks : List Talk) (state : PeerState) (log : List PeerEvent)
    (ran : run converse (PeerState.new none) talks = some (state, log)) :
    state.amChoking = true ∧ state.amInterested = false ∧ state.requestedBlocks = [] := by
  apply run_state_invariant converse
    (fun state => state.amChoking = true ∧ state.amInterested = false ∧
      state.requestedBlocks = []) ?_ _ state talks log ⟨rfl, rfl, rfl⟩ ran
  intro before next after events holds stepped
  obtain rfl : (talk before next).1 = after := congrArg Prod.fst (Option.some.inj stepped)
  cases next with
  | commanded command => exact holds
  | received message => cases message <;> exact holds

theorem peer_side_follows (talks : List Talk) (state : PeerState) (log : List PeerEvent)
    (ran : run converse (PeerState.new none) talks = some (state, log)) :
    state.peerChoking = latest (heard choking) true (transcript talks) ∧
      state.peerInterested = latest (heard interest) false (transcript talks) := by
  refine run_history converse (PeerState.new none) talks
    (fun past state _ =>
      state.peerChoking = latest (heard choking) true (transcript past) ∧
        state.peerInterested = latest (heard interest) false (transcript past))
    ⟨rfl, rfl⟩ ?_ talks (List.prefix_refl talks) state log ran
  rintro past next before _ after events - - ⟨choked, interested⟩ stepped
  obtain rfl : (talk before next).1 = after := congrArg Prod.fst (Option.some.inj stepped)
  rw [transcript_snoc, latest_append, latest_append, ← choked, ← interested]
  cases next with
  | commanded command => cases command <;> exact ⟨rfl, rfl⟩
  | received message => cases message <;> exact ⟨rfl, rfl⟩

theorem mirrors_iff_silent (talks : List Talk) (state : PeerState) (log : List PeerEvent)
    (ran : run converse (PeerState.new none) talks = some (state, log)) :
    Mirrors state (transcript talks) ↔
      latest (said choking) true (transcript talks) = true ∧
        latest (said interest) false (transcript talks) = false ∧
        ∀ request, ¬ Outstanding (transcript talks) request := by
  obtain ⟨choking_kept, interested_kept, none_requested⟩ := own_side_initial talks state log ran
  obtain ⟨choked, interested⟩ := peer_side_follows talks state log ran
  constructor
  · intro mirrors
    refine ⟨?_, ?_, fun request asked => ?_⟩
    · rw [← mirrors.amChoking, choking_kept]
    · rw [← mirrors.amInterested, interested_kept]
    · have member := (mirrors.requested request).mpr asked
      rw [none_requested] at member
      cases member
  · rintro ⟨still_choking, uninterested, quiet⟩
    refine ⟨choked, interested, ?_, ?_, fun request => ?_⟩
    · rw [choking_kept, still_choking]
    · rw [interested_kept, uninterested]
    · rw [none_requested]
      exact iff_of_false (List.not_mem_nil) (quiet request)

/-- The commands whose message the code keeps no record of, though it has a field for it. -/
def Unrecorded : ManagerCommand → Prop
  | .unchoke | .interested | .requestBlock _ _ _ => True
  | _ => False

theorem unrecorded_not_mirrored (past : List Talk) (command : ManagerCommand)
    (unrecorded : Unrecorded command) (state : PeerState) (log : List PeerEvent)
    (ran : run converse (PeerState.new none) (past ++ [.commanded command]) = some (state, log)) :
    ¬ Mirrors state (transcript (past ++ [.commanded command])) := by
  rw [mirrors_iff_silent _ state log ran, transcript_snoc, latest_append, latest_append]
  rintro ⟨still_choking, uninterested, quiet⟩
  cases command with
  | unchoke => cases still_choking
  | interested => cases uninterested
  | requestBlock index begin length =>
      exact quiet (index, begin, length) ⟨transcript past, [], rfl, by simp⟩
  | keepAlive | choke | notInterested | havePiece | cancelBlock | disconnect => cases unrecorded

theorem sent_line (talks : List Talk) (message : Message)
    (said : .sent message ∈ transcript talks) :
    ∃ command, .commanded command ∈ talks ∧ commandMessage command = some message := by
  obtain ⟨next, member, line⟩ := List.mem_flatMap.mp said
  cases next with
  | received other => simp [talkLines] at line
  | commanded command => exact ⟨command, member, by simpa [talkLines] using line⟩

theorem latest_initial (told : Message → Option Bool) (initial : Bool) (lines : List Line)
    (silent : ∀ message, .sent message ∈ lines → told message ≠ some (!initial)) :
    latest (said told) initial lines = initial := by
  unfold latest
  cases found : lines.reverse.findSome? (said told) with
  | none => rfl
  | some value =>
      obtain ⟨line, member, here⟩ := List.exists_of_findSome?_eq_some found
      cases line with
      | received message => cases here
      | sent message =>
          have other : value ≠ !initial := by
            rintro rfl
            exact silent message (List.mem_reverse.mp member) here
          simpa using other

theorem recorded_message (command : ManagerCommand) (message : Message)
    (recorded : ¬ Unrecorded command) (converted : commandMessage command = some message) :
    choking message ≠ some false ∧ interest message ≠ some true ∧
      ∀ index begin length, message ≠ .request index begin length := by
  cases command with
  | unchoke | interested | requestBlock => exact (recorded trivial).elim
  | disconnect => cases converted
  | keepAlive | choke | notInterested | havePiece | cancelBlock =>
      obtain rfl := Option.some.inj converted
      simp [choking, interest]

theorem recorded_silent (talks : List Talk)
    (recorded : ∀ command, .commanded command ∈ talks → ¬ Unrecorded command) :
    latest (said choking) true (transcript talks) = true ∧
      latest (said interest) false (transcript talks) = false ∧
      ∀ request, ¬ Outstanding (transcript talks) request := by
  have quiet : ∀ message, .sent message ∈ transcript talks → choking message ≠ some false ∧
      interest message ≠ some true ∧
      ∀ index begin length, message ≠ .request index begin length := by
    intro message member
    obtain ⟨command, commanded, converted⟩ := sent_line talks message member
    exact recorded_message command message (recorded command commanded) converted
  refine ⟨latest_initial choking true _ ?_, latest_initial interest false _ ?_, ?_⟩
  · exact fun message member => (quiet message member).1
  · exact fun message member => (quiet message member).2.1
  · rintro request ⟨before, after, split, -⟩
    have member : Line.sent (.request request.1 request.2.1 request.2.2) ∈ transcript talks := by
      rw [split]
      exact List.mem_append_right before List.mem_cons_self
    exact (quiet _ member).2.2 _ _ _ rfl

/-- In a run the state mirrors the conversation after each step exactly when the manager
never says `Unchoke`, `Interested` or `RequestBlock`. -/
theorem mirrors_iff_recorded (talks : List Talk) :
    (∀ past state log, past <+: talks → run converse (PeerState.new none) past =
        some (state, log) → Mirrors state (transcript past)) ↔
      ∀ command, .commanded command ∈ talks → ¬ Unrecorded command := by
  constructor
  · intro mirrored command member unrecorded
    obtain ⟨past, rest, rfl⟩ := List.append_of_mem member
    obtain ⟨state, log, ran⟩ :=
      converse_total (PeerState.new none) (past ++ [.commanded command])
    apply unrecorded_not_mirrored past command unrecorded state log ran
    exact mirrored _ state log ⟨rest, by simp⟩ ran
  · intro recorded past state log began ran
    apply (mirrors_iff_silent past state log ran).mpr
    exact recorded_silent past fun command member => recorded command (began.subset member)

/-- The manager says it is interested, and the flag stays down. -/
theorem interested_not_mirrored :
    ¬ ∀ past state log, past <+: [Talk.commanded .interested] →
      run converse (PeerState.new none) past = some (state, log) →
      Mirrors state (transcript past) := by
  intro mirrored
  exact unrecorded_not_mirrored [] .interested trivial (PeerState.new none) [] rfl
    (mirrored _ _ _ (List.prefix_refl _) rfl)

end Mirror

end MotteSeed.Conversation
