import MotteSeed.Toolkit.Exchange

/-! A client and a server over a network that keeps no promises: a datagram may be lost,
come twice or overtake another. The network only never makes one up. What has been asked
and what has been answered to it stands beside the parties, and neither reads it. -/
namespace Toolkit.Unreliable
open Runs Exchange

universe u
variable {Client Server Turn Datagram : Type u}

/-- A client takes turns of its own, and datagrams as they arrive. A server answers each
request with any number of replies. -/
structure Parties (Client Server Turn Datagram : Type u) where
  turn : Client → Turn → Option (Client × List Datagram)
  arrive : Client → Datagram → Client
  serve : Server → Datagram → Server × List Datagram

structure Net (Client Server Datagram : Type u) where
  client : Client
  server : Server
  asked : List Datagram
  served : List (Datagram × Datagram)

inductive Act (Turn Datagram : Type u) where
  | turn (turn : Turn)
  | serve (request : Datagram)
  | deliver (reply : Datagram)

def Net.start (client : Client) (server : Server) : Net Client Server Datagram :=
  { client, server, asked := [], served := [] }

section Steps

variable [DecidableEq Datagram] (parties : Parties Client Server Turn Datagram)

def Parties.step (net : Net Client Server Datagram) :
    Act Turn Datagram → Option (Net Client Server Datagram × List Datagram)
  | .turn turn => (parties.turn net.client turn).map fun moved =>
      ({ net with client := moved.1, asked := net.asked ++ moved.2 }, moved.2)
  | .serve request =>
      if request ∈ net.asked then
        let answered := parties.serve net.server request
        some ({ net with
          server := answered.1
          served := net.served ++ answered.2.map (Prod.mk request) }, [])
      else none
  | .deliver reply =>
      if reply ∈ net.served.map Prod.snd then
        some ({ net with client := parties.arrive net.client reply }, [])
      else none

def Parties.machine : Machine (Net Client Server Datagram) (Act Turn Datagram) Datagram :=
  ⟨parties.step⟩

inductive Stepped (net : Net Client Server Datagram) :
    Act Turn Datagram → Net Client Server Datagram → Prop where
  | turned (turn : Turn) (next : Client) (sent : List Datagram)
      (moved : parties.turn net.client turn = some (next, sent)) :
      Stepped net (.turn turn) { net with client := next, asked := net.asked ++ sent }
  | served (request : Datagram) (asked : request ∈ net.asked) :
      Stepped net (.serve request) { net with
        server := (parties.serve net.server request).1
        served := net.served ++ (parties.serve net.server request).2.map (Prod.mk request) }
  | delivered (request reply : Datagram) (known : (request, reply) ∈ net.served) :
      Stepped net (.deliver reply) { net with client := parties.arrive net.client reply }

theorem step_stepped (net next : Net Client Server Datagram) (act : Act Turn Datagram)
    (log : List Datagram) (stepped : parties.machine.step net act = some (next, log)) :
    Stepped parties net act next := by
  cases act with
  | turn turn =>
      obtain ⟨⟨client, sent⟩, moved, same⟩ := Option.map_eq_some_iff.mp stepped
      obtain ⟨rfl, rfl⟩ := Prod.mk.inj same
      exact .turned turn client sent moved
  | serve request =>
      change parties.step net (.serve request) = _ at stepped
      rw [Parties.step] at stepped
      split at stepped
      · rename_i asked
        obtain ⟨rfl, -⟩ := Prod.mk.inj (Option.some.inj stepped)
        exact .served request asked
      · cases stepped
  | deliver reply =>
      change parties.step net (.deliver reply) = _ at stepped
      rw [Parties.step] at stepped
      split at stepped
      · rename_i known
        obtain ⟨rfl, -⟩ := Prod.mk.inj (Option.some.inj stepped)
        obtain ⟨⟨request, _⟩, member, rfl⟩ := List.mem_map.mp known
        exact .delivered request _ member
      · cases stepped

/-- The rule for a client that relies on what its server guarantees of each reply. -/
theorem run_relies (answers : Datagram → Datagram → Prop)
    (conforms : ∀ server request, ∀ reply ∈ (parties.serve server request).2,
      answers request reply)
    (inv : Client → List Datagram → List (Datagram × Datagram) → Prop)
    (turns : ∀ client asked served turn next sent, inv client asked served →
      parties.turn client turn = some (next, sent) → inv next (asked ++ sent) served)
    (serves : ∀ client asked served request (replies : List Datagram),
      inv client asked served → request ∈ asked → (∀ reply ∈ replies, answers request reply) →
      inv client asked (served ++ replies.map (Prod.mk request)))
    (arrives : ∀ client asked served request reply, inv client asked served →
      (request, reply) ∈ served → inv (parties.arrive client reply) asked served)
    (start finish : Net Client Server Datagram) (acts : List (Act Turn Datagram))
    (log : List Datagram) (initial : inv start.client start.asked start.served)
    (ran : run parties.machine start acts = some (finish, log)) :
    inv finish.client finish.asked finish.served := by
  refine run_state_invariant parties.machine (fun net => inv net.client net.asked net.served)
    ?_ start finish acts log initial ran
  intro net act next emitted holds moved
  cases step_stepped parties net next act emitted moved with
  | turned turn client sent taken => exact turns _ _ _ turn client sent holds taken
  | served request asked =>
      exact serves _ _ _ request _ holds asked fun reply => conforms net.server request reply
  | delivered request reply known => exact arrives _ _ _ request reply holds known

/-- The turns of a client alone, as it takes them while the network does nothing. -/
def Parties.alone : Machine Client Turn Datagram := ⟨parties.turn⟩

theorem run_alone (net : Net Client Server Datagram) (turns : List Turn) (next : Client)
    (sent : List Datagram) (ran : run parties.alone net.client turns = some (next, sent)) :
    run parties.machine net (turns.map .turn) =
      some ({ net with client := next, asked := net.asked ++ sent }, sent) := by
  induction turns generalizing net sent with
  | nil =>
      obtain ⟨rfl, rfl⟩ := by simpa using ran
      simp
  | cons turn rest ih =>
      obtain ⟨middle, first, later, moved, tail, rfl⟩ := (run_cons_iff _ _ _ _ _ _).mp ran
      have stepped : parties.machine.step net (.turn turn) =
          some ({ net with client := middle, asked := net.asked ++ first }, first) := by
        change (parties.turn net.client turn).map _ = _
        rw [show parties.turn net.client turn = some (middle, first) from moved]
        rfl
      have goes := ih { net with client := middle, asked := net.asked ++ first } later tail
      rw [List.append_assoc] at goes
      exact (run_cons_iff _ _ _ _ _ _).mpr ⟨_, first, later, stepped, goes, rfl⟩

theorem run_served (net : Net Client Server Datagram) (request reply : Datagram)
    (asked : request ∈ net.asked) (one : (parties.serve net.server request).2 = [reply]) :
    run parties.machine net [.serve request, .deliver reply] =
      some (⟨parties.arrive net.client reply, (parties.serve net.server request).1, net.asked,
        net.served ++ [(request, reply)]⟩, []) := by
  have serves : parties.machine.step net (.serve request) =
      some (⟨net.client, (parties.serve net.server request).1, net.asked,
        net.served ++ [(request, reply)]⟩, []) := by
    change parties.step net (.serve request) = _
    simp only [Parties.step, if_pos asked, one, List.map_cons, List.map_nil]
  have known : reply ∈ (net.served ++ [(request, reply)]).map Prod.snd := by simp
  refine (run_cons_iff _ _ _ _ _ _).mpr ⟨_, [], [], serves,
    (run_cons_iff _ _ _ _ _ _).mpr ⟨_, [], [], if_pos known, rfl, rfl⟩, rfl⟩

theorem run_exchanged (net : Net Client Server Datagram) (before after : List Turn)
    (request reply : Datagram) (waiting last : Client) (sent more : List Datagram)
    (sends : run parties.alone net.client before = some (waiting, sent)) (here : request ∈ sent)
    (one : (parties.serve net.server request).2 = [reply])
    (reads : run parties.alone (parties.arrive waiting reply) after = some (last, more)) :
    run parties.machine net
        (before.map .turn ++ ([.serve request, .deliver reply] ++ after.map .turn)) =
      some (⟨last, (parties.serve net.server request).1, net.asked ++ sent ++ more,
        net.served ++ [(request, reply)]⟩, sent ++ more) := by
  have asks := run_alone parties net before waiting sent sends
  have answered := run_served parties { net with client := waiting, asked := net.asked ++ sent }
    request reply (List.mem_append_right net.asked here) one
  have hears := run_alone parties
    ⟨parties.arrive waiting reply, (parties.serve net.server request).1, net.asked ++ sent,
      net.served ++ [(request, reply)]⟩ after last more reads
  exact (run_append_iff _ _ _ _ _ _).mpr ⟨_, sent, more, asks,
    (run_append_iff _ _ _ _ _ _).mpr ⟨_, [], more, answered, hears, rfl⟩, rfl⟩

end Steps

section Exchanges

variable {Id Reply Value Error : Type u} (protocol : Protocol Id Datagram Reply Value Error)
  (ids : Nat → Id)

/-- All datagrams in reach are `known`, the request of the waiting attempt was `asked`
last, and so was that of the attempt that has returned a value, read from a known one. -/
structure Grounded (known : Datagram → Prop) (asked : List Datagram)
    (state : State Datagram Value Error) : Prop where
  queued : ∀ datagram ∈ state.queue, known datagram
  current : ∀ attempt, state.phase = .waiting attempt →
    asked.getLast? = some (protocol.request attempt (ids attempt))
  accepted : ∀ value, state.phase = .returned (.ok value) → ∃ attempt datagram reply,
    asked.getLast? = some (protocol.request attempt (ids attempt)) ∧ known datagram ∧
      protocol.receive datagram = .ok reply ∧ protocol.matched (ids attempt) reply = true ∧
      value = protocol.value reply

theorem grounded_mono (known more : Datagram → Prop) (asked : List Datagram)
    (state : State Datagram Value Error) (wider : ∀ datagram, known datagram → more datagram)
    (grounded : Grounded protocol ids known asked state) :
    Grounded protocol ids more asked state := by
  refine ⟨fun datagram member => wider datagram (grounded.queued datagram member),
    grounded.current, fun value returned => ?_⟩
  obtain ⟨attempt, datagram, reply, last, here, rest⟩ := grounded.accepted value returned
  exact ⟨attempt, datagram, reply, last, wider datagram here, rest⟩

theorem grounded_arrive (known : Datagram → Prop) (asked : List Datagram)
    (state : State Datagram Value Error) (datagram : Datagram) (here : known datagram)
    (grounded : Grounded protocol ids known asked state) :
    Grounded protocol ids known asked ⟨state.queue ++ [datagram], state.phase⟩ := by
  refine ⟨fun other member => ?_, grounded.current, grounded.accepted⟩
  rcases List.mem_append.mp member with old | new
  · exact grounded.queued other old
  · rw [List.mem_singleton.mp new]
    exact here

theorem grounded_start (known : Datagram → Prop) (asked queue : List Datagram) (attempt : Nat)
    (queued : ∀ datagram ∈ queue, known datagram) :
    Grounded protocol ids known asked ⟨queue, protocol.start attempt⟩ := by
  rcases start_cases protocol attempt with ⟨_, begins⟩ | ⟨_, ends⟩
  · rw [begins]
    exact ⟨queued, nofun, nofun⟩
  · rw [ends]
    exact ⟨queued, nofun, nofun⟩

/-- A turn of the client's own: it asks only what its protocol makes it ask. -/
theorem grounded_step (known : Datagram → Prop) (asked sent : List Datagram)
    (state next : State Datagram Value Error) (event : Event Datagram)
    (own : ∀ datagram, event ≠ .arrive datagram)
    (grounded : Grounded protocol ids known asked state)
    (stepped : (protocol.machine ids).step state event = some (next, sent)) :
    Grounded protocol ids known (asked ++ sent) next ∧
      ∀ request ∈ sent, ∃ attempt, request = protocol.request attempt (ids attempt) := by
  rcases step_cases protocol ids state next event sent stepped with
    ⟨datagram, same, -⟩ | ⟨attempt, -, phase, rfl, rfl⟩ |
      ⟨attempt, datagram, rest, -, rfl, rfl, rfl⟩ | ⟨attempt, -, rfl, rfl, rfl⟩
  · exact (own datagram same).elim
  · refine ⟨⟨grounded.queued, fun other same => ?_, nofun⟩, fun request member => ?_⟩
    · obtain rfl := Phase.waiting.inj same
      rw [List.getLast?_append]
      rfl
    · exact ⟨attempt, List.mem_singleton.mp member⟩
  · rw [List.append_nil]
    refine ⟨?_, nofun⟩
    have kept : ∀ other ∈ rest, known other := fun other member =>
      grounded.queued other (List.mem_cons_of_mem datagram member)
    rcases judge_cases protocol attempt (ids attempt) datagram with
      ⟨fault, -, ends⟩ | ⟨reply, received, fits, ends⟩ | ⟨reply, -, -, again⟩
    · rw [ends]
      exact ⟨kept, nofun, nofun⟩
    · rw [ends]
      refine ⟨kept, nofun, fun value same => ?_⟩
      obtain rfl := Except.ok.inj (Phase.returned.inj same)
      exact ⟨attempt, datagram, reply, grounded.current attempt rfl,
        grounded.queued datagram List.mem_cons_self, received, fits, rfl⟩
    · rw [again]
      exact grounded_start protocol ids known asked rest (attempt + 1) kept
  · rw [List.append_nil]
    exact ⟨grounded_start protocol ids known asked [] (attempt + 1) nofun, nofun⟩

end Exchanges

end Toolkit.Unreliable
