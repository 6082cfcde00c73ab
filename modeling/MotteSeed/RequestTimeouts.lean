import MotteSeed.PieceInvariant
import MotteSeed.Toolkit.Runs

/-! `reset_timeout_requests` over the life of a piece, through any requests, deliveries and
earlier resets. What a reset reports is read off the calls alone: the last request of a
block, if nothing has settled it and it is older than the timeout. -/
namespace MotteSeed.RequestTimeouts
open Toolkit Toolkit.HashTable Toolkit.Runs PeerWire TorrentMeta PieceStore PieceShape
  PieceInvariant

inductive PieceUse where
  | request (offset : Nat) (peerIp : PeerIp) (now : Nat)
  | receive (offset : Nat) (data : Bytes)
  | maskWritten
  | reset (order : IterOrder (Entry Nat Block)) (clock : Nat → Nat)

section Uses

variable (sha1 : Bytes → Hash)

def performUse (piece : Piece) : PieceUse → Piece × List (HashMap Nat PeerIp)
  | .request offset peerIp now => (piece.requestFromPeer offset peerIp now, [])
  | .receive offset data => ((piece.receiveBlock sha1 offset data).1, [])
  | .maskWritten => (piece.maskWritten, [])
  | .reset order clock =>
      let done := piece.resetTimeoutRequests order clock
      (done.1, [done.2])

def uses : Machine Piece PieceUse (HashMap Nat PeerIp) :=
  ⟨fun piece use => some (performUse sha1 piece use)⟩

/-- What ends the request that a block of this length got at this instant: a newer one,
data that is taken, or a reset behind the timeout. -/
def Settles (length : UInt32) (offset instant : Nat) : PieceUse → Prop
  | .request other _ _ => other = offset
  | .receive other data => other = offset ∧ UInt32.ofNat data.length = length
  | .maskWritten => False
  | .reset _ clock => Block.timeout < clock offset - instant

def Outstanding (start : Piece) (past : List PieceUse) (length : UInt32) (offset : Nat)
    (peerIp : PeerIp) (instant : Nat) : Prop :=
  Remembers (uses sha1) (fun _ use => use = .request offset peerIp instant)
    (Settles length offset instant) start past

end Uses

section Steps

def stateAt (piece : Piece) (offset : Nat) : Option BlockState :=
  (piece.blocks.lookup offset).map Block.state

theorem reset_cases (block : Block) (now : Nat) :
    (∃ peerIp instant, block.state = .requested peerIp instant ∧
      Block.timeout < now - instant ∧ block.reset now = (block.cancle, some peerIp)) ∨
    ((∀ peerIp instant, block.state = .requested peerIp instant →
      ¬ Block.timeout < now - instant) ∧ block.reset now = (block, none)) := by
  unfold Block.reset
  cases held : block.state with
  | requested peerIp instant =>
      by_cases overdue : now - instant > Block.timeout
      · exact Or.inl ⟨peerIp, instant, rfl, overdue, if_pos overdue⟩
      · refine Or.inr ⟨fun other earlier same => ?_, if_neg overdue⟩
        obtain ⟨-, rfl⟩ := BlockState.requested.inj same
        exact overdue
  | missing | received | written => exact Or.inr ⟨nofun, rfl⟩

theorem reset_state (block : Block) (now : Nat) (peerIp : PeerIp) (instant : Nat) :
    (block.reset now).1.state = .requested peerIp instant ↔
      block.state = .requested peerIp instant ∧ ¬ Block.timeout < now - instant := by
  rcases reset_cases block now with ⟨ip, earlier, held, overdue, same⟩ | ⟨fresh, same⟩
  · rw [same, held]
    refine iff_of_false nofun ?_
    rintro ⟨asked, fresh⟩
    obtain ⟨-, rfl⟩ := BlockState.requested.inj asked
    exact fresh overdue
  · rw [same]
    exact ⟨fun held => ⟨held, fresh peerIp instant held⟩, And.left⟩

theorem reset_reports (block : Block) (now : Nat) (peerIp : PeerIp) :
    (block.reset now).2 = some peerIp ↔
      ∃ instant, block.state = .requested peerIp instant ∧ Block.timeout < now - instant := by
  rcases reset_cases block now with ⟨ip, earlier, held, overdue, same⟩ | ⟨fresh, same⟩
  · rw [same, held, Option.some.injEq]
    constructor
    · rintro rfl
      exact ⟨earlier, rfl, overdue⟩
    · rintro ⟨instant, asked, -⟩
      exact (BlockState.requested.inj asked).1
  · rw [same]
    exact iff_of_false nofun fun ⟨instant, held, overdue⟩ => fresh peerIp instant held overdue

theorem all_received_unrequested (piece : Piece) (all : AllReceived piece) (offset : Nat)
    (peerIp : PeerIp) (instant : Nat) :
    stateAt piece offset ≠ some (.requested peerIp instant) := by
  intro same
  obtain ⟨block, found, state⟩ := Option.map_eq_some_iff.mp same
  obtain ⟨bytes, received⟩ := all offset block found
  rw [state] at received
  cases received

theorem delivered_requested (sha1 : Bytes → Hash) (piece after : Piece) (tiled : Tiled piece)
    (other : Nat) (data : Bytes) (delivered : Delivered sha1 piece other data after)
    (offset : Nat) (peerIp : PeerIp) (instant : Nat) :
    stateAt after offset = some (.requested peerIp instant) ↔
      stateAt (withData piece other data) offset = some (.requested peerIp instant) := by
  have shaped := tiled_same_shape _ _ tiled (with_data_same_shape piece other data)
  cases delivered with
  | unknown absent =>
      have same : withData piece other data = piece := by
        have kept := modify_self piece.blocks other (fun block => block.receiveData data)
          (by simp [absent])
        simp only [withData, kept]
      rw [same]
  | partly => rfl
  | verified block present bytes ended same => rfl
  | rejected block present bytes ended differs =>
      have all := (hashed_data_iff _ shaped).mp ⟨bytes, ended⟩
      refine iff_of_false ?_ (all_received_unrequested _ all offset peerIp instant)
      rw [stateAt, lookup_map_entries, Option.map_map]
      intro same
      obtain ⟨old, -, state⟩ := Option.map_eq_some_iff.mp same
      cases state

theorem use_requested (sha1 : Bytes → Hash) (piece : Piece) (tiled : Tiled piece)
    (unwritten : ∀ offset block, piece.blocks.lookup offset = some block →
      block.state ≠ .written) (use : PieceUse) (offset : Nat) (block : Block)
    (found : piece.blocks.lookup offset = some block) (peerIp : PeerIp) (instant : Nat) :
    stateAt (performUse sha1 piece use).1 offset = some (.requested peerIp instant) ↔
      use = .request offset peerIp instant ∨
        (stateAt piece offset = some (.requested peerIp instant) ∧
          ¬ Settles block.length offset instant use) := by
  have before : stateAt piece offset = some block.state := by rw [stateAt, found]; rfl
  cases use with
  | request other ip now =>
      by_cases here : other = offset
      · subst here
        have asked : stateAt (piece.requestFromPeer other ip now) other =
            some (.requested ip now) := by
          simp only [stateAt, Piece.requestFromPeer, lookup_modify_self, found, Option.map_some,
            Block.requestFromPeer]
        rw [performUse, asked]
        simp [Settles]
      · have kept : stateAt (piece.requestFromPeer other ip now) offset = some block.state := by
          simp only [stateAt, Piece.requestFromPeer, lookup_modify_ne _ _ _ _ (Ne.symm here),
            found, Option.map_some]
        rw [performUse, kept, before]
        simp [Settles, here]
  | receive other data =>
      have delivered := receive_block_outcome sha1 piece tiled unwritten other data
      rw [performUse, delivered_requested sha1 piece _ tiled other data delivered]
      by_cases here : other = offset
      · subst here
        have stored : stateAt (withData piece other data) other =
            some (block.receiveData data).state := by
          simp only [stateAt, withData, lookup_modify_self, found, Option.map_some]
        rw [stored, before, Block.receiveData]
        by_cases fits : UInt32.ofNat data.length = block.length
        · simp [Settles, fits]
        · simp [Settles, fits]
      · have kept : stateAt (withData piece other data) offset = some block.state := by
          simp only [stateAt, withData, lookup_modify_ne _ _ _ _ (Ne.symm here), found,
            Option.map_some]
        rw [kept, before]
        simp [Settles, here]
  | maskWritten =>
      rw [performUse]
      simp [Settles, Piece.maskWritten, stateAt]
  | reset order clock =>
      have reset : stateAt (piece.resetTimeoutRequests order clock).1 offset =
          some (block.reset (clock offset)).1.state := by
        simp only [stateAt, Piece.resetTimeoutRequests, lookup_map_entries, found, Option.map_some]
      rw [performUse, reset, before, Option.some.injEq, Option.some.injEq, reset_state]
      simp [Settles]

end Steps

section Runs

variable (sha1 : Bytes → Hash)

structure Usable (start piece : Piece) : Prop where
  tiled : Tiled piece
  unwritten : ∀ offset block, piece.blocks.lookup offset = some block → block.state ≠ .written
  shape : SameShape start piece

theorem reset_same_shape (piece : Piece) (order : IterOrder (Entry Nat Block))
    (clock : Nat → Nat) : SameShape piece (piece.resetTimeoutRequests order clock).1 := by
  refine ⟨rfl, rfl, rfl, rfl, fun key => ?_⟩
  have keeps : ∀ block : Block, blockShape (block.reset (clock key)).1 = blockShape block := by
    intro block
    rcases reset_cases block (clock key) with ⟨_, _, -, -, same⟩ | ⟨-, same⟩
    · rw [same]
      rfl
    · rw [same]
  simp only [Piece.resetTimeoutRequests, lookup_map_entries, Option.map_map]
  exact congrArg (fun f => (piece.blocks.lookup key).map f) (funext keeps)

theorem use_usable (start piece : Piece) (usable : Usable start piece) (use : PieceUse) :
    Usable start (performUse sha1 piece use).1 := by
  obtain ⟨tiled, unwritten, shape⟩ := usable
  cases use with
  | request other ip now =>
      have same := request_same_shape piece other ip now
      refine ⟨tiled_same_shape _ _ tiled same, ?_, same_shape_trans _ _ _ shape same⟩
      intro key block found
      rcases lookup_modify_some _ _ _ _ _ found with ⟨-, old, -, rfl⟩ | ⟨-, there⟩
      · exact BlockState.noConfusion
      · exact unwritten key block there
  | receive other data =>
      have delivered := receive_block_outcome sha1 piece tiled unwritten other data
      have same := delivered_same_shape sha1 piece _ other data delivered
      have stored := with_data_unwritten piece other data unwritten
      refine ⟨tiled_same_shape _ _ tiled same, ?_, same_shape_trans _ _ _ shape same⟩
      rw [performUse]
      generalize (piece.receiveBlock sha1 other data).1 = after at delivered
      cases delivered with
      | unknown => exact unwritten
      | partly => exact stored
      | verified => exact stored
      | rejected =>
          intro key block found
          rw [lookup_map_entries] at found
          obtain ⟨old, -, rfl⟩ := Option.map_eq_some_iff.mp found
          exact BlockState.noConfusion
  | maskWritten =>
      exact ⟨⟨tiled.positive, tiled.narrow, tiled.entry, tiled.covers⟩, unwritten,
        ⟨shape.index, shape.length, shape.hash, shape.blockSize, shape.blocks⟩⟩
  | reset order clock =>
      have same := reset_same_shape piece order clock
      refine ⟨tiled_same_shape _ _ tiled same, ?_, same_shape_trans _ _ _ shape same⟩
      intro key block found
      simp only [performUse, Piece.resetTimeoutRequests, lookup_map_entries] at found
      obtain ⟨old, there, rfl⟩ := Option.map_eq_some_iff.mp found
      rcases reset_cases old (clock key) with ⟨_, _, -, -, same⟩ | ⟨-, same⟩
      · rw [same]
        exact BlockState.noConfusion
      · rw [same]
        exact unwritten key old there

/-- The state of a block says which of its requests is outstanding. -/
theorem run_requested (index : UInt32) (length : Nat) (hash : Hash) (blockSize : UInt32)
    (start piece : Piece) (made : Piece.new index length hash blockSize = some start)
    (past : List PieceUse) (log : List (HashMap Nat PeerIp))
    (ran : run (uses sha1) start past = some (piece, log)) :
    Usable start piece ∧ ∀ offset block, start.blocks.lookup offset = some block →
      ∀ peerIp instant, stateAt piece offset = some (.requested peerIp instant) ↔
        Outstanding sha1 start past block.length offset peerIp instant := by
  have fresh := piece_new_fresh index length hash blockSize start made
  refine run_history (uses sha1) start past (fun history piece _ => Usable start piece ∧
    ∀ offset block, start.blocks.lookup offset = some block → ∀ peerIp instant,
      stateAt piece offset = some (.requested peerIp instant) ↔
        Outstanding sha1 start history block.length offset peerIp instant)
    ⟨⟨fresh.tiled, ?_, same_shape_refl start⟩, ?_⟩ ?_ past (List.prefix_refl past) piece log ran
  · intro offset block found
    rw [fresh.missing offset block found]
    exact BlockState.noConfusion
  · intro offset block found peerIp instant
    refine iff_of_false ?_ (remembers_nil _ _ _ _)
    rw [stateAt, found, Option.map_some, fresh.missing offset block found]
    exact nofun
  · rintro history use piece log next emitted - reached ⟨usable, exact⟩ stepped
    obtain rfl : (performUse sha1 piece use).1 = next := congrArg Prod.fst (Option.some.inj stepped)
    refine ⟨use_usable sha1 start piece usable use, fun offset block found peerIp instant => ?_⟩
    obtain ⟨now, there, same⟩ := same_shape_block piece start
      (same_shape_symm start piece usable.shape) offset block found
    have size : now.length = block.length := congrArg (fun shape => shape.2.2) same
    rw [use_requested sha1 piece usable.tiled usable.unwritten use offset now there, size,
      exact offset block found, Outstanding, Outstanding,
      remembers_snoc_iff _ _ _ _ piece history use log reached]

/-- A reset reports a block to a peer if and only if the last request of the block went to
this peer, no taken data and no earlier reset has settled it, and it is older than the
timeout. It cancels what it reports and leaves every other block as it is. -/
theorem timeouts_reported (index : UInt32) (length : Nat) (hash : Hash) (blockSize : UInt32)
    (start piece : Piece) (made : Piece.new index length hash blockSize = some start)
    (past : List PieceUse) (log : List (HashMap Nat PeerIp))
    (ran : run (uses sha1) start past = some (piece, log)) (order : IterOrder (Entry Nat Block))
    (clock : Nat → Nat) (offset : Nat) :
    (∀ peerIp, (piece.resetTimeoutRequests order clock).2.lookup offset = some peerIp ↔
      ∃ block instant, start.blocks.lookup offset = some block ∧
        Outstanding sha1 start past block.length offset peerIp instant ∧
        Block.timeout < clock offset - instant) ∧
    (piece.resetTimeoutRequests order clock).1.blocks.lookup offset =
      if ((piece.resetTimeoutRequests order clock).2.lookup offset).isSome then
        (piece.blocks.lookup offset).map Block.cancle
      else piece.blocks.lookup offset := by
  obtain ⟨usable, exact⟩ :=
    run_requested sha1 index length hash blockSize start piece made past log ran
  have reports : (piece.resetTimeoutRequests order clock).2.lookup offset =
      (piece.blocks.lookup offset).bind fun block => (block.reset (clock offset)).2 :=
    lookup_collect order _ piece.blocks offset
  have leaves : (piece.resetTimeoutRequests order clock).1.blocks.lookup offset =
      (piece.blocks.lookup offset).map fun block => (block.reset (clock offset)).1 :=
    lookup_map_entries _ piece.blocks offset
  rw [reports, leaves]
  constructor
  · intro peerIp
    rw [Option.bind_eq_some_iff]
    constructor
    · rintro ⟨block, found, reported⟩
      obtain ⟨instant, asked, overdue⟩ := (reset_reports block _ peerIp).mp reported
      obtain ⟨first, there, same⟩ := same_shape_block start piece usable.shape offset block found
      refine ⟨first, instant, there, (exact offset first there peerIp instant).mp ?_, overdue⟩
      rw [stateAt, found, Option.map_some, asked]
    · rintro ⟨first, instant, there, outstanding, overdue⟩
      obtain ⟨block, found, asked⟩ := Option.map_eq_some_iff.mp
        ((exact offset first there peerIp instant).mpr outstanding)
      exact ⟨block, found, (reset_reports block _ peerIp).mpr ⟨instant, asked, overdue⟩⟩
  · cases piece.blocks.lookup offset with
    | none => rfl
    | some block =>
        rw [Option.bind_some, Option.map_some]
        rcases reset_cases block (clock offset) with ⟨ip, instant, -, -, same⟩ | ⟨-, same⟩
        · rw [same]
          rfl
        · rw [same]
          rfl

def constantHash (_ : Bytes) : Hash := Vector.replicate 20 0

def fivePiece : Piece := (Piece.new 0 5 (Vector.replicate 20 0) 4).get (by decide)

def fiveUsed : Piece :=
  (((fivePiece.requestFromPeer 0 default 7).requestFromPeer 4 default 7).receiveBlock constantHash
    4 [1]).1

/-- Both blocks have been requested and one has arrived. -/
theorem timeouts_reported_five :
    (∀ peerIp, (fiveUsed.resetTimeoutRequests default fun _ => Block.timeout + 8).2.lookup 0 =
        some peerIp ↔
      ∃ block instant, fivePiece.blocks.lookup 0 = some block ∧
        Outstanding constantHash fivePiece
          [.request 0 default 7, .request 4 default 7, .receive 4 [1]] block.length 0 peerIp
          instant ∧
        Block.timeout < Block.timeout + 8 - instant) ∧
    (fiveUsed.resetTimeoutRequests default fun _ => Block.timeout + 8).1.blocks.lookup 0 =
      if ((fiveUsed.resetTimeoutRequests default fun _ => Block.timeout + 8).2.lookup 0).isSome then
        (fiveUsed.blocks.lookup 0).map Block.cancle
      else fiveUsed.blocks.lookup 0 :=
  timeouts_reported constantHash 0 5 (Vector.replicate 20 0) 4 fivePiece fiveUsed
    (Option.some_get _).symm [.request 0 default 7, .request 4 default 7, .receive 4 [1]] [] rfl
    default (fun _ => Block.timeout + 8) 0

end Runs

end MotteSeed.RequestTimeouts
