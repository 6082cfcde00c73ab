import MotteSeed.Toolkit.BigEndian

/-! Streams of length-prefixed frames. Each frame is the big-endian length of a
body followed by the body, and a stream is the concatenation of its frames. -/
namespace Toolkit.Framing

def frame (width : Nat) (body : List UInt8) : List UInt8 :=
  BigEndian.encode width body.length ++ body

def stream (width : Nat) (bodies : List (List UInt8)) : List UInt8 :=
  bodies.flatMap (frame width)

def Fits (width : Nat) (body : List UInt8) : Prop := body.length < 256 ^ width

@[simp] theorem frame_length (width : Nat) (body : List UInt8) :
    (frame width body).length = width + body.length := by
  simp [frame]

theorem decode_prefix (width : Nat) (body : List UInt8) (fits : Fits width body) :
    BigEndian.decode ((frame width body).take width) = body.length := by
  have head : (frame width body).take width = BigEndian.encode width body.length := by
    simp [frame]
  rw [head, BigEndian.decode_encode, Nat.mod_eq_of_lt fits]

theorem drop_prefix (width : Nat) (body : List UInt8) : (frame width body).drop width = body := by
  simp [frame]

theorem stream_take_succ (width : Nat) (bodies : List (List UInt8)) (count : Nat)
    (body : List UInt8) (here : bodies[count]? = some body) :
    stream width (bodies.take (count + 1)) =
      stream width (bodies.take count) ++ frame width body := by
  obtain ⟨inside, same⟩ := List.getElem?_eq_some_iff.mp here
  rw [← List.take_append_getElem inside, same]
  simp [stream]

theorem frame_heads_stream (width : Nat) (body rest : List UInt8)
    (bodies : List (List UInt8)) (positive : 0 < width) (fits : Fits width body)
    (every : ∀ other ∈ bodies, Fits width other)
    (heads : frame width body ++ rest <+: stream width bodies) :
    bodies.head? = some body := by
  cases bodies with
  | nil =>
      have nothing := List.prefix_nil.mp heads
      have short : (frame width body ++ rest).length = 0 := by rw [nothing]; rfl
      simp only [List.length_append, frame_length] at short
      omega
  | cons first others =>
      have first_fits := every first List.mem_cons_self
      obtain ⟨tail, same⟩ := heads
      simp only [stream, List.flatMap_cons, frame, List.append_assoc] at same
      obtain ⟨lengths, bodies⟩ := List.append_inj same (by simp)
      have size : body.length = first.length := by
        have decoded := congrArg BigEndian.decode lengths
        rwa [BigEndian.decode_encode, BigEndian.decode_encode, Nat.mod_eq_of_lt fits,
          Nat.mod_eq_of_lt first_fits] at decoded
      rw [(List.append_inj bodies size).1]
      rfl

end Toolkit.Framing
